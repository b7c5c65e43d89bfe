import Spead.Proofs.Mirror

/-!
A group that has been handed off in heaps of any kind.

The generator only knows what it has put into heaps. A receiver refuses a descriptor that does not
pass its check, and passes over a value whose descriptor it does not know: it is up to date when
everything has been handed off, as long as no value has been sent before its descriptor.
-/

namespace Spead

/-- A call for a heap: the group and the generator at the time, and what was selected. -/
structure Posting where
  group : Group
  generator : Generator
  descriptors : Selection
  data : Selection

namespace Posting

/-- The heap has the value of the item, and its descriptor as well, unless that has been sent
before. -/
def Conveys (posting : Posting) (item : Item) : Prop :=
  item ∈ posting.generator.valued posting.group posting.data ∧
    (posting.generator.selectsDescriptor posting.descriptors item = true ∨
      (posting.generator.lastSent item.descriptor.id).descriptor = item.descriptorStamp)

/-- All descriptors of the group had been checked. -/
def Checked (posting : Posting) : Prop :=
  ∀ item ∈ posting.group.toList, item.descriptor.check = .ok ()

/-- Values that are selected together with stale descriptors, or with all, are conveyed. -/
theorem conveys_of_describes
    {posting : Posting} (describes : posting.descriptors ≠ .none) {item : Item}
    (valued : item ∈ posting.generator.valued posting.group posting.data) :
    posting.Conveys item := by
  refine ⟨valued, ?_⟩
  unfold Generator.selectsDescriptor Selection.includes
  cases selection : posting.descriptors with
  | none => exact absurd selection describes
  | all => exact Or.inl rfl
  | stale =>
      by_cases sent :
          (posting.generator.lastSent item.descriptor.id).descriptor = item.descriptorStamp
      · exact Or.inr sent
      · exact Or.inl (by simpa using sent)

end Posting

/-- What a sender and a receiver come to by changes of the sender's group and by heaps of any
selection, each of which the receiver applies before the next. Calls that fail change nothing. -/
inductive HandsOff (flavour : Flavour) : Group → Generator → Group → List Posting → Prop where
  | start : HandsOff flavour .empty { flavour } .empty []
  | add {group next mirror : Group} {generator : Generator} {history : List Posting}
      {descriptor : Descriptor} {value : Option Value}
      (before : HandsOff flavour group generator mirror history)
      (roundTrips : ∀ content, value = some content → content.RoundTrips descriptor)
      (added : group.add descriptor value = .ok next) :
      HandsOff flavour next generator mirror history
  | setValue {group next mirror : Group} {generator : Generator} {history : List Posting}
      {id : Nat} {value : Value}
      (before : HandsOff flavour group generator mirror history)
      (roundTrips : ∀ item, group.get? id = some item → value.RoundTrips item.descriptor)
      (set : group.setValue id value = .ok next) :
      HandsOff flavour next generator mirror history
  | remove {group mirror : Group} {generator : Generator} {history : List Posting} {id : Nat}
      (before : HandsOff flavour group generator mirror history) :
      HandsOff flavour (group.remove id) generator mirror history
  | post {group mirror : Group} {generator next : Generator} {history : List Posting}
      {descriptors data : Selection} {heap : Heap} {received : ReceivedHeap}
      (before : HandsOff flavour group generator mirror history)
      (made : generator.heap group descriptors data = .ok (heap, next))
      (delivered : heap.delivered? = some received) :
      HandsOff flavour group next (mirror.update received).1
        (history ++ [⟨group, generator, descriptors, data⟩])

/-! ## What the receiver knows -/

/-- A heap of nothing but descriptors adds items without values, whose descriptors have been
checked. -/
theorem Group.get?_update_of_descriptors
    {group : Group} {heap : ReceivedHeap}
    (described : (heap.items.filter fun item => ItemId.firstUser ≤ item.id) = []) {id : Nat}
    {held : Item} (holds : (group.update heap).1.get? id = some held) :
    (held.value = none ∧ held.descriptor.check = .ok ()) ∨ group.get? id = some held := by
  unfold update at holds
  rw [described, List.foldl_nil] at holds
  have accepted : ∀ descriptor, .ok descriptor ∈ heap.descriptors → descriptor.check = .ok () := by
    intro descriptor member
    obtain ⟨_, _, parsed⟩ := List.mem_map.1 member
    exact Descriptor.check_of_parse parsed
  generalize ({} : UpdateReport) = report at holds
  generalize heap.descriptors = descriptors at holds accepted
  induction descriptors generalizing group report with
  | nil => exact Or.inr holds
  | cons parsed rest inductionHypothesis =>
      rw [List.foldl_cons] at holds
      have others (descriptor : Descriptor) (member : .ok descriptor ∈ rest) :=
        accepted descriptor (List.mem_cons_of_mem parsed member)
      cases parsed with
      | error _ => exact inductionHypothesis _ holds others
      | ok descriptor =>
          simp only [applyDescriptor] at holds
          split at holds
          · exact inductionHypothesis _ holds others
          · rcases inductionHypothesis _ holds others with new | found
            · exact Or.inl new
            · rcases get?_insert_eq_some found with ⟨_, rfl⟩ | ⟨_, _, kept⟩
              · exact Or.inl ⟨rfl, accepted descriptor List.mem_cons_self⟩
              · exact Or.inr kept

/-- What the generator has sent as it is now is known to the mirror, if it was conveyed. -/
structure Told
    (history : List Posting) (group : Group) (generator : Generator) (mirror : Group) : Prop where
  mirrorSound : mirror.Sound
  sent_le : ∀ id,
    (generator.lastSent id).descriptor ≤ group.stamp ∧
      (generator.lastSent id).value ≤ group.stamp
  described : ∀ id item, group.get? id = some item →
    (generator.lastSent id).descriptor = item.descriptorStamp →
    mirror.descriptor? id = some item.descriptor.canonical
  posted : ∀ posting ∈ history, ∀ item ∈ posting.group.toList,
    item.descriptorStamp ≤ group.stamp ∧ item.valueStamp ≤ group.stamp
  conveyed : ∀ posting ∈ history, ∀ item, posting.Conveys item →
    group.get? item.descriptor.id = some item →
    (generator.lastSent item.descriptor.id).descriptor = item.descriptorStamp ∧
      ∀ value, item.value = some value →
        ∃ held, mirror.get? item.descriptor.id = some held ∧ held.value = some value
  sent : ∀ id item value, group.get? id = some item → item.value = some value →
    (generator.lastSent id).value = item.valueStamp →
    ∃ posting ∈ history, item ∈ posting.generator.valued posting.group posting.data

theorem told_start (flavour : Flavour) : Told [] .empty { flavour } .empty where
  mirrorSound := Group.sound_empty
  sent_le := fun _ => ⟨Nat.le_refl 0, Nat.le_refl 0⟩
  described := by simp [Group.empty, Group.get?]
  posted := by simp
  conveyed := by simp
  sent := by simp [Group.empty, Group.get?]

section Told

variable {history : List Posting} {group mirror : Group} {generator : Generator}

/-- Nothing is taken to be sent because of a change. -/
theorem Told.of_later
    (told : Told history group generator mirror) {next : Group} (sound : next.Sound)
    (later : group.Later next) : Told history next generator mirror where
  mirrorSound := told.mirrorSound
  sent_le := fun id =>
    ⟨Nat.le_trans (told.sent_le id).1 later.stamp_le,
      Nat.le_trans (told.sent_le id).2 later.stamp_le⟩
  described := by
    intro id item found sent
    have early : item.descriptorStamp ≤ group.stamp := sent ▸ (told.sent_le id).1
    obtain ⟨old, foundOld, descriptor, stamped, _⟩ := later.unchanged id item found early
    rw [← descriptor]
    exact told.described id old foundOld (sent.trans stamped.symm)
  posted := by
    intro posting member item listed
    obtain ⟨descriptorEarly, valueEarly⟩ := told.posted posting member item listed
    exact ⟨Nat.le_trans descriptorEarly later.stamp_le, Nat.le_trans valueEarly later.stamp_le⟩
  conveyed := by
    intro posting member item conveys found
    obtain ⟨descriptorEarly, valueEarly⟩ :=
      told.posted posting member item (List.mem_filter.1 conveys.1).1
    obtain ⟨old, foundOld, _, _, same⟩ := later.unchanged _ item found descriptorEarly
    rw [same valueEarly] at foundOld
    exact told.conveyed posting member item conveys foundOld
  sent := by
    intro id item value found hasValue sent
    have order := (sound.stamped id item found).descriptor_lt_value value hasValue
    have early : item.valueStamp ≤ group.stamp := sent ▸ (told.sent_le id).2
    obtain ⟨old, foundOld, _, _, same⟩ := later.unchanged id item found (by omega)
    rw [same early] at foundOld
    exact told.sent id item value foundOld hasValue sent

end Told

section Heaps

variable {history : List Posting} {group mirror : Group} {generator next : Generator}
  {descriptors data : Selection} {descriptorCarriers valueCarriers : List HeapItem} {heap : Heap}
  (makes : generator.Makes group descriptors data descriptorCarriers valueCarriers heap next)
  (sendable : group.Sendable)

include makes sendable

/-- What a heap of any selection does to a mirror: an item is known there that was known before or
that the heap describes, and if its value is in the heap, or has been there before, it is there
now. -/
theorem Generator.Makes.update (mirrorSound : mirror.Sound) (count : Nat) :
    let after := (mirror.update ⟨count, generator.flavour, heap.receivedItems⟩).1
    after.Sound ∧
      ∀ id item, group.get? id = some item →
        generator.selectsDescriptor descriptors item = true ∨
          mirror.descriptor? id = some item.descriptor.canonical →
        after.descriptor? id = some item.descriptor.canonical ∧
          ∀ value, item.value = some value →
            item ∈ generator.valued group data ∨
              (∃ held, mirror.get? id = some held ∧
                held.descriptor = item.descriptor.canonical ∧ held.value = some value) →
            ∃ held, after.get? id = some held ∧ held.value = some value := by
  have sound := sendable.sound
  have checked := sendable.checked_of_mem
  obtain ⟨midSound, _, midKnown, midKept⟩ :=
    Group.described_canonical sound mirrorSound generator descriptors {}
  rw [← makes.descriptors_received checked count] at midSound midKnown midKept
  have carried := makes.values_carried checked sendable.roundTrips_of_mem
  have ids :
      (heap.receivedItems.filter fun item => ItemId.firstUser ≤ item.id).map ReceivedItem.id =
        (Generator.withValues (generator.valued group data)).map fun entry =>
          entry.1.descriptor.id :=
    map_eq_map_of_forall₂ carried fun _ _ same => same.1
  have filled := Group.filled_foldl midSound
    (heap.receivedItems.filter fun item => ItemId.firstUser ≤ item.id)
  have set := filled.set midSound (by
    have distinct := Generator.nodup_ids_withValues sound generator data
    rw [List.map_map] at distinct
    rw [ids]
    exact distinct)
  intro after
  refine ⟨filled.sound, ?_⟩
  intro id item found known
  have described := midKnown id item found known
  refine ⟨(filled.descriptors id).trans described, ?_⟩
  intro value hasValue conveyed
  have keyed := sound.keyed id item found
  by_cases valued : item ∈ generator.valued group data
  · have ofEntries : (item, value) ∈ Generator.withValues (generator.valued group data) :=
      Generator.mem_withValues_iff.2 ⟨valued, hasValue⟩
    obtain ⟨arrived, member, same, read⟩ := exists_of_forall₂_left carried ofEntries
    rw [keyed] at same
    have setValue := set arrived member _ value (by rw [same]; exact described) read
    rwa [same] at setValue
  · obtain ⟨held, holds, sameDescriptor, sameValue⟩ := conveyed.resolve_left valued
    refine ⟨held, (filled.kept id ?_).trans (midKept id item held found holds sameDescriptor),
      sameValue⟩
    -- No other item has the id, so that its value is not in the heap.
    rw [ids]
    intro member
    obtain ⟨entry, ofEntries, sameId⟩ := List.mem_map.1 member
    obtain ⟨ofValued, _⟩ := Generator.mem_withValues_iff.1 ofEntries
    have entryFound := (sound.mem_toList_iff entry.1).1 (List.mem_filter.1 ofValued).1
    rw [sameId, found, Option.some_inj] at entryFound
    rw [← entryFound] at ofValued
    exact valued ofValued

/-- A heap tells the mirror what it conveys, and harms nothing that was known. -/
theorem Told.post (told : Told history group generator mirror) (count : Nat) :
    Told (history ++ [⟨group, generator, descriptors, data⟩]) group next
      (mirror.update ⟨count, generator.flavour, heap.receivedItems⟩).1 := by
  have sound := sendable.sound
  obtain ⟨afterSound, updated⟩ := makes.update sendable told.mirrorSound count
  -- The generator takes a descriptor to be sent if the heap has it, or if it was before.
  have sent_iff {id : Nat} {item : Item} (found : group.get? id = some item) :
      (next.lastSent id).descriptor = item.descriptorStamp ↔
        generator.selectsDescriptor descriptors item = true ∨
          (generator.lastSent id).descriptor = item.descriptorStamp := by
    rw [makes.lastSent sound id, found]
    by_cases selected : generator.selectsDescriptor descriptors item = true
    · simp [selected]
    · simp [selected]
  have known {id : Nat} {item : Item} (found : group.get? id = some item)
      (sent : generator.selectsDescriptor descriptors item = true ∨
        (generator.lastSent id).descriptor = item.descriptorStamp) :
      generator.selectsDescriptor descriptors item = true ∨
        mirror.descriptor? id = some item.descriptor.canonical :=
    sent.imp_right (told.described id item found)
  constructor
  case mirrorSound => exact afterSound
  case sent_le =>
    intro id
    obtain ⟨descriptorSent, valueSent⟩ := told.sent_le id
    rw [makes.lastSent sound id]
    cases found : group.get? id with
    | none => exact ⟨descriptorSent, valueSent⟩
    | some item =>
        have stamped := sound.stamped id item found
        constructor
        · dsimp only
          split
          · exact stamped.descriptor_le
          · exact descriptorSent
        · dsimp only
          split
          · exact stamped.value_le
          · exact valueSent
  case described =>
    intro id item found sent
    exact (updated id item found (known found ((sent_iff found).1 sent))).1
  case posted =>
    intro posting member item listed
    rcases List.mem_append.1 member with earlier | new
    · exact told.posted posting earlier item listed
    · rw [List.mem_singleton] at new
      subst new
      have stamped := sound.stamped _ item ((sound.mem_toList_iff item).1 listed)
      exact ⟨stamped.descriptor_le, stamped.value_le⟩
  case conveyed =>
    intro posting member item conveys found
    rcases List.mem_append.1 member with earlier | new
    · obtain ⟨sent, values⟩ := told.conveyed posting earlier item conveys found
      refine ⟨(sent_iff found).2 (Or.inr sent), ?_⟩
      intro value hasValue
      obtain ⟨held, holds, sameValue⟩ := values value hasValue
      have described := told.described _ item found sent
      rw [Group.descriptor?, holds, Option.map_some, Option.some_inj] at described
      exact (updated _ item found (known found (Or.inr sent))).2 value hasValue
        (Or.inr ⟨held, holds, described, sameValue⟩)
    · rw [List.mem_singleton] at new
      subst new
      obtain ⟨valued, sent⟩ := conveys
      refine ⟨(sent_iff found).2 sent, ?_⟩
      intro value hasValue
      exact (updated _ item found (known found sent)).2 value hasValue (Or.inl valued)
  case sent =>
    intro id item value found hasValue sent
    rw [makes.lastSent sound id, found] at sent
    by_cases selected : generator.selectsValue data item = true
    · have listed := (sound.mem_toList_iff item).2 (sound.get?_own_id found)
      exact ⟨_, List.mem_append_right _ List.mem_cons_self, List.mem_filter.2 ⟨listed, selected⟩⟩
    · simp only [if_neg selected] at sent
      obtain ⟨posting, member, valued⟩ := told.sent id item value found hasValue sent
      exact ⟨posting, List.mem_append_left _ member, valued⟩

end Heaps

/-! ## Whole runs -/

section Runs

variable {flavour : Flavour} {history : List Posting} {group mirror : Group}
  {generator : Generator}

theorem HandsOff.readable (run : HandsOff flavour group generator mirror history) :
    group.Sound ∧ group.RoundTrips := by
  induction run with
  | start => exact ⟨Group.sound_empty, Group.roundTrips_empty⟩
  | add _ roundTrips added inductionHypothesis =>
      obtain ⟨sound, roundTripping⟩ := inductionHypothesis
      obtain ⟨_, rfl⟩ := Group.add_eq_ok_iff.1 added
      exact ⟨sound.insert _ _, roundTripping.insert roundTrips⟩
  | setValue _ roundTrips set inductionHypothesis =>
      obtain ⟨sound, roundTripping⟩ := inductionHypothesis
      obtain ⟨item, found, _, rfl⟩ := Group.setValue_eq_ok_iff.1 set
      exact ⟨sound.store (sound.get?_own_id found) _,
        roundTripping.store (roundTrips item found)⟩
  | @remove _ _ _ _ id _ inductionHypothesis =>
      obtain ⟨sound, roundTripping⟩ := inductionHypothesis
      exact ⟨sound.remove id, roundTripping.remove id⟩
  | post _ _ _ inductionHypothesis => exact inductionHypothesis

theorem HandsOff.told
    (run : HandsOff flavour group generator mirror history)
    (checked : ∀ posting ∈ history, posting.Checked) :
    Told history group generator mirror := by
  induction run with
  | start => exact told_start flavour
  | add before _ added inductionHypothesis =>
      obtain ⟨_, rfl⟩ := Group.add_eq_ok_iff.1 added
      exact (inductionHypothesis checked).of_later (before.readable.1.insert _ _)
        (Group.later_insert _ _ _)
  | setValue before _ set inductionHypothesis =>
      obtain ⟨item, found, _, rfl⟩ := Group.setValue_eq_ok_iff.1 set
      have sound := before.readable.1
      have foundSelf := sound.get?_own_id found
      exact (inductionHypothesis checked).of_later (sound.store foundSelf _)
        (Group.later_store foundSelf _)
  | @remove _ _ _ _ id before inductionHypothesis =>
      exact (inductionHypothesis checked).of_later (before.readable.1.remove id)
        (Group.later_remove _ id)
  | post before made delivered inductionHypothesis =>
      obtain ⟨sound, roundTripping⟩ := before.readable
      rw [List.forall_mem_append, List.forall_mem_singleton] at checked
      have sendable : Group.Sendable _ :=
        ⟨sound, fun id item found => checked.2 item
          ((sound.mem_toList_iff item).2 (sound.get?_own_id found)), roundTripping⟩
      obtain ⟨_, _, makes⟩ := Generator.heap_eq_ok made
      rw [Heap.eq_of_delivered? delivered, congrArg Heap.flavour makes.heap]
      exact (inductionHypothesis checked.1).post makes sendable _

theorem Generator.sent_of_fragmented
    (fragmented : generator.state group = .fragmented) :
    ∀ item ∈ group.toList,
      (generator.lastSent item.descriptor.id).descriptor = item.descriptorStamp ∧
        ∀ value, item.value = some value →
          (generator.lastSent item.descriptor.id).value = item.valueStamp := by
  unfold Generator.state at fragmented
  split at fragmented
  · cases fragmented
  split at fragmented
  · cases fragmented
  split at fragmented
  · cases fragmented
  next noDescriptor =>
    split at fragmented
    · cases fragmented
    next noValue =>
      rw [List.any_eq_true] at noDescriptor noValue
      intro item member
      constructor
      · by_contra stale
        exact noDescriptor ⟨item, member, decide_eq_true stale⟩
      · intro value hasValue
        by_contra stale
        refine noValue ⟨item, member, ?_⟩
        rw [Generator.selectsValue, hasValue, Option.isSome_some, Bool.true_and]
        exact decide_eq_true stale

/-- When everything has been handed off, in heaps of checked descriptors, the receiver holds every
item of the sender with its descriptor, up to the order of single bytes. It holds the value of an
item as well, if a heap had the value together with the descriptor or after it; and so it does for
all items, if no heap had values without descriptors being selected. -/
theorem HandsOff.mirrored_of_fragmented
    (run : HandsOff flavour group generator mirror history)
    (checked : ∀ posting ∈ history, posting.Checked)
    (fragmented : generator.state group = .fragmented) :
    (∀ id item, group.get? id = some item →
      ∃ held, mirror.get? id = some held ∧ held.descriptor = item.descriptor.canonical ∧
        ∀ value, item.value = some value → (∃ posting ∈ history, posting.Conveys item) →
          held.value = some value) ∧
    ((∀ posting ∈ history, posting.descriptors = .none → posting.data = .none) →
      group.MirroredBy mirror) := by
  have sound := run.readable.1
  have told := run.told checked
  have sent {id : Nat} {item : Item} (found : group.get? id = some item) :=
    Generator.sent_of_fragmented fragmented item
      ((sound.mem_toList_iff item).2 (sound.get?_own_id found))
  have each : ∀ id item, group.get? id = some item →
      ∃ held, mirror.get? id = some held ∧ held.descriptor = item.descriptor.canonical ∧
        ∀ value, item.value = some value → (∃ posting ∈ history, posting.Conveys item) →
          held.value = some value := by
    intro id item found
    have keyed := sound.keyed id item found
    have described := told.described id item found (by rw [← keyed]; exact (sent found).1)
    obtain ⟨held, holds, sameDescriptor⟩ := Option.map_eq_some_iff.1 described
    refine ⟨held, holds, sameDescriptor, ?_⟩
    rintro value hasValue ⟨posting, member, conveys⟩
    have foundSelf := sound.get?_own_id found
    obtain ⟨other, holdsOther, sameValue⟩ :=
      (told.conveyed posting member item conveys foundSelf).2 value hasValue
    rw [keyed, holds, Option.some_inj] at holdsOther
    rwa [holdsOther]
  refine ⟨each, ?_⟩
  intro describing id item found
  obtain ⟨held, holds, sameDescriptor, values⟩ := each id item found
  refine ⟨held, holds, sameDescriptor, ?_⟩
  intro value hasValue
  have keyed := sound.keyed id item found
  obtain ⟨posting, member, valued⟩ :=
    told.sent id item value found hasValue (by rw [← keyed]; exact (sent found).2 value hasValue)
  refine values value hasValue ⟨posting, member, posting.conveys_of_describes ?_ valued⟩
  intro none
  have selected := (List.mem_filter.1 valued).2
  rw [describing posting member none, Generator.selectsValue, Selection.includes,
    Bool.and_false] at selected
  cases selected

end Runs

/-! ## A descriptor and a value in heaps of their own -/

def levelDescriptor : Descriptor :=
  ⟨ItemId.firstUser, "level", "", [], .records [{ kind := .uint, bits := 16 }]⟩

/-- A group with a single item, which has never been sent. -/
def levelAtThree : Group :=
  Group.empty.insert levelDescriptor (some (.record [.uint 3]))

theorem checked_levelAtThree : ∀ item ∈ levelAtThree.toList, item.descriptor.check = .ok () := by
  intro item member
  obtain rfl := List.mem_singleton.1 member
  rfl

theorem handsOff_levelAtThree :
    HandsOff .standard levelAtThree { flavour := .standard } .empty [] := by
  have added : Group.empty.add levelDescriptor (some (.record [.uint 3])) = .ok levelAtThree := rfl
  apply HandsOff.add .start _ added
  rintro content ⟨⟩
  exact ⟨[0, 3], rfl, rfl⟩

/-- The value comes after its descriptor. -/
theorem HandsOff.mirrored_of_fragmented_in_two_heaps :
    ∃ generator mirror history held,
      HandsOff .standard levelAtThree generator mirror history ∧
        (∀ posting ∈ history, posting.Checked) ∧ generator.state levelAtThree = .fragmented ∧
        mirror.get? ItemId.firstUser = some held ∧ held.value = some (.record [.uint 3]) := by
  obtain ⟨first, second, next, final, received, receivedSecond, made, madeSecond, delivered,
      deliveredSecond, fragmented, conveys⟩ :
      ∃ (first second : Heap) (next final : Generator) (received receivedSecond : ReceivedHeap),
        Generator.heap { flavour := .standard } levelAtThree .stale .none = .ok (first, next) ∧
        next.heap levelAtThree .none .stale = .ok (second, final) ∧
        first.delivered? = some received ∧ second.delivered? = some receivedSecond ∧
        final.state levelAtThree = .fragmented ∧
        Posting.Conveys ⟨levelAtThree, next, .none, .stale⟩
          (Group.empty.inserted levelDescriptor (some (.record [.uint 3]))) := by
    refine ⟨_, _, _, _, _, _, rfl, rfl, rfl, rfl, rfl, ?_, Or.inr rfl⟩
    exact List.mem_cons_self
  have run := (handsOff_levelAtThree.post made delivered).post madeSecond deliveredSecond
  have checked (posting : Posting) (same : posting.group = levelAtThree) : posting.Checked := by
    rw [Posting.Checked, same]
    exact checked_levelAtThree
  have mirrored := run.mirrored_of_fragmented (by simp [checked]) fragmented
  obtain ⟨held, holds, _, values⟩ := mirrored.1 ItemId.firstUser _ rfl
  exact ⟨_, _, _, held, run, by simp [checked], fragmented, holds,
    values _ rfl ⟨_, List.mem_append_right _ List.mem_cons_self, conveys⟩⟩

/-- The value comes before its descriptor, and is lost. -/
theorem exists_handsOff_not_mirroredBy_of_value_first :
    ∃ generator mirror history, HandsOff .standard levelAtThree generator mirror history ∧
      (∀ posting ∈ history, posting.Checked) ∧ generator.state levelAtThree = .fragmented ∧
      ¬ levelAtThree.MirroredBy mirror := by
  obtain ⟨first, second, next, final, received, receivedSecond, made, madeSecond, delivered,
      deliveredSecond, fragmented, unknown, described⟩ :
      ∃ (first second : Heap) (next final : Generator) (received receivedSecond : ReceivedHeap),
        Generator.heap { flavour := .standard } levelAtThree .none .stale = .ok (first, next) ∧
        next.heap levelAtThree .stale .none = .ok (second, final) ∧
        first.delivered? = some received ∧ second.delivered? = some receivedSecond ∧
        final.state levelAtThree = .fragmented ∧
        (Group.empty.update received).1 = .empty ∧
        (receivedSecond.items.filter fun item => ItemId.firstUser ≤ item.id) = [] :=
    ⟨_, _, _, _, _, _, rfl, rfl, rfl, rfl, rfl, rfl, rfl⟩
  have run := (handsOff_levelAtThree.post made delivered).post madeSecond deliveredSecond
  rw [unknown] at run
  refine ⟨_, _, _, run, by simpa [Posting.Checked] using checked_levelAtThree, fragmented, ?_⟩
  intro mirrored
  obtain ⟨held, holds, _, values⟩ := mirrored ItemId.firstUser _ rfl
  have value : held.value = some (.record [.uint 3]) := values _ rfl
  rcases Group.get?_update_of_descriptors described holds with ⟨lost, _⟩ | ⟨⟨⟩⟩
  rw [lost] at value
  cases value

def reservedOnly : Group :=
  Group.empty.insert { levelDescriptor with id := 7 } none

/-- A descriptor with a reserved id is sent, but no receiver accepts it. -/
theorem exists_handsOff_not_mirroredBy_of_reserved_id :
    ∃ generator mirror posting, HandsOff .standard reservedOnly generator mirror [posting] ∧
      posting.descriptors = .stale ∧ generator.state reservedOnly = .fragmented ∧
      ¬ reservedOnly.MirroredBy mirror := by
  obtain ⟨heap, next, received, made, delivered, fragmented, described⟩ :
      ∃ (heap : Heap) (next : Generator) (received : ReceivedHeap),
        Generator.heap { flavour := .standard } reservedOnly .stale .stale = .ok (heap, next) ∧
        heap.delivered? = some received ∧ next.state reservedOnly = .fragmented ∧
        (received.items.filter fun item => ItemId.firstUser ≤ item.id) = [] :=
    ⟨_, _, _, rfl, rfl, rfl, rfl⟩
  have added : Group.empty.add { levelDescriptor with id := 7 } none = .ok reservedOnly := rfl
  have run := (HandsOff.add .start (by simp) added).post made delivered
  refine ⟨_, _, _, run, rfl, fragmented, ?_⟩
  intro mirrored
  obtain ⟨held, holds, sameDescriptor, _⟩ := mirrored 7 _ rfl
  rcases Group.get?_update_of_descriptors described holds with ⟨_, accepted⟩ | ⟨⟨⟩⟩
  have refused : held.descriptor.check ≠ .ok () := by
    rw [sameDescriptor]
    decide
  exact refused accepted

/-- That everything has been handed off does not mean that the receiver is up to date: not if a
value has been sent before its descriptor, although all descriptors have been checked, and not if a
descriptor has not been checked, although descriptors have always been selected. -/
theorem not_forall_fragmented_mirroredBy :
    (¬ ∀ (flavour : Flavour) (group : Group) (generator : Generator) (mirror : Group)
        (history : List Posting), HandsOff flavour group generator mirror history →
      (∀ posting ∈ history, posting.Checked) →
      generator.state group = .fragmented → group.MirroredBy mirror) ∧
    ¬ ∀ (flavour : Flavour) (group : Group) (generator : Generator) (mirror : Group)
        (history : List Posting), HandsOff flavour group generator mirror history →
      (∀ posting ∈ history, posting.descriptors = .none → posting.data = .none) →
      generator.state group = .fragmented → group.MirroredBy mirror := by
  constructor
  · intro always
    obtain ⟨_, _, _, run, checked, fragmented, behind⟩ :=
      exists_handsOff_not_mirroredBy_of_value_first
    exact behind (always _ _ _ _ _ run checked fragmented)
  · intro always
    obtain ⟨_, _, posting, run, stale, fragmented, behind⟩ :=
      exists_handsOff_not_mirroredBy_of_reserved_id
    refine behind (always _ _ _ _ _ run ?_ fragmented)
    intro other member none
    rw [List.mem_singleton.1 member, stale] at none
    cases none

end Spead
