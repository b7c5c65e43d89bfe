import Spead.Proofs.Generator.InPlace
import Spead.Proofs.Group.InPlace

/-!
Heaps of what has changed.

The stamps that a generator remembers stand for a history: something is stale if it was changed,
and no heap has carried it since. This is shown of every run of changes and heaps, whether the
calls succeed or fail.
-/

namespace Spead

/-! ## Histories -/

section Outstanding

variable {deed : Type} {renews clears : deed → Prop} {history : List deed} {last : deed}

/-- Something has been renewed and not been cleared since. -/
def Outstanding (renews clears : deed → Prop) (history : List deed) : Prop :=
  ∃ earlier renewal later, history = earlier ++ renewal :: later ∧ renews renewal ∧
    ∀ other ∈ later, ¬ clears other

theorem outstanding_append_singleton :
    Outstanding renews clears (history ++ [last]) ↔
      renews last ∨ (Outstanding renews clears history ∧ ¬ clears last) := by
  constructor
  · intro outstanding
    obtain ⟨earlier, renewal, later, split, renewed, uncleared⟩ := outstanding
    rcases List.eq_nil_or_concat later with rfl | ⟨between, final, rfl⟩
    · obtain ⟨_, same⟩ := List.append_inj' split rfl
      cases same
      exact Or.inl renewed
    · have splitLast : history ++ [last] = (earlier ++ renewal :: between) ++ [final] := by
        simpa using split
      obtain ⟨rfl, same⟩ := List.append_inj' splitLast rfl
      cases same
      right
      refine ⟨⟨earlier, renewal, between, rfl, renewed, ?_⟩, ?_⟩
      · intro other member
        exact uncleared other (by simp [member])
      · exact uncleared last (by simp)
  · intro either
    rcases either with renewed | ⟨⟨earlier, renewal, later, rfl, renewed, uncleared⟩, kept⟩
    · exact ⟨history, last, [], rfl, renewed, by simp⟩
    · refine ⟨earlier, renewal, later ++ [last], by simp, renewed, ?_⟩
      intro other member
      rcases List.mem_append.1 member with before | now
      · exact uncleared other before
      · rw [List.mem_singleton.1 now]
        exact kept

theorem outstanding_append_of_not (unrenewed : ¬ renews last) (kept : ¬ clears last) :
    Outstanding renews clears (history ++ [last]) ↔ Outstanding renews clears history := by
  rw [outstanding_append_singleton]
  simp [unrenewed, kept]

end Outstanding

/-! ## What heaps carry -/

def Item.ValueCarriedBy (item : Item) (carrier : HeapItem) : Prop :=
  ∃ value, item.value = some value ∧ Generator.CarriesValue (item, value) carrier

/-- The heap carries the descriptors of items and then the values of items, and nothing else. -/
def Heap.IsMadeOf (heap : Heap) (described valued : List Item) : Prop :=
  ∃ descriptorCarriers valueCarriers,
    heap.items = descriptorCarriers ++ valueCarriers ∧
      List.Forall₂ (Generator.CarriesDescriptor heap.flavour) described descriptorCarriers ∧
      List.Forall₂ Item.ValueCarriedBy valued valueCarriers

namespace Generator

theorem forall₂_valueCarriedBy
    {items : List Item} {carriers : List HeapItem}
    (conveys : List.Forall₂ CarriesValue (withValues items) carriers)
    (valued : ∀ item ∈ items, item.value.isSome) :
    List.Forall₂ Item.ValueCarriedBy items carriers := by
  induction items generalizing carriers with
  | nil =>
      cases conveys
      exact .nil
  | cons item rest inductionHypothesis =>
      obtain ⟨value, hasValue⟩ := Option.isSome_iff_exists.1 (valued item List.mem_cons_self)
      have split : withValues (item :: rest) = (item, value) :: withValues rest := by
        simp [withValues, hasValue]
      rw [split] at conveys
      cases conveys with
      | cons first others =>
          exact .cons ⟨value, hasValue, first⟩
            (inductionHypothesis others fun other member =>
              valued other (List.mem_cons_of_mem item member))

theorem Makes.isMadeOf
    {generator next : Generator} {group : Group} {descriptors data : Selection}
    {descriptorCarriers valueCarriers : List HeapItem} {heap : Heap}
    (makes : generator.Makes group descriptors data descriptorCarriers valueCarriers heap next) :
    heap.IsMadeOf (generator.described group descriptors) (generator.valued group data) := by
  refine ⟨descriptorCarriers, valueCarriers, ?_, ?_, ?_⟩
  · rw [makes.heap]
  · rw [makes.heap]
    exact makes.describes
  · apply forall₂_valueCarriedBy makes.conveys
    intro item member
    have selected := (List.mem_filter.1 member).2
    unfold selectsValue at selected
    simp only [Bool.and_eq_true] at selected
    exact selected.1

section Settled

variable {generator next : Generator} {group : Group}
  {descriptorCarriers valueCarriers : List HeapItem} {heap : Heap}
  (makes : generator.Makes group .stale .stale descriptorCarriers valueCarriers heap next)
  (sound : group.Sound)

include makes sound

/-- Nothing of the group is stale once a heap of all that was stale has been made. -/
theorem Makes.selectsNothing :
    ∀ item ∈ group.toList,
      next.selectsDescriptor .stale item = false ∧ next.selectsValue .stale item = false := by
  intro item member
  have found := (sound.mem_toList_iff item).1 member
  have last := makes.lastSent sound item.descriptor.id
  rw [found] at last
  have settles (sent stamp : Nat) : (if sent ≠ stamp then stamp else sent) = stamp := by
    split
    · rfl
    · next same => exact not_not.1 same
  simp only [selectsDescriptor, selectsValue, last, Selection.includes]
  constructor
  · simp [settles]
  · by_cases hasValue : item.value.isSome = true
    · simp [hasValue, settles]
    · simp [hasValue]

theorem Makes.fragmented : next.state group = .fragmented := by
  have nothing := makes.selectsNothing sound
  have noDescriptor : group.toList.any (next.selectsDescriptor .stale) = false :=
    List.any_eq_false.2 fun item member => by simp [(nothing item member).1]
  have noValue : group.toList.any (next.selectsValue .stale) = false :=
    List.any_eq_false.2 fun item member => by simp [(nothing item member).2]
  have running : next.exhausted = false := by rw [makes.next]; exact makes.running
  have started : next.started = true := by rw [makes.next]
  simp [state, running, started, noDescriptor, noValue]

/-- The next heap of a group that stays as it is has nothing to carry. -/
theorem Makes.heap_again :
    ∃ later, next.heap group .stale .stale = .ok (⟨next.nextCount, next.flavour, []⟩, later) := by
  have nothing := makes.selectsNothing sound
  have noDescriptors : group.toList.filter (next.selectsDescriptor .stale) = [] :=
    List.filter_eq_nil_iff.2 fun item member => by simp [(nothing item member).1]
  have noValues : group.toList.filter (next.selectsValue .stale) = [] :=
    List.filter_eq_nil_iff.2 fun item member => by simp [(nothing item member).2]
  have running : next.exhausted = false := by rw [makes.next]; exact makes.running
  refine ⟨next.counted, ?_⟩
  rw [Generator.heap, noDescriptors, noValues, takeCount_of_running running,
    if_neg (by simp [running])]
  rfl

end Settled

end Generator

/-! ## Calls to a group and its generator -/

/-- What a call has done. -/
inductive Deed where
  /-- An item has been added, with a value or without. -/
  | added (id : Nat) (valued : Bool)
  /-- The value of an item has been set. -/
  | set (id : Nat)
  /-- A heap has been made of the descriptors and of the values of items. -/
  | sent (heap : Heap) (described valued : List Item)
  | ended

namespace Deed

/-- The descriptor of the item has been inserted. -/
def Describes (id : Nat) : Deed → Prop
  | added changed _ => changed = id
  | _ => False

/-- A value of the item has been stored. -/
def Stores (id : Nat) : Deed → Prop
  | added changed valued => changed = id ∧ valued = true
  | set changed => changed = id
  | _ => False

/-- The descriptor of the item has been put into a heap. -/
def CarriesDescriptor (id : Nat) : Deed → Prop
  | sent _ described _ => id ∈ described.map fun item => item.descriptor.id
  | _ => False

/-- The value of the item has been put into a heap. -/
def CarriesValue (id : Nat) : Deed → Prop
  | sent _ _ valued => id ∈ valued.map fun item => item.descriptor.id
  | _ => False

/-- The heap of the deed carries what the deed says. -/
def Honest : Deed → Prop
  | sent heap described valued => heap.IsMadeOf described valued
  | _ => True

end Deed

/-- Whether something belongs to a selection, by what has been done. -/
def Selection.Takes (selection : Selection) (renews clears : Deed → Prop) (deeds : List Deed) :
    Prop :=
  match selection with
  | .stale => Outstanding renews clears deeds
  | .all => True
  | .none => False

/-- A group with the generator that makes heaps of it, and what has been done. -/
structure Dispatch where
  group : Group := .empty
  generator : Generator
  deeds : List Deed := []

namespace Dispatch

inductive Call where
  | add (descriptor : Descriptor) (value : Option Value)
  | setValue (id : Nat) (value : Value)
  | remove (id : Nat)
  | heap (descriptors data : Selection)
  | start
  | stop

/-- Make a call. One that fails leaves no deed, whatever else it leaves behind. -/
def call (dispatch : Dispatch) : Call → Dispatch
  | .add descriptor value =>
      match (Group.addInPlace descriptor value).run dispatch.group with
      | .ok _ group =>
          { dispatch with group, deeds := dispatch.deeds ++ [.added descriptor.id value.isSome] }
      | .error _ group => { dispatch with group }
  | .setValue id value =>
      match (Group.setValueInPlace id value).run dispatch.group with
      | .ok _ group => { dispatch with group, deeds := dispatch.deeds ++ [.set id] }
      | .error _ group => { dispatch with group }
  | .remove id => { dispatch with group := dispatch.group.remove id }
  | .heap descriptors data =>
      match (Generator.heapInPlace dispatch.group descriptors data).run dispatch.generator with
      | .ok heap generator =>
          let described := dispatch.generator.described dispatch.group descriptors
          let valued := dispatch.generator.valued dispatch.group data
          { dispatch with generator, deeds := dispatch.deeds ++ [.sent heap described valued] }
      | .error _ generator => { dispatch with generator }
  | .start =>
      match Generator.startInPlace.run dispatch.generator with
      | .ok _ generator => { dispatch with generator }
      | .error _ generator => { dispatch with generator }
  | .stop =>
      match Generator.endInPlace.run dispatch.generator with
      | .ok _ generator => { dispatch with generator, deeds := dispatch.deeds ++ [.ended] }
      | .error _ generator => { dispatch with generator }

/-- Calls one after the other, from a new group and a new generator on. -/
def run (flavour : Flavour) (calls : List Call) : Dispatch :=
  calls.foldl call { generator := { flavour } }

/-! ## What the stamps stand for -/

/-- What the generator takes to be stale has been changed since a heap carried it. -/
structure Tracks (group : Group) (generator : Generator) (deeds : List Deed) : Prop where
  sound : group.Sound
  sent_le : ∀ id,
    (generator.lastSent id).descriptor ≤ group.stamp ∧
      (generator.lastSent id).value ≤ group.stamp
  descriptor : ∀ id item, group.get? id = some item →
    ((generator.lastSent id).descriptor ≠ item.descriptorStamp ↔
      Outstanding (Deed.Describes id) (Deed.CarriesDescriptor id) deeds)
  value : ∀ id item, group.get? id = some item → item.value.isSome →
    ((generator.lastSent id).value ≠ item.valueStamp ↔
      Outstanding (Deed.Stores id) (Deed.CarriesValue id) deeds)

theorem tracks_start (flavour : Flavour) : Tracks .empty { flavour } [] where
  sound := Group.sound_empty
  sent_le := fun _ => ⟨Nat.le_refl 0, Nat.le_refl 0⟩
  descriptor := by simp [Group.empty, Group.get?]
  value := by simp [Group.empty, Group.get?]

section Changes

variable {group : Group} {generator : Generator} {deeds : List Deed}
  (tracks : Tracks group generator deeds)

include tracks

theorem Tracks.insert (descriptor : Descriptor) (value : Option Value) :
    Tracks (group.insert descriptor value) generator
      (deeds ++ [.added descriptor.id value.isSome]) := by
  have order := group.stamp_le_stamp_insert descriptor value
  constructor
  case sound => exact tracks.sound.insert descriptor value
  case sent_le =>
    intro id
    exact ⟨Nat.le_trans (tracks.sent_le id).1 order, Nat.le_trans (tracks.sent_le id).2 order⟩
  case descriptor =>
    intro id item found
    rcases Group.get?_insert_eq_some found with ⟨rfl, rfl⟩ | ⟨different, _, kept⟩
    · -- The new item has a later stamp than any that has been sent.
      have early := (tracks.sent_le descriptor.id).1
      rw [outstanding_append_singleton]
      simp only [Deed.Describes, true_or, iff_true, Group.inserted]
      omega
    · rw [tracks.descriptor id item kept, outstanding_append_of_not]
      · exact Ne.symm different
      · exact not_false
  case value =>
    intro id item found hasValue
    rcases Group.get?_insert_eq_some found with ⟨rfl, rfl⟩ | ⟨different, _, kept⟩
    · have early := (tracks.sent_le descriptor.id).2
      simp only [Group.inserted] at hasValue
      rw [outstanding_append_singleton]
      simp only [Deed.Stores, hasValue, and_self, true_or, iff_true, Group.inserted, if_true]
      omega
    · rw [tracks.value id item kept hasValue, outstanding_append_of_not]
      · exact fun renewed => different renewed.1.symm
      · exact not_false

theorem Tracks.store
    {item : Item} (found : group.get? item.descriptor.id = some item) (value : Value) :
    Tracks (group.store item value) generator (deeds ++ [.set item.descriptor.id]) := by
  constructor
  case sound => exact tracks.sound.store found value
  case sent_le =>
    intro id
    exact ⟨Nat.le_succ_of_le (tracks.sent_le id).1, Nat.le_succ_of_le (tracks.sent_le id).2⟩
  case descriptor =>
    intro id other held
    rw [outstanding_append_of_not not_false not_false]
    rcases Group.get?_store_eq_some held with ⟨rfl, rfl⟩ | ⟨_, kept⟩
    · exact tracks.descriptor _ item found
    · exact tracks.descriptor id other kept
  case value =>
    intro id other held hasValue
    rcases Group.get?_store_eq_some held with ⟨rfl, rfl⟩ | ⟨different, kept⟩
    · have early := (tracks.sent_le item.descriptor.id).2
      rw [outstanding_append_singleton]
      simp only [Deed.Stores, true_or, iff_true, Group.stored]
      omega
    · rw [tracks.value id other kept hasValue, outstanding_append_of_not]
      · exact Ne.symm different
      · exact not_false

theorem Tracks.remove (id : Nat) : Tracks (group.remove id) generator deeds where
  sound := tracks.sound.remove id
  sent_le := by
    rw [show (group.remove id).stamp = group.stamp from group.stamp_forgetName id]
    exact tracks.sent_le
  descriptor := fun other item found =>
    tracks.descriptor other item (Group.get?_remove_eq_some found).2
  value := fun other item found =>
    tracks.value other item (Group.get?_remove_eq_some found).2

end Changes

/-- An item is among those that are selected, as no other item of the group has its id. -/
theorem mem_ids_filter_iff
    {group : Group} (sound : group.Sound) {id : Nat} {item : Item}
    (found : group.get? id = some item) (selected : Item → Bool) :
    (id ∈ (group.toList.filter selected).map fun entry => entry.descriptor.id) ↔
      selected item = true := by
  rw [List.mem_map]
  constructor
  · intro listed
    obtain ⟨other, member, same⟩ := listed
    obtain ⟨ofGroup, chosen⟩ := List.mem_filter.1 member
    have foundOther := (sound.mem_toList_iff other).1 ofGroup
    rw [same, found, Option.some_inj] at foundOther
    rwa [foundOther]
  · intro chosen
    have listed := (sound.mem_toList_iff item).2 (sound.get?_own_id found)
    exact ⟨item, List.mem_filter.2 ⟨listed, chosen⟩, sound.keyed id item found⟩

theorem Tracks.makes
    {group : Group} {generator next : Generator} {deeds : List Deed}
    (tracks : Tracks group generator deeds) {descriptors data : Selection}
    {descriptorCarriers valueCarriers : List HeapItem} {heap : Heap}
    (makes : generator.Makes group descriptors data descriptorCarriers valueCarriers heap next) :
    Tracks group next
      (deeds ++
        [.sent heap (generator.described group descriptors) (generator.valued group data)]) := by
  have sound := tracks.sound
  constructor
  case sound => exact sound
  case sent_le =>
    intro id
    obtain ⟨descriptorSent, valueSent⟩ := tracks.sent_le id
    rw [makes.lastSent sound id]
    cases found : group.get? id with
    | none => exact ⟨descriptorSent, valueSent⟩
    | some item =>
        have stamped := sound.stamped id item found
        dsimp only
        constructor
        · split
          · exact stamped.descriptor_le
          · exact descriptorSent
        · split
          · exact stamped.value_le
          · exact valueSent
  case descriptor =>
    intro id item found
    have carried := mem_ids_filter_iff sound found (generator.selectsDescriptor descriptors)
    rw [makes.lastSent sound id, found, outstanding_append_singleton]
    simp only [Deed.Describes, Deed.CarriesDescriptor, Generator.described, carried, false_or]
    by_cases selected : generator.selectsDescriptor descriptors item = true
    · simp [selected]
    · simpa [selected] using tracks.descriptor id item found
  case value =>
    intro id item found hasValue
    have carried := mem_ids_filter_iff sound found (generator.selectsValue data)
    rw [makes.lastSent sound id, found, outstanding_append_singleton]
    simp only [Deed.Stores, Deed.CarriesValue, Generator.valued, carried, false_or]
    by_cases selected : generator.selectsValue data item = true
    · simp [selected]
    · simpa [selected] using tracks.value id item found hasValue

/-- What does not change the stamps that are remembered keeps them up to date. -/
theorem Tracks.of_lastSent
    {group : Group} {generator next : Generator} {deeds : List Deed}
    (tracks : Tracks group generator deeds)
    (same : ∀ id, next.lastSent id = generator.lastSent id) : Tracks group next deeds where
  sound := tracks.sound
  sent_le := by simpa only [same] using tracks.sent_le
  descriptor := by simpa only [same] using tracks.descriptor
  value := by simpa only [same] using tracks.value

theorem Tracks.ended
    {group : Group} {generator : Generator} {deeds : List Deed}
    (tracks : Tracks group generator deeds) : Tracks group generator (deeds ++ [.ended]) where
  sound := tracks.sound
  sent_le := tracks.sent_le
  descriptor := fun id item found => by
    rw [outstanding_append_of_not not_false not_false]
    exact tracks.descriptor id item found
  value := fun id item found hasValue => by
    rw [outstanding_append_of_not not_false not_false]
    exact tracks.value id item found hasValue

/-! ## Selections -/

section Selections

variable {group : Group} {generator : Generator} {deeds : List Deed}
  (tracks : Tracks group generator deeds)

include tracks

theorem Tracks.mem_described_iff (selection : Selection) (item : Item) :
    item ∈ generator.described group selection ↔
      group.get? item.descriptor.id = some item ∧
        selection.Takes (Deed.Describes item.descriptor.id)
          (Deed.CarriesDescriptor item.descriptor.id) deeds := by
  rw [Generator.described, List.mem_filter, tracks.sound.mem_toList_iff]
  apply and_congr_right
  intro found
  cases selection with
  | stale =>
      rw [Selection.Takes, ← tracks.descriptor _ item found]
      exact decide_eq_true_iff
  | all => exact ⟨fun _ => trivial, fun _ => rfl⟩
  | none => exact ⟨Bool.false_ne_true, False.elim⟩

theorem Tracks.mem_valued_iff (selection : Selection) (item : Item) :
    item ∈ generator.valued group selection ↔
      group.get? item.descriptor.id = some item ∧ item.value.isSome ∧
        selection.Takes (Deed.Stores item.descriptor.id)
          (Deed.CarriesValue item.descriptor.id) deeds := by
  rw [Generator.valued, List.mem_filter, tracks.sound.mem_toList_iff, Generator.selectsValue,
    Bool.and_eq_true]
  apply and_congr_right
  intro found
  apply and_congr_right
  intro hasValue
  cases selection with
  | stale =>
      rw [Selection.Takes, ← tracks.value _ item found hasValue]
      exact decide_eq_true_iff
  | all => exact ⟨fun _ => trivial, fun _ => rfl⟩
  | none => exact ⟨Bool.false_ne_true, False.elim⟩

/-- Whatever is taken from a group is in ascending order of the ids. -/
theorem Tracks.ascending_filter (selected : Item → Bool) :
    (group.toList.filter selected).Pairwise fun earlier later =>
      earlier.descriptor.id < later.descriptor.id := by
  have ids : (group.toList.map fun item => item.descriptor.id).Pairwise (· < ·) := by
    rw [tracks.sound.ids_toList]
    exact tracks.sound.ascending
  exact (List.pairwise_map.1 ids).sublist List.filter_sublist

end Selections

/-! ## Runs -/

/-- What is known of a dispatch after any calls. -/
structure Accounted (dispatch : Dispatch) : Prop where
  tracks : Tracks dispatch.group dispatch.generator dispatch.deeds
  honest : ∀ deed ∈ dispatch.deeds, deed.Honest
  exhausted : .ended ∈ dispatch.deeds → dispatch.generator.exhausted = true

section Runs

variable {dispatch : Dispatch}

/-- A further deed keeps the account if it is tracked, says what is so, and does not revive a
generator whose stream has ended. -/
theorem Accounted.record
    (accounted : dispatch.Accounted) {group : Group} {generator : Generator} {deed : Deed}
    (tracks : Tracks group generator (dispatch.deeds ++ [deed])) (honest : deed.Honest)
    (exhausted : dispatch.generator.exhausted = true ∨ deed = .ended →
      generator.exhausted = true) :
    Accounted { group, generator, deeds := dispatch.deeds ++ [deed] } where
  tracks := tracks
  honest := by
    intro other member
    rcases List.mem_append.1 member with before | now
    · exact accounted.honest other before
    · rwa [List.mem_singleton.1 now]
  exhausted := by
    intro member
    rcases List.mem_append.1 member with before | now
    · exact exhausted (Or.inl (accounted.exhausted before))
    · exact exhausted (Or.inr (List.mem_singleton.1 now).symm)

theorem Accounted.call (accounted : dispatch.Accounted) (call : Call) :
    (dispatch.call call).Accounted := by
  have tracks := accounted.tracks
  cases call with
  | add descriptor value =>
      rw [Dispatch.call]
      cases performed : (Group.addInPlace descriptor value).run dispatch.group with
      | error cause group =>
          rw [Group.addInPlace_eq_error performed]
          exact accounted
      | ok item group =>
          obtain ⟨rfl, rfl⟩ := Group.addInPlace_eq_ok performed
          exact accounted.record (tracks.insert descriptor value) trivial (by simp)
  | setValue id value =>
      rw [Dispatch.call]
      cases performed : (Group.setValueInPlace id value).run dispatch.group with
      | error cause group =>
          rw [Group.setValueInPlace_eq_error performed]
          exact accounted
      | ok _ group =>
          obtain ⟨item, found, rfl⟩ := Group.setValueInPlace_eq_ok performed
          have keyed := tracks.sound.keyed id item found
          subst keyed
          exact accounted.record (tracks.store found value) trivial (by simp)
  | remove id =>
      exact ⟨tracks.remove id, accounted.honest, accounted.exhausted⟩
  | heap descriptors data =>
      rw [Dispatch.call]
      cases performed :
          (Generator.heapInPlace dispatch.group descriptors data).run dispatch.generator with
      | error cause generator =>
          rw [Generator.heapInPlace_eq_error performed]
          exact accounted
      | ok heap generator =>
          obtain ⟨_, _, makes⟩ := Generator.heapInPlace_eq_ok performed
          apply accounted.record (tracks.makes makes) makes.isMadeOf
          rw [makes.next]
          simp
  | start =>
      rw [Dispatch.call]
      cases performed : Generator.startInPlace.run dispatch.generator with
      | error cause generator =>
          rw [Generator.startInPlace_eq_error performed]
          exact accounted
      | ok heap generator =>
          obtain ⟨_, rfl⟩ := Generator.counted_of_startInPlace performed
          exact ⟨tracks.of_lastSent fun _ => rfl, accounted.honest, accounted.exhausted⟩
  | stop =>
      rw [Dispatch.call]
      cases performed : Generator.endInPlace.run dispatch.generator with
      | error cause generator =>
          rw [Generator.endInPlace_eq_error performed]
          exact accounted
      | ok heap generator =>
          obtain ⟨_, rfl⟩ := Generator.counted_of_endInPlace performed
          exact accounted.record (tracks.ended.of_lastSent fun _ => rfl) trivial fun _ => rfl

theorem accounted_run (flavour : Flavour) (calls : List Call) : (run flavour calls).Accounted := by
  induction calls using List.reverseRecOn with
  | nil => exact ⟨tracks_start flavour, by simp [run], by simp [run]⟩
  | append_singleton earlier last inductionHypothesis =>
      rw [run, List.foldl_append]
      exact inductionHypothesis.call last

/-- A heap that is made of a group carries what has changed since it was last carried. -/
structure Faithful (dispatch : Dispatch) : Prop where
  carried : ∀ heap described valued,
    .sent heap described valued ∈ dispatch.deeds → heap.IsMadeOf described valued
  makes : ∀ descriptors data heap next,
    (Generator.heapInPlace dispatch.group descriptors data).run dispatch.generator =
        .ok heap next →
      ∃ described valued,
        dispatch.call (.heap descriptors data) =
            { dispatch with
              generator := next, deeds := dispatch.deeds ++ [.sent heap described valued] } ∧
          heap.IsMadeOf described valued ∧
          (described.Pairwise fun earlier later => earlier.descriptor.id < later.descriptor.id) ∧
          (valued.Pairwise fun earlier later => earlier.descriptor.id < later.descriptor.id) ∧
          (∀ item, item ∈ described ↔
            dispatch.group.get? item.descriptor.id = some item ∧
              descriptors.Takes (Deed.Describes item.descriptor.id)
                (Deed.CarriesDescriptor item.descriptor.id) dispatch.deeds) ∧
          ∀ item, item ∈ valued ↔
            dispatch.group.get? item.descriptor.id = some item ∧ item.value.isSome ∧
              data.Takes (Deed.Stores item.descriptor.id)
                (Deed.CarriesValue item.descriptor.id) dispatch.deeds
  settles : ∀ heap next,
    (Generator.heapInPlace dispatch.group .stale .stale).run dispatch.generator = .ok heap next →
      next.state dispatch.group = .fragmented ∧
        ∃ again later,
          (Generator.heapInPlace dispatch.group .stale .stale).run next = .ok again later ∧
            again.items = []
  heap_fails : ∀ descriptors data cause next,
    (Generator.heapInPlace dispatch.group descriptors data).run dispatch.generator =
        .error cause next →
      next = dispatch.generator
  start_fails : ∀ cause next,
    Generator.startInPlace.run dispatch.generator = .error cause next → next = dispatch.generator
  end_fails : ∀ cause next,
    Generator.endInPlace.run dispatch.generator = .error cause next → next = dispatch.generator
  ended : .ended ∈ dispatch.deeds →
    (∀ descriptors data,
      (Generator.heapInPlace dispatch.group descriptors data).run dispatch.generator =
        .error ItemError.generatorExhausted dispatch.generator) ∧
      Generator.startInPlace.run dispatch.generator =
        .error ItemError.generatorExhausted dispatch.generator ∧
      Generator.endInPlace.run dispatch.generator =
        .error ItemError.generatorExhausted dispatch.generator

theorem sends_what_has_changed (flavour : Flavour) (calls : List Call) :
    (run flavour calls).Faithful := by
  obtain ⟨tracks, honest, exhausted⟩ := accounted_run flavour calls
  constructor
  case carried =>
    intro heap described valued member
    exact honest _ member
  case makes =>
    intro descriptors data heap next made
    obtain ⟨_, _, makes⟩ := Generator.heapInPlace_eq_ok made
    refine ⟨_, _, ?_, makes.isMadeOf, tracks.ascending_filter _, tracks.ascending_filter _,
      tracks.mem_described_iff descriptors, tracks.mem_valued_iff data⟩
    simp only [call, made]
  case settles =>
    intro heap next made
    obtain ⟨_, _, makes⟩ := Generator.heapInPlace_eq_ok made
    refine ⟨makes.fragmented tracks.sound, ?_⟩
    obtain ⟨later, again⟩ := makes.heap_again tracks.sound
    refine ⟨⟨next.nextCount, next.flavour, []⟩, later, ?_, rfl⟩
    rw [Generator.run_heapInPlace, atomically_eq_ok_iff]
    exact again
  case heap_fails => exact fun _ _ _ _ => Generator.heapInPlace_eq_error
  case start_fails => exact fun _ _ => Generator.startInPlace_eq_error
  case end_fails => exact fun _ _ => Generator.endInPlace_eq_error
  case ended =>
    intro ended
    have closed := exhausted ended
    exact ⟨fun _ _ => Generator.run_heapInPlace_of_exhausted closed _ _ _,
      Generator.run_startInPlace_of_exhausted closed, Generator.run_endInPlace_of_exhausted closed⟩

/-- An item that has come back without a value is described again, and nothing is left to do. -/
theorem sends_what_has_changed_coming_back :
    let level : Descriptor := ⟨0x1000, "level", "", [], .records [{ kind := .bool, bits := 1 }]⟩
    let side := run .standard
      [.add level (some (.record [.bool true])), .heap .stale .stale, .remove 0x1000,
        .add level none]
    ∃ heap next,
      (Generator.heapInPlace side.group .stale .stale).run side.generator = .ok heap next ∧
        (heap.items.map fun item => item.id) = [ItemId.descriptor] ∧
          next.state side.group = .fragmented := by
  intro level side
  have ids :
      ((side.generator.heap side.group .stale .stale).map fun entry =>
        entry.1.items.map fun item => item.id) = .ok [ItemId.descriptor] := by
    decide +kernel
  obtain ⟨⟨heap, next⟩, made, listed⟩ := Except.map_eq_ok_iff.1 ids
  have ran : (Generator.heapInPlace side.group .stale .stale).run side.generator =
      .ok heap next := by
    rw [Generator.run_heapInPlace, atomically_eq_ok_iff, made]
  exact ⟨heap, next, ran, listed, ((sends_what_has_changed _ _).settles _ _ ran).1⟩

end Runs

end Dispatch
end Spead
