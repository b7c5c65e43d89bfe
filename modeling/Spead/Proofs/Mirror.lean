import Spead.Proofs.Generator

/-!
Groups that mirror another.

A heap of all that is stale brings the group that it is applied to up to date. What the sender
takes to be known is known there, because no descriptor of a heap has the id or the name of
another item of the sender's group; and a value that was sent earlier is still there, because its
descriptor has not been sent since.
-/

namespace Spead
namespace Group

/-- Every item of a group is held with its descriptor, up to the order of single bytes, and with
its value if it has one. -/
def MirroredBy (group mirror : Group) : Prop :=
  ∀ id item, group.get? id = some item →
    ∃ held, mirror.get? id = some held ∧ held.descriptor = item.descriptor.canonical ∧
      ∀ value, item.value = some value → held.value = some value

/-- All values of a group can be read back. -/
def RoundTrips (group : Group) : Prop :=
  ∀ id item, group.get? id = some item → ∀ value, item.value = some value →
    value.RoundTrips item.descriptor

theorem roundTrips_empty : empty.RoundTrips := by
  simp [RoundTrips, empty, get?]

section RoundTrips

variable {group : Group} (roundTripping : group.RoundTrips)

include roundTripping

theorem RoundTrips.insert
    {descriptor : Descriptor} {value : Option Value}
    (roundTrips : ∀ content, value = some content → content.RoundTrips descriptor) :
    (group.insert descriptor value).RoundTrips := by
  intro id item found
  rcases get?_insert_eq_some found with ⟨_, rfl⟩ | ⟨_, _, kept⟩
  · exact roundTrips
  · exact roundTripping id item kept

theorem RoundTrips.store
    {item : Item} {value : Value} (roundTrips : value.RoundTrips item.descriptor) :
    (group.store item value).RoundTrips := by
  intro id other held content hasValue
  rcases get?_store_eq_some held with ⟨_, rfl⟩ | ⟨_, kept⟩
  · cases hasValue
    exact roundTrips
  · exact roundTripping id other kept content hasValue

theorem RoundTrips.remove (id : Nat) : (group.remove id).RoundTrips :=
  fun other item found => roundTripping other item (get?_remove_eq_some found).2

end RoundTrips

/-- A group of a sender: its descriptors have been checked, and its values can be read back. -/
structure Sendable (group : Group) : Prop where
  sound : group.Sound
  checked : ∀ id item, group.get? id = some item → item.descriptor.check = .ok ()
  roundTrips : ∀ id item, group.get? id = some item → ∀ value, item.value = some value →
    value.RoundTrips item.descriptor

theorem sendable_empty : empty.Sendable where
  sound := sound_empty
  checked := by simp [empty, get?]
  roundTrips := roundTrips_empty

theorem Sendable.insert
    {group : Group} (sendable : group.Sendable) {descriptor : Descriptor} {value : Option Value}
    (checked : descriptor.check = .ok ())
    (roundTrips : ∀ content, value = some content → content.RoundTrips descriptor) :
    (group.insert descriptor value).Sendable := by
  constructor
  case sound => exact sendable.sound.insert descriptor value
  case checked =>
    intro id item found
    rcases get?_insert_eq_some found with ⟨_, rfl⟩ | ⟨_, _, kept⟩
    · exact checked
    · exact sendable.checked id item kept
  case roundTrips => exact RoundTrips.insert sendable.roundTrips roundTrips

theorem Sendable.store
    {group : Group} (sendable : group.Sendable) {item : Item}
    (found : group.get? item.descriptor.id = some item) {value : Value}
    (roundTrips : value.RoundTrips item.descriptor) :
    (group.store item value).Sendable := by
  constructor
  case sound => exact sendable.sound.store found value
  case checked =>
    intro id other held
    rcases get?_store_eq_some held with ⟨_, rfl⟩ | ⟨_, kept⟩
    · exact sendable.checked _ item found
    · exact sendable.checked id other kept
  case roundTrips => exact RoundTrips.store sendable.roundTrips roundTrips

theorem Sendable.remove {group : Group} (sendable : group.Sendable) (id : Nat) :
    (group.remove id).Sendable where
  sound := sendable.sound.remove id
  checked := fun other item found => sendable.checked other item (get?_remove_eq_some found).2
  roundTrips := RoundTrips.remove sendable.roundTrips id

theorem Sendable.checked_of_mem
    {group : Group} (sendable : group.Sendable) :
    ∀ item ∈ group.toList, item.descriptor.check = .ok () := by
  intro item member
  exact sendable.checked _ item ((sendable.sound.mem_toList_iff item).1 member)

theorem Sendable.roundTrips_of_mem
    {group : Group} (sendable : group.Sendable) :
    ∀ item ∈ group.toList, ∀ value, item.value = some value →
      value.RoundTrips item.descriptor := by
  intro item member
  exact sendable.roundTrips _ item ((sendable.sound.mem_toList_iff item).1 member)

/-- Different items of a group do not get into each other's way. -/
theorem Sound.apart
    {group : Group} (sound : group.Sound) {id other : Nat} {item otherItem : Item}
    (found : group.get? id = some item) (foundOther : group.get? other = some otherItem)
    (different : id ≠ other) :
    item.descriptor.Apart otherItem.descriptor := by
  constructor
  · rw [sound.keyed id item found, sound.keyed other otherItem foundOther]
    exact different
  · intro same
    exact different (sound.id_eq_of_name found foundOther same)

theorem Sound.pairwise_apart {group : Group} (sound : group.Sound) :
    group.toList.Pairwise fun item other => item.descriptor.Apart other.descriptor := by
  have distinct := List.pairwise_map.1 sound.nodup_ids
  apply distinct.imp_of_mem
  intro item other member otherMember different
  have found := (sound.mem_toList_iff item).1 member
  have foundOther := (sound.mem_toList_iff other).1 otherMember
  exact sound.apart found foundOther different

/-- Once the descriptors of a heap are applied, the selected ones are known beside those that were
known before, and items that were known are left alone. -/
theorem described_canonical
    {group mirror : Group} (sound : group.Sound) (mirrorSound : mirror.Sound)
    (generator : Generator) (selection : Selection) (report : UpdateReport) :
    let after :=
      ((generator.described group selection).map fun item =>
        (.ok item.descriptor.canonical : Except Error Descriptor)).foldl
          applyDescriptor (mirror, report)
    after.1.Sound ∧ after.2.errors = report.errors ∧
      (∀ id item, group.get? id = some item →
        generator.selectsDescriptor selection item = true ∨
          mirror.descriptor? id = some item.descriptor.canonical →
        after.1.descriptor? id = some item.descriptor.canonical) ∧
      ∀ id item held, group.get? id = some item → mirror.get? id = some held →
        held.descriptor = item.descriptor.canonical → after.1.get? id = some held := by
  have apart :
      ((generator.described group selection).map fun item => item.descriptor.canonical).Pairwise
        Descriptor.Apart := by
    rw [List.pairwise_map]
    exact sound.pairwise_apart.sublist List.filter_sublist
  have started : ((mirror, report) : Group × UpdateReport).1.Sound := mirrorSound
  have applied := described_foldl started apart
  rw [List.map_map] at applied
  intro after
  have kept {id : Nat} {item held : Item} (found : group.get? id = some item)
      (holds : mirror.get? id = some held)
      (same : held.descriptor = item.descriptor.canonical) :
      after.1.get? id = some held := by
    apply applied.kept id held holds
    intro descriptor member
    obtain ⟨other, isDescribed, rfl⟩ := List.mem_map.1 member
    have foundOther := (sound.mem_toList_iff other).1 (List.mem_filter.1 isDescribed).1
    rw [same]
    -- What is sent describes this item again, or another item of the group.
    by_cases sameId : other.descriptor.id = id
    · rw [sameId, found, Option.some_inj] at foundOther
      exact Or.inl (by rw [foundOther])
    · exact Or.inr (sound.apart foundOther found sameId)
  refine ⟨applied.sound, applied.errors, ?_, fun id item held found holds same =>
    kept found holds same⟩
  intro id item found known
  rcases known with selected | known
  · have keyed := sound.keyed id item found
    have listed := (sound.mem_toList_iff item).2 (sound.get?_own_id found)
    have described := applied.known item.descriptor.canonical
      (List.mem_map_of_mem (List.mem_filter.2 ⟨listed, selected⟩))
    rw [← keyed]
    exact described
  · obtain ⟨held, holds, sameDescriptor⟩ := Option.map_eq_some_iff.1 known
    rw [descriptor?, kept found holds sameDescriptor, ← sameDescriptor]
    rfl

end Group

/-! ## What a generator takes to be known -/

/-- All that was stamped up to `latest` has been sent, and is known to the mirror. -/
structure Synced (latest : Nat) (group : Group) (generator : Generator) (mirror : Group) :
    Prop where
  latest_le : latest ≤ group.stamp
  sent_le : ∀ id,
    (generator.lastSent id).descriptor ≤ latest ∧ (generator.lastSent id).value ≤ latest
  described : ∀ id item, group.get? id = some item → item.descriptorStamp ≤ latest →
    (generator.lastSent id).descriptor = item.descriptorStamp ∧
      mirror.descriptor? id = some item.descriptor.canonical
  valued : ∀ id item value, group.get? id = some item → item.value = some value →
    item.valueStamp ≤ latest →
    (generator.lastSent id).value = item.valueStamp ∧
      ∃ held, mirror.get? id = some held ∧ held.value = some value

theorem synced_empty (flavour : Flavour) : Synced 0 .empty { flavour } .empty where
  latest_le := Nat.le_refl 0
  sent_le := fun _ => ⟨Nat.le_refl 0, Nat.le_refl 0⟩
  described := by simp [Group.empty, Group.get?]
  valued := by simp [Group.empty, Group.get?]

section Synced

variable {latest : Nat} {group : Group} {generator : Generator} {mirror : Group}

/-- Changes get later stamps, so that nothing is taken to be known because of them. -/
theorem Synced.of_later
    (synced : Synced latest group generator mirror) {next : Group} (sound : next.Sound)
    (later : group.Later next) :
    Synced latest next generator mirror := by
  have order := synced.latest_le
  constructor
  case latest_le => exact Nat.le_trans order later.stamp_le
  case sent_le => exact synced.sent_le
  case described =>
    intro id item found early
    obtain ⟨old, foundOld, descriptor, stamped, _⟩ :=
      later.unchanged id item found (Nat.le_trans early order)
    rw [← descriptor, ← stamped]
    exact synced.described id old foundOld (stamped ▸ early)
  case valued =>
    intro id item value found hasValue early
    have stamps := (sound.stamped id item found).descriptor_lt_value value hasValue
    obtain ⟨old, foundOld, _, _, same⟩ := later.unchanged id item found (by omega)
    have whole := same (Nat.le_trans early order)
    subst whole
    exact synced.valued id old value foundOld hasValue early

theorem Synced.insert
    (synced : Synced latest group generator mirror) (sound : group.Sound)
    (descriptor : Descriptor) (value : Option Value) :
    Synced latest (group.insert descriptor value) generator mirror :=
  synced.of_later (sound.insert descriptor value) (Group.later_insert group descriptor value)

theorem Synced.store
    (synced : Synced latest group generator mirror) (sound : group.Sound) {item : Item}
    (found : group.get? item.descriptor.id = some item) (value : Value) :
    Synced latest (group.store item value) generator mirror :=
  synced.of_later (sound.store found value) (Group.later_store found value)

theorem Synced.remove
    (synced : Synced latest group generator mirror) (sound : group.Sound) (id : Nat) :
    Synced latest (group.remove id) generator mirror :=
  synced.of_later (sound.remove id) (Group.later_remove group id)

/-! ## Heaps of all that is stale -/

/-- Descriptors are stale if they have been stamped since. -/
theorem Synced.selectsDescriptor_iff
    (synced : Synced latest group generator mirror) {item : Item}
    (found : group.get? item.descriptor.id = some item) :
    generator.selectsDescriptor .stale item = true ↔ latest < item.descriptorStamp := by
  have sent := (synced.sent_le item.descriptor.id).1
  unfold Generator.selectsDescriptor Selection.includes
  rw [decide_eq_true_eq]
  constructor
  · intro stale
    by_contra early
    exact stale (synced.described _ item found (Nat.le_of_not_lt early)).1
  · intro late same
    omega

theorem Synced.selectsValue_iff
    (synced : Synced latest group generator mirror) {item : Item}
    (found : group.get? item.descriptor.id = some item) {value : Value}
    (hasValue : item.value = some value) :
    generator.selectsValue .stale item = true ↔ latest < item.valueStamp := by
  have sent := (synced.sent_le item.descriptor.id).2
  unfold Generator.selectsValue Selection.includes
  rw [hasValue, Option.isSome_some, Bool.true_and, decide_eq_true_eq]
  constructor
  · intro stale
    by_contra early
    exact stale (synced.valued _ item value found hasValue (Nat.le_of_not_lt early)).1
  · intro late same
    omega

/-- Once the descriptors of a heap are applied, all items of the group are known, and those with
an early value still hold it. -/
theorem Synced.described_foldl
    (synced : Synced latest group generator mirror) (sound : group.Sound)
    (mirrorSound : mirror.Sound) (report : UpdateReport) :
    let after :=
      ((generator.described group .stale).map fun item =>
        (.ok item.descriptor.canonical : Except Error Descriptor)).foldl
          Group.applyDescriptor (mirror, report)
    after.1.Sound ∧ after.2.errors = report.errors ∧
      (∀ id item, group.get? id = some item →
        after.1.descriptor? id = some item.descriptor.canonical) ∧
      ∀ id item value, group.get? id = some item → item.value = some value →
        item.valueStamp ≤ latest →
        ∃ held, after.1.get? id = some held ∧ held.value = some value := by
  obtain ⟨afterSound, errors, known, kept⟩ :=
    Group.described_canonical sound mirrorSound generator .stale report
  intro after
  refine ⟨afterSound, errors, ?_, ?_⟩
  · intro id item found
    apply known id item found
    by_cases early : item.descriptorStamp ≤ latest
    · exact Or.inr (synced.described id item found early).2
    · exact Or.inl ((synced.selectsDescriptor_iff (sound.get?_own_id found)).2
        (Nat.lt_of_not_le early))
  · intro id item value found hasValue early
    have order := (sound.stamped id item found).descriptor_lt_value value hasValue
    have described := (synced.described id item found (by omega)).2
    obtain ⟨_, held, holds, sameValue⟩ := synced.valued id item value found hasValue early
    rw [Group.descriptor?, holds, Option.map_some, Option.some_inj] at described
    exact ⟨held, kept id item held found holds described, sameValue⟩

/-- A heap of all that is stale brings the mirror up to date. -/
theorem Synced.update
    (synced : Synced latest group generator mirror) (sendable : group.Sendable)
    (mirrorSound : mirror.Sound) {descriptorCarriers valueCarriers : List HeapItem} {heap : Heap}
    {next : Generator}
    (makes : generator.Makes group .stale .stale descriptorCarriers valueCarriers heap next)
    (count : Nat) :
    let applied := mirror.update ⟨count, generator.flavour, heap.receivedItems⟩
    applied.1.Sound ∧ applied.2.errors = [] ∧ Synced group.stamp group next applied.1 := by
  have sound := sendable.sound
  have checked := sendable.checked_of_mem
  obtain ⟨midSound, midErrors, known, valuesKept⟩ :=
    synced.described_foldl sound mirrorSound {}
  rw [← makes.descriptors_received checked count] at midSound midErrors known valuesKept
  have received := makes.values_received checked sendable.roundTrips_of_mem (by
    intro item member
    exact known _ item ((sound.mem_toList_iff item).1 (List.mem_filter.1 member).1))
  have valued :=
    Group.valued_foldl midSound received
      (Generator.nodup_ids_withValues sound generator .stale)
  intro applied
  refine ⟨valued.sound, valued.errors.trans midErrors, ?_⟩
  constructor
  case latest_le => exact Nat.le_refl _
  case sent_le =>
    intro id
    obtain ⟨descriptorSent, valueSent⟩ := synced.sent_le id
    have := synced.latest_le
    rw [makes.lastSent sound id]
    cases found : group.get? id with
    | none =>
        dsimp only
        omega
    | some item =>
        have stamped := sound.stamped id item found
        have := stamped.descriptor_le
        have := stamped.value_le
        dsimp only
        constructor
        · split <;> omega
        · split <;> omega
  case described =>
    intro id item found _
    have foundSelf := sound.get?_own_id found
    rw [makes.lastSent sound id, found]
    refine ⟨?_, (valued.descriptors id).trans (known id item found)⟩
    by_cases selected : generator.selectsDescriptor .stale item = true
    · simp only [if_pos selected]
    · have early : item.descriptorStamp ≤ latest := by
        rw [synced.selectsDescriptor_iff foundSelf] at selected
        omega
      simp only [if_neg selected]
      exact (synced.described id item found early).1
  case valued =>
    intro id item value found hasValue _
    have keyed := sound.keyed id item found
    have foundSelf := sound.get?_own_id found
    have listed := (sound.mem_toList_iff item).2 foundSelf
    rw [makes.lastSent sound id, found]
    by_cases selected : generator.selectsValue .stale item = true
    · refine ⟨by simp only [if_pos selected], ?_⟩
      have ofEntries :
          (item, value) ∈ Generator.withValues (generator.valued group .stale) := by
        apply List.mem_filterMap.2
        exact ⟨item, List.mem_filter.2 ⟨listed, selected⟩, by rw [hasValue]; rfl⟩
      have set := valued.set _ (List.mem_map_of_mem ofEntries)
      rwa [keyed] at set
    · have early : item.valueStamp ≤ latest := by
        rw [synced.selectsValue_iff foundSelf hasValue] at selected
        omega
      -- The value was sent before, and its descriptor is older still: neither comes again.
      refine ⟨?_, ?_⟩
      · simp only [if_neg selected]
        exact (synced.valued id item value found hasValue early).1
      · have absent :
            id ∉ ((Generator.withValues (generator.valued group .stale)).map fun entry =>
              (entry.1.descriptor.id, entry.2)).map Prod.fst := by
          intro member
          rw [List.map_map] at member
          obtain ⟨entry, ofEntries, same⟩ := List.mem_map.1 member
          obtain ⟨ofValued, _⟩ := Generator.mem_of_mem_withValues ofEntries
          obtain ⟨entryListed, entrySelected⟩ := List.mem_filter.1 ofValued
          have entryFound := (sound.mem_toList_iff entry.1).1 entryListed
          have sameId : entry.1.descriptor.id = id := same
          rw [sameId, found, Option.some_inj] at entryFound
          rw [← entryFound] at entrySelected
          exact selected entrySelected
        have kept := valued.kept id absent
        obtain ⟨held, holds, sameValue⟩ := valuesKept id item value found hasValue early
        exact ⟨held, kept.trans holds, sameValue⟩

/-- Once all stamps have been sent the mirror is up to date. -/
theorem Synced.mirroredBy
    (synced : Synced group.stamp group generator mirror) (sound : group.Sound) :
    group.MirroredBy mirror := by
  intro id item found
  have stamped := sound.stamped id item found
  have known := (synced.described id item found stamped.descriptor_le).2
  obtain ⟨held, holds, sameDescriptor⟩ := Option.map_eq_some_iff.1 known
  refine ⟨held, holds, sameDescriptor, ?_⟩
  intro value hasValue
  obtain ⟨_, other, holdsOther, sameValue⟩ :=
    synced.valued id item value found hasValue stamped.value_le
  rw [holds, Option.some_inj] at holdsOther
  rwa [holdsOther]

end Synced

end Spead
