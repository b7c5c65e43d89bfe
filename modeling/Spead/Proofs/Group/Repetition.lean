import Spead.Proofs.Relay

/-!
Heaps that are applied twice.

What a heap leaves behind is decided by the heap and by the items that nothing in it has to do with:
the descriptors that prevail in it, and for each of them the last value that is read. A second time
it finds all of this as it has left it.
-/

namespace Spead
namespace Group

/-! ## What a heap leaves behind -/

def valueItems (heap : ReceivedHeap) : List ReceivedItem :=
  heap.items.filter fun item => ItemId.firstUser ≤ item.id

section Update

variable {group : Group} (sound : group.Sound) (heap : ReceivedHeap)

include sound

theorem Sound.filled_update :
    Filled (heap.descriptors.foldl applyDescriptor (group, {})) (group.update heap)
      (valueItems heap) := by
  apply filled_foldl
  rw [fst_foldl_applyDescriptor]
  exact sound.foldl_describe _

theorem Sound.holds_update {descriptor : Descriptor} :
    (group.update heap).1.Holds descriptor ↔
      ((readable heap.descriptors).foldl Group.describe group).Holds descriptor := by
  rw [Holds, (sound.filled_update heap).descriptors, fst_foldl_applyDescriptor, Holds]

/-- The descriptors that prevail in the heap, beside those that nothing in it has to do with. -/
theorem Sound.holds_update_iff {descriptor : Descriptor} :
    (group.update heap).1.Holds descriptor ↔
      descriptor.PrevailsIn (readable heap.descriptors) ∨
        (group.Holds descriptor ∧
          ∀ other ∈ readable heap.descriptors, other.Apart descriptor) := by
  rw [sound.holds_update, sound.holds_foldl_describe_iff]

theorem Sound.value?_update
    {descriptor : Descriptor} (holds : (group.update heap).1.Holds descriptor) :
    (group.update heap).1.value? descriptor.id =
      (lastReading? descriptor (valueItems heap)).or
        (((readable heap.descriptors).foldl Group.describe group).value? descriptor.id) := by
  have filled := sound.filled_update heap
  rw [Holds, filled.descriptors] at holds
  rw [filled.values descriptor holds, fst_foldl_applyDescriptor]

theorem Sound.value?_update_of_undisturbed
    {descriptor : Descriptor} (holds : group.Holds descriptor)
    (undisturbed : descriptor.UndisturbedBy (readable heap.descriptors)) :
    (group.update heap).1.value? descriptor.id =
      (lastReading? descriptor (valueItems heap)).or (group.value? descriptor.id) := by
  obtain ⟨item, found, rfl⟩ := holds_iff.1 holds
  have kept := sound.get?_foldl_describe found undisturbed
  have holdsAfter : (group.update heap).1.Holds item.descriptor := by
    rw [sound.holds_update]
    exact holds_iff.2 ⟨item, kept, rfl⟩
  rw [sound.value?_update heap holdsAfter, value?, kept, value?, found]

/-- The value of an item that the heap has got into the way of comes from the heap. -/
theorem Sound.value?_update_of_disturbed
    {descriptor : Descriptor} (holds : (group.update heap).1.Holds descriptor)
    (disturbed : ¬ descriptor.UndisturbedBy (readable heap.descriptors)) :
    (group.update heap).1.value? descriptor.id =
      lastReading? descriptor (valueItems heap) := by
  have unset :
      ((readable heap.descriptors).foldl Group.describe group).value? descriptor.id = none := by
    obtain ⟨item, found, rfl⟩ := holds_iff.1 ((sound.holds_update heap).1 holds)
    rw [value?, found]
    rcases sound.get?_foldl_describe_eq_some found with ⟨_, undisturbed⟩ | unset
    · exact absurd undisturbed disturbed
    · exact unset
  rw [sound.value?_update heap holds, unset, Option.or_none]

end Update

/-! ## Groups with the same contents -/

/-- The ids with the descriptors and the values, without their stamps. -/
def contents (group : Group) : List (Nat × Descriptor × Option Value) :=
  group.items.entries.map fun entry => (entry.1, entry.2.descriptor, entry.2.value)

theorem Sound.mem_descriptors_iff {group : Group} (sound : group.Sound) {descriptor : Descriptor} :
    descriptor ∈ group.toList.map Item.descriptor ↔ group.Holds descriptor := by
  rw [holds_iff, List.mem_map]
  constructor
  · intro listed
    obtain ⟨item, member, rfl⟩ := listed
    exact ⟨item, (sound.mem_toList_iff item).1 member, rfl⟩
  · intro held
    obtain ⟨item, found, rfl⟩ := held
    exact ⟨item, (sound.mem_toList_iff item).2 found, rfl⟩

theorem contents_eq
    {left right : Group} (leftSound : left.Sound) (rightSound : right.Sound)
    (holds : ∀ descriptor, left.Holds descriptor ↔ right.Holds descriptor)
    (values : ∀ descriptor, left.Holds descriptor →
      left.value? descriptor.id = right.value? descriptor.id) :
    left.contents = right.contents := by
  apply Table.map_entries_eq_of_get? (fun item => (item.descriptor, item.value))
    leftSound.ascending rightSound.ascending
  intro id
  cases found : left.items.get? id with
  | some item =>
      have held := leftSound.holds_own found
      have keyed := leftSound.keyed id item found
      obtain ⟨other, foundOther, same⟩ := holds_iff.1 ((holds _).1 held)
      have value := values _ held
      rw [value?, value?, foundOther, keyed, get?, found] at value
      rw [keyed, get?] at foundOther
      rw [foundOther]
      exact congrArg some (Prod.ext same.symm value)
  | none =>
      cases foundOther : right.items.get? id with
      | none => rfl
      | some other =>
          have held := (holds _).2 (rightSound.holds_own foundOther)
          obtain ⟨item, foundItem, _⟩ := holds_iff.1 held
          rw [rightSound.keyed id other foundOther, get?, found] at foundItem
          cases foundItem

/-- After a heap a group has the descriptors of the heap that no later one of it gets into the way
of, and of its own those that none of the heap gets into the way of. Applied again, the heap changes
neither ids nor descriptors nor values. -/
theorem Reached.update_update {group : Group} (reached : group.Reached) (heap : ReceivedHeap) :
    (∀ descriptor,
      descriptor ∈ (group.update heap).1.toList.map Item.descriptor ↔
        descriptor.PrevailsIn (readable heap.descriptors) ∨
          (descriptor ∈ group.toList.map Item.descriptor ∧
            ∀ other ∈ readable heap.descriptors, other.Apart descriptor)) ∧
      ((group.update heap).1.update heap).1.contents = (group.update heap).1.contents := by
  have sound := reached.sound
  have once := sound.update heap
  constructor
  · intro descriptor
    rw [once.mem_descriptors_iff, sound.mem_descriptors_iff, sound.holds_update_iff]
  · have holds (descriptor : Descriptor) :
        ((group.update heap).1.update heap).1.Holds descriptor ↔
          (group.update heap).1.Holds descriptor := by
      rw [once.holds_update_iff, sound.holds_update_iff]
      tauto
    apply contents_eq (once.update heap) once holds
    intro descriptor holdsTwice
    have holdsOnce := (holds descriptor).1 holdsTwice
    by_cases undisturbed : descriptor.UndisturbedBy (readable heap.descriptors)
    · rw [once.value?_update_of_undisturbed heap holdsOnce undisturbed,
        sound.value?_update heap holdsOnce, ← Option.or_assoc, Option.or_self]
    · rw [once.value?_update_of_disturbed heap holdsTwice undisturbed,
        sound.value?_update_of_disturbed heap holdsOnce undisturbed]

/-- Two descriptors with the same name, something that is none, and values for the item that gets
the name, for the one that loses it, and again for the first: one is too short, one can be read. -/
def rivals : ReceivedHeap :=
  let written (id : Nat) : Bytes :=
    (Descriptor.serialize .standard
      ⟨id, "mark", "", [], .records [{ kind := .int, bits := 8 }]⟩).toOption.getD []
  ⟨2, .standard,
    [⟨ItemId.descriptor, false, written 0x1000⟩, ⟨ItemId.descriptor, false, written 0x1001⟩,
      ⟨ItemId.descriptor, false, []⟩, ⟨0x1001, true, [0, 0, 0, 0, 1]⟩,
      ⟨0x1000, true, [0, 0, 0, 0, 2]⟩, ⟨0x1001, false, []⟩, ⟨0x1001, true, [0, 0, 0, 0, 3]⟩]⟩

theorem parse_written
    {descriptor : Descriptor} (checked : descriptor.check = .ok ())
    (written : (Descriptor.serialize .standard descriptor).toOption.isSome) :
    Descriptor.parse Flavour.standard.compat
        ((Descriptor.serialize .standard descriptor).toOption.getD []) =
      .ok descriptor.canonical := by
  cases made : Descriptor.serialize .standard descriptor with
  | error _ => simp [made, Except.toOption] at written
  | ok bytes => exact Descriptor.parse_serialize checked made

theorem descriptors_rivals :
    rivals.descriptors =
      [.ok ⟨0x1000, "mark", "", [], .records [{ kind := .int, bits := 8 }]⟩,
        .ok ⟨0x1001, "mark", "", [], .records [{ kind := .int, bits := 8 }]⟩,
        .error (.packet (.tooShort 8 0))] := by
  have first := @parse_written ⟨0x1000, "mark", "", [], .records [{ kind := .int, bits := 8 }]⟩
    (by decide +kernel) (by decide +kernel)
  have second := @parse_written ⟨0x1001, "mark", "", [], .records [{ kind := .int, bits := 8 }]⟩
    (by decide +kernel) (by decide +kernel)
  have third : Descriptor.parse Flavour.standard.compat [] = .error (.packet (.tooShort 8 0)) := by
    decide +kernel
  unfold ReceivedHeap.descriptors rivals
  simp only [ItemId.descriptor, List.filter, decide_true, List.map_cons, first, second, third]
  rfl

/-- The name goes back and forth once more, and comes to the same item. -/
theorem Reached.update_update_rivals :
    (((toldChar 0x61).update rivals).1.update rivals).1.contents =
      [(0x1001, ⟨0x1001, "mark", "", [], .records [{ kind := .int, bits := 8 }]⟩,
        some ⟨[], .records [[.int 3]]⟩)] := by
  rw [((reached_toldChar 0x61).update_update rivals).2, Group.update, descriptors_rivals]
  decide +kernel

end Group
end Spead
