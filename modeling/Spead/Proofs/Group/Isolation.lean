import Spead.Proofs.Group.Repetition

/-!
Heaps with items that cannot be applied.

An item fails as a descriptor that cannot be read, or as a value that has nowhere to go once all
descriptors have been applied. It leaves an error behind and nothing else: the heap without the
failing items has the same effect on the group.
-/

namespace Spead

/-! ## Steps that are passed over -/

/-- A fold need not see the elements that have no effect on what is looked at. -/
theorem foldl_filter_of_step
    {state element : Type} (steady : state → Prop) {step : state → element → state}
    {keeps : element → Bool} {look : state → state}
    (each : ∀ now next, steady now → steady (step now next) ∧
      look (step now next) = if keeps next then step (look now) next else look now)
    {now : state} (start : steady now) (elements : List element) :
    (elements.filter keeps).foldl step (look now) = look (elements.foldl step now) := by
  induction elements generalizing now with
  | nil => rfl
  | cons next rest inductionHypothesis =>
      obtain ⟨steadyThen, same⟩ := each now next start
      rw [List.foldl_cons, ← inductionHypothesis steadyThen, same, List.filter_cons]
      by_cases kept : keeps next
      · rw [if_pos kept, if_pos kept, List.foldl_cons]
      · rw [if_neg kept, if_neg kept]

namespace Group

def unreported (progress : Group × UpdateReport) : Group × UpdateReport :=
  (progress.1, { progress.2 with errors := [] })

theorem unreported_applyDescriptor
    (progress : Group × UpdateReport) (parsed : Except Error Descriptor) :
    unreported (applyDescriptor progress parsed) =
      if (failure? parsed).isNone then applyDescriptor (unreported progress) parsed
      else unreported progress := by
  rcases progress with ⟨group, report⟩
  cases parsed with
  | error cause => rfl
  | ok descriptor =>
      rw [if_pos (by rfl), unreported, unreported, applyDescriptor_ok, applyDescriptor_ok]
      split
      · rfl
      · rfl

theorem unreported_applyValue (progress : Group × UpdateReport) (arrived : ReceivedItem) :
    unreported (applyValue progress arrived) =
      if (progress.1.valueFault? arrived).isNone then applyValue (unreported progress) arrived
      else unreported progress := by
  rcases progress with ⟨group, report⟩
  rcases applyValue_cases group report arrived with
    ⟨cause, fault, applied⟩ | ⟨faultless, item, value, found, read, applied⟩
  · rw [applied, fault]
    rfl
  · rw [applied, faultless, if_pos Option.isNone_none]
    simp [unreported, applyValue, found, read, UpdateReport.addValue]

/-! ## Failing items -/

def afterDescriptors (group : Group) (heap : ReceivedHeap) : Group :=
  (heap.descriptors.foldl applyDescriptor (group, {})).1

def fault? (group : Group) (heap : ReceivedHeap) (received : ReceivedItem) : Option Error :=
  if received.id = ItemId.descriptor then
    failure? (Descriptor.parse heap.flavour.compat received.data)
  else if ItemId.firstUser ≤ received.id then
    (group.afterDescriptors heap).valueFault? received
  else
    none

def faultless (group : Group) (heap : ReceivedHeap) : ReceivedHeap :=
  { heap with items := heap.items.filter fun received => (group.fault? heap received).isNone }

def descriptorItems (heap : ReceivedHeap) : List ReceivedItem :=
  heap.items.filter fun item => item.id = ItemId.descriptor

section Faults

variable (group : Group) (heap : ReceivedHeap)

theorem fault?_of_descriptorItem
    {received : ReceivedItem} (carries : received.id = ItemId.descriptor) :
    group.fault? heap received = failure? (Descriptor.parse heap.flavour.compat received.data) :=
  if_pos carries

theorem fault?_of_valueItem {received : ReceivedItem} (carries : ItemId.firstUser ≤ received.id) :
    group.fault? heap received = (group.afterDescriptors heap).valueFault? received := by
  have other : received.id ≠ ItemId.descriptor := by
    intro same
    rw [same] at carries
    exact absurd carries (by decide)
  rw [fault?, if_neg other, if_pos carries]

theorem descriptors_faultless :
    (group.faultless heap).descriptors =
      heap.descriptors.filter fun parsed => (failure? parsed).isNone := by
  unfold ReceivedHeap.descriptors faultless
  dsimp only
  rw [List.filter_map, List.filter_filter, List.filter_filter]
  congr 1
  apply List.filter_congr
  intro received _
  by_cases carries : received.id = ItemId.descriptor
  · rw [fault?_of_descriptorItem group heap carries, Bool.and_comm]
    rfl
  · simp [carries]

theorem valueItems_faultless :
    valueItems (group.faultless heap) =
      (valueItems heap).filter fun received =>
        ((group.afterDescriptors heap).valueFault? received).isNone := by
  unfold valueItems faultless
  rw [List.filter_filter, List.filter_filter]
  apply List.filter_congr
  intro received _
  by_cases carries : ItemId.firstUser ≤ received.id
  · rw [fault?_of_valueItem group heap carries, Bool.and_comm]
  · simp [carries]

theorem filterMap_fault?_descriptorItems :
    (descriptorItems heap).filterMap (group.fault? heap) = heap.descriptors.filterMap failure? := by
  unfold ReceivedHeap.descriptors descriptorItems
  rw [List.filterMap_map]
  apply List.filterMap_congr
  intro received member
  exact fault?_of_descriptorItem group heap (by simpa using (List.mem_filter.1 member).2)

theorem fault?_of_mem_valueItems {received : ReceivedItem} (member : received ∈ valueItems heap) :
    group.fault? heap received = (group.afterDescriptors heap).valueFault? received :=
  fault?_of_valueItem group heap (by simpa using (List.mem_filter.1 member).2)

end Faults

/-! ## Whole heaps -/

section Update

variable {group : Group} (sound : group.Sound) (heap : ReceivedHeap)

include sound

theorem Sound.afterDescriptors : (group.afterDescriptors heap).Sound := by
  rw [Group.afterDescriptors, fst_foldl_applyDescriptor]
  exact sound.foldl_describe _

/-- Whether a value fails is settled when the last descriptor has been applied. -/
theorem Sound.update_faultless :
    group.update (group.faultless heap) = unreported (group.update heap) := by
  have descriptorPhase :
      (group.faultless heap).descriptors.foldl applyDescriptor (unreported (group, {})) =
        unreported (heap.descriptors.foldl applyDescriptor (group, {})) := by
    rw [descriptors_faultless]
    apply foldl_filter_of_step fun _ => True
    · exact fun now parsed _ => ⟨trivial, unreported_applyDescriptor now parsed⟩
    · trivial
  have valuePhase (progress : Group × UpdateReport)
      (same : progress.1 = group.afterDescriptors heap) :
      (valueItems (group.faultless heap)).foldl applyValue (unreported progress) =
        unreported ((valueItems heap).foldl applyValue progress) := by
    rw [valueItems_faultless]
    apply foldl_filter_of_step fun now => now.1.Sound ∧
      ∀ id, now.1.descriptor? id = (group.afterDescriptors heap).descriptor? id
    · intro now arrived steady
      have step := filled_applyValue steady.1 arrived
      refine ⟨⟨step.sound, fun id => (step.descriptors id).trans (steady.2 id)⟩, ?_⟩
      rw [unreported_applyValue, valueFault?_congr steady.2]
    · rw [same]
      exact ⟨sound.afterDescriptors heap, fun _ => rfl⟩
  calc
    group.update (group.faultless heap) =
        (valueItems (group.faultless heap)).foldl applyValue
          ((group.faultless heap).descriptors.foldl applyDescriptor (unreported (group, {}))) := rfl
    _ = unreported (group.update heap) := by
        rw [descriptorPhase, valuePhase _ rfl]
        rfl

theorem Sound.errors_update :
    (group.update heap).2.errors =
      (descriptorItems heap).filterMap (group.fault? heap) ++
        (valueItems heap).filterMap (group.fault? heap) := by
  rw [(sound.filled_update heap).errors, (errors_foldl_applyDescriptor _ _).1,
    filterMap_fault?_descriptorItems,
    List.filterMap_congr fun _ member => fault?_of_mem_valueItems group heap member]
  rfl

theorem Sound.values_update :
    (group.update heap).2.values =
      ((valueItems heap).filter fun received => (group.fault? heap received).isNone).map
        ReceivedItem.id := by
  have faults : ∀ received ∈ valueItems heap,
      (group.fault? heap received).isNone =
        ((group.afterDescriptors heap).valueFault? received).isNone := by
    intro received member
    rw [fault?_of_mem_valueItems group heap member]
  rw [(sound.filled_update heap).stored, (errors_foldl_applyDescriptor _ _).2,
    List.filter_congr faults]
  rfl

theorem Sound.get?_update
    {id : Nat} {item : Item} (found : group.get? id = some item)
    (apart : ∀ descriptor ∈ readable heap.descriptors, descriptor.Apart item.descriptor)
    (absent : ∀ received ∈ heap.items, received.id ≠ id) :
    (group.update heap).1.get? id = some item := by
  have unsent : id ∉ (valueItems heap).map ReceivedItem.id := by
    intro sent
    obtain ⟨received, member, same⟩ := List.mem_map.1 sent
    exact absent received (List.mem_filter.1 member).1 same
  rw [(sound.filled_update heap).kept id unsent, fst_foldl_applyDescriptor]
  exact sound.get?_foldl_describe found fun other member => Or.inr (apart other member)

end Update

theorem length_filter_isNone_add
    {item outcome : Type} (step : item → Option outcome) (items : List item) :
    (items.filter fun entry => (step entry).isNone).length + (items.filterMap step).length =
      items.length := by
  rw [← List.countP_eq_length_filter, List.length_filterMap_eq_countP,
    List.length_eq_countP_add_countP (fun entry => (step entry).isNone)]
  simp only [Bool.not_eq_true, Option.isNone_eq_false_iff, Bool.decide_eq_true]

/-- An item of a heap that fails leaves one error behind and nothing else, the descriptors before
the values; every other value is stored. Items that the heap has nothing to do with stay as they
are. -/
theorem Reached.update_isolates {group : Group} (reached : group.Reached) (heap : ReceivedHeap) :
    group.update (group.faultless heap) =
        ((group.update heap).1, { (group.update heap).2 with errors := [] }) ∧
      (group.update heap).2.errors =
        (descriptorItems heap).filterMap (group.fault? heap) ++
          (valueItems heap).filterMap (group.fault? heap) ∧
      (group.update heap).2.values =
        ((valueItems heap).filter fun received => (group.fault? heap received).isNone).map
          ReceivedItem.id ∧
      (group.update heap).2.values.length +
          ((valueItems heap).filterMap (group.fault? heap)).length = (valueItems heap).length ∧
      ∀ id item, group.get? id = some item →
        (∀ descriptor ∈ readable heap.descriptors, descriptor.Apart item.descriptor) →
        (∀ received ∈ heap.items, received.id ≠ id) →
        (group.update heap).1.get? id = some item := by
  have sound := reached.sound
  refine ⟨sound.update_faultless heap, sound.errors_update heap, sound.values_update heap, ?_,
    fun _ _ found => sound.get?_update heap found⟩
  rw [sound.values_update, List.length_map]
  exact length_filter_isNone_add _ _

def toldOther : Group :=
  (toldChar 0x61).insert ⟨0x2000, "other", "", [], .records [{ kind := .float, bits := 32 }]⟩ none

theorem errors_update_rivals :
    (toldOther.update rivals).2.errors =
      [.packet (.tooShort 8 0), .item (.unknownId 0x1000), .codec (.valueTooShort 0x1001 1 0)] := by
  rw [update, descriptors_rivals]
  decide +kernel

/-- The heap with the rivals is applied around what fails, and leaves another item alone. -/
theorem Reached.update_isolates_rivals :
    (toldOther.faultless rivals).items.length = 4 ∧
      (toldOther.update (toldOther.faultless rivals)).1 = (toldOther.update rivals).1 ∧
      (toldOther.update rivals).2.errors =
        [.packet (.tooShort 8 0), .item (.unknownId 0x1000),
          .codec (.valueTooShort 0x1001 1 0)] ∧
      (toldOther.update rivals).1.get? 0x2000 = toldOther.get? 0x2000 := by
  have reached : toldOther.Reached :=
    .add (reached_toldChar 0x61) (add_eq_ok_iff.2 ⟨by simp, rfl⟩)
  obtain ⟨isolated, errors, _, _, kept⟩ := reached.update_isolates rivals
  refine ⟨?_, by rw [isolated], errors_update_rivals, ?_⟩
  · have parts : descriptorItems rivals ++ valueItems rivals = rivals.items := by
      decide +kernel
    have failing : (rivals.items.filterMap (toldOther.fault? rivals)).length = 3 := by
      rw [← parts, List.filterMap_append, ← errors, errors_update_rivals]
      rfl
    have counted := length_filter_isNone_add (toldOther.fault? rivals) rivals.items
    have all : rivals.items.length = 7 := rfl
    unfold faultless
    dsimp only
    omega
  · have found : toldOther.get? 0x2000 = some
        ⟨⟨0x2000, "other", "", [], .records [{ kind := .float, bits := 32 }]⟩, none, 3, 0⟩ := by
      decide +kernel
    have given : readable rivals.descriptors =
        [⟨0x1000, "mark", "", [], .records [{ kind := .int, bits := 8 }]⟩,
          ⟨0x1001, "mark", "", [], .records [{ kind := .int, bits := 8 }]⟩] := by
      rw [descriptors_rivals]
      rfl
    rw [found]
    apply kept _ _ found
    · rw [given]
      simp [Descriptor.Apart]
    · simp [rivals, ItemId.descriptor]

end Group
end Spead
