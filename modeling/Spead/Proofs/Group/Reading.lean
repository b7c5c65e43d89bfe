import Mathlib.Data.List.Forall2
import Spead.Proofs.Group.Describing

/-!
Groups to which values are applied.

A value goes to the item that it is for and leaves the descriptors alone, so that whether an item
can be read does not depend on the items read before it. The last value that is read for an item is
the one that it holds.
-/

namespace Spead
namespace Group

/-! ## Single values -/

def valueFault? (group : Group) (received : ReceivedItem) : Option Error :=
  match group.descriptor? received.id with
  | none => some (ItemError.unknownId received.id)
  | some descriptor => failure? (readValue descriptor received)

theorem valueFault?_congr
    {group other : Group} (same : ∀ id, group.descriptor? id = other.descriptor? id) :
    group.valueFault? = other.valueFault? := by
  funext received
  rw [valueFault?, valueFault?, same]

/-- An item is passed over with its fault, or its value is stored. -/
theorem applyValue_cases (group : Group) (report : UpdateReport) (received : ReceivedItem) :
    (∃ cause, group.valueFault? received = some cause ∧
      applyValue (group, report) received = (group, report.addError cause)) ∨
    (group.valueFault? received = none ∧
      ∃ item value, group.get? received.id = some item ∧
        readValue item.descriptor received = .ok value ∧
        applyValue (group, report) received =
          (group.store item value, report.addValue received.id)) := by
  unfold valueFault? applyValue descriptor?
  dsimp only
  cases found : group.get? received.id with
  | none => exact Or.inl ⟨_, rfl, rfl⟩
  | some item =>
      dsimp only [Option.map_some]
      cases read : readValue item.descriptor received with
      | error cause => exact Or.inl ⟨cause, rfl, rfl⟩
      | ok value => exact Or.inr ⟨rfl, item, value, rfl, read, rfl⟩

/-- What is read from a received item for the item with the descriptor. -/
def reading? (descriptor : Descriptor) (received : ReceivedItem) : Option Value :=
  if received.id = descriptor.id then (readValue descriptor received).toOption else none

/-- The last value that is read for the item with the descriptor. -/
def lastReading? (descriptor : Descriptor) (received : List ReceivedItem) : Option Value :=
  received.reverse.findSome? (reading? descriptor)

theorem lastReading?_cons
    (descriptor : Descriptor) (first : ReceivedItem) (rest : List ReceivedItem) :
    lastReading? descriptor (first :: rest) =
      (lastReading? descriptor rest).or (reading? descriptor first) := by
  rw [lastReading?, List.reverse_cons, List.findSome?_append, List.findSome?_singleton,
    lastReading?]

theorem lastReading?_singleton (descriptor : Descriptor) (received : ReceivedItem) :
    lastReading? descriptor [received] = reading? descriptor received :=
  List.findSome?_singleton

theorem lastReading?_of_absent
    {descriptor : Descriptor} {received : List ReceivedItem}
    (absent : descriptor.id ∉ received.map ReceivedItem.id) :
    lastReading? descriptor received = none := by
  rw [lastReading?, List.findSome?_eq_none_iff]
  intro arrived member
  apply if_neg
  intro same
  rw [← same] at absent
  exact absent (List.mem_map_of_mem (List.mem_reverse.1 member))

theorem lastReading?_of_nodup
    {descriptor : Descriptor} {received : List ReceivedItem} {arrived : ReceivedItem}
    {value : Value} (distinct : (received.map ReceivedItem.id).Nodup)
    (member : arrived ∈ received) (read : reading? descriptor arrived = some value) :
    lastReading? descriptor received = some value := by
  induction received with
  | nil => cases member
  | cons first rest inductionHypothesis =>
      rw [List.map_cons, List.nodup_cons] at distinct
      rw [lastReading?_cons]
      rcases List.mem_cons.1 member with rfl | later
      · have own : arrived.id = descriptor.id := by
          by_contra different
          rw [reading?, if_neg different] at read
          cases read
        rw [lastReading?_of_absent (own ▸ distinct.1), read]
        rfl
      · rw [inductionHypothesis distinct.2 later]
        rfl

/-! ## Values one after the other -/

/-- What received items do to a group and its report. -/
structure Filled
    (before after : Group × UpdateReport) (received : List ReceivedItem) : Prop where
  sound : after.1.Sound
  descriptors : ∀ id, after.1.descriptor? id = before.1.descriptor? id
  values : ∀ descriptor, before.1.Holds descriptor →
    after.1.value? descriptor.id =
      (lastReading? descriptor received).or (before.1.value? descriptor.id)
  kept : ∀ id, id ∉ received.map ReceivedItem.id → after.1.get? id = before.1.get? id
  errors : after.2.errors = before.2.errors ++ received.filterMap before.1.valueFault?
  stored : after.2.values =
    before.2.values ++
      (received.filter fun arrived => (before.1.valueFault? arrived).isNone).map ReceivedItem.id

theorem filled_applyValue
    {before : Group × UpdateReport} (sound : before.1.Sound) (arrived : ReceivedItem) :
    Filled before (applyValue before arrived) [arrived] := by
  rcases before with ⟨group, report⟩
  rcases applyValue_cases group report arrived with
    ⟨cause, fault, applied⟩ | ⟨faultless, item, value, found, read, applied⟩
  · rw [applied]
    constructor
    case sound => exact sound
    case descriptors => exact fun _ => rfl
    case kept => exact fun _ _ => rfl
    case errors => simp [UpdateReport.addError, fault]
    case stored => simp [UpdateReport.addError, fault]
    case values =>
      intro descriptor holds
      have unread : reading? descriptor arrived = none := by
        unfold reading?
        split
        · next same =>
            rw [valueFault?, same, holds] at fault
            dsimp only at fault
            cases read : readValue descriptor arrived with
            | error _ => rfl
            | ok value =>
                rw [read] at fault
                cases fault
        · rfl
      rw [lastReading?_singleton, unread, Option.none_or]
  · have keyed := sound.keyed _ item found
    have foundSelf := sound.get?_own_id found
    rw [applied]
    constructor
    case sound => exact sound.store foundSelf value
    case descriptors => exact descriptor_get?_store group item value foundSelf
    case errors => simp [UpdateReport.addValue, faultless]
    case stored => simp [UpdateReport.addValue, faultless]
    case kept =>
      intro id absent
      have different : id ≠ item.descriptor.id := by
        rw [keyed]
        simpa using absent
      rw [get?_store, if_neg different]
    case values =>
      intro descriptor holds
      obtain ⟨held, holdsHeld, rfl⟩ := holds_iff.1 holds
      rw [lastReading?_singleton, value?, value?, get?_store]
      by_cases same : arrived.id = held.descriptor.id
      · rw [← same, found, Option.some_inj] at holdsHeld
        subst holdsHeld
        rw [if_pos rfl, reading?, if_pos same, read]
        rfl
      · rw [if_neg (by rw [keyed]; exact Ne.symm same), reading?, if_neg same, Option.none_or]

theorem filled_foldl
    {before : Group × UpdateReport} (sound : before.1.Sound) (received : List ReceivedItem) :
    Filled before (received.foldl applyValue before) received := by
  induction received generalizing before with
  | nil => exact ⟨sound, fun _ => rfl, fun _ _ => rfl, fun _ _ => rfl, by simp, by simp⟩
  | cons arrived rest inductionHypothesis =>
      have step := filled_applyValue sound arrived
      have whole := inductionHypothesis step.sound
      have faults := valueFault?_congr step.descriptors
      rw [List.foldl_cons]
      constructor
      case sound => exact whole.sound
      case descriptors =>
        intro id
        rw [whole.descriptors, step.descriptors]
      case values =>
        intro descriptor holds
        have holdsThen : (applyValue before arrived).1.Holds descriptor :=
          (step.descriptors _).trans holds
        rw [whole.values descriptor holdsThen, step.values descriptor holds,
          lastReading?_singleton, lastReading?_cons, Option.or_assoc]
      case kept =>
        intro id outside
        rw [List.map_cons, List.mem_cons, not_or] at outside
        rw [whole.kept id outside.2, step.kept id (by simpa using outside.1)]
      case errors =>
        rw [whole.errors, step.errors, faults, List.append_assoc, ← List.filterMap_append,
          List.singleton_append]
      case stored =>
        rw [whole.stored, step.stored, faults, List.append_assoc, ← List.map_append,
          ← List.filter_append, List.singleton_append]

/-- If no two items have the same id, each is read for itself. -/
theorem Filled.set
    {before after : Group × UpdateReport} {received : List ReceivedItem}
    (filled : Filled before after received) (sound : before.1.Sound)
    (distinct : (received.map ReceivedItem.id).Nodup) :
    ∀ arrived ∈ received, ∀ descriptor value,
      before.1.descriptor? arrived.id = some descriptor →
      readValue descriptor arrived = .ok value →
      ∃ held, after.1.get? arrived.id = some held ∧ held.value = some value := by
  intro arrived member descriptor value described read
  obtain ⟨item, found, rfl⟩ := Option.map_eq_some_iff.1 described
  have keyed := sound.keyed _ item found
  have reads : reading? item.descriptor arrived = some value := by
    rw [reading?, if_pos keyed.symm, read]
    rfl
  have last := lastReading?_of_nodup distinct member reads
  have set := filled.values _ (sound.holds_own found)
  rw [last, keyed] at set
  exact Option.bind_eq_some_iff.1 set

end Group
end Spead
