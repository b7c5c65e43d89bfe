import Spead.Group.Update
import Spead.Proofs.Group.Basic
import Spead.Proofs.InPlace

/-!
Groups that are changed in place.

Every call looks at all that it is given before it changes anything, so that a call that fails
leaves the group as it was.
-/

namespace Spead
namespace Group

/-! ## Calls step by step -/

def addInPlace (descriptor : Descriptor) (value : Option Value) : EStateM Error Group Item := do
  if let some content := value then
    let _ ← MonadExcept.ofExcept (content.encode descriptor)
  modify fun group => group.insert descriptor value
  let some item := (← get).get? descriptor.id
    | throw (ItemError.unknownId descriptor.id : Error)
  return item

def setValueInPlace (id : Nat) (value : Value) : EStateM Error Group Unit := do
  let some item := (← get).get? id
    | throw (ItemError.unknownId id : Error)
  let _ ← MonadExcept.ofExcept (value.encode item.descriptor)
  modify fun group => group.store item value

def setValueByNameInPlace (name : String) (value : Value) : EStateM Error Group Unit := do
  let some id := (← get).names.get? name
    | throw (ItemError.unknownName name : Error)
  setValueInPlace id value

/-- A call for a change of a group. -/
inductive Call where
  | add (descriptor : Descriptor) (value : Option Value)
  | setValue (id : Nat) (value : Value)
  | setValueByName (name : String) (value : Value)
  | remove (id : Nat)
  | update (heap : ReceivedHeap)

namespace Call

def perform : Call → EStateM Error Group Unit
  | .add descriptor value => do
      let _ ← addInPlace descriptor value
  | .setValue id value => setValueInPlace id value
  | .setValueByName name value => setValueByNameInPlace name value
  | .remove id => modify fun group => group.remove id
  | .update heap => modify fun group => (group.update heap).1

end Call

/-! ## What the steps come to -/

theorem run_addInPlace (descriptor : Descriptor) (value : Option Value) (group : Group) :
    (addInPlace descriptor value).run group =
      (atomically fun now => (now.add descriptor value).map fun next =>
        (now.inserted descriptor value, next)).run group := by
  have found : (group.insert descriptor value).get? descriptor.id =
      some (group.inserted descriptor value) := by
    rw [get?_insert, if_pos rfl]
  cases value with
  | none =>
      have added : group.add descriptor none = .ok (group.insert descriptor none) := rfl
      simp [addInPlace, run_atomically, added, found, Except.map]
  | some content =>
      cases encoded : content.encode descriptor with
      | error cause =>
          have refused : group.add descriptor (some content) = .error cause := by
            simp only [add, encoded]
            rfl
          simp [addInPlace, run_ofExcept, run_atomically, encoded, refused, Except.map]
      | ok bytes =>
          have added : group.add descriptor (some content) =
              .ok (group.insert descriptor (some content)) := by
            simp only [add, encoded]
            rfl
          simp [addInPlace, run_ofExcept, run_atomically, encoded, added, found, Except.map]

theorem run_setValueInPlace (id : Nat) (value : Value) (group : Group) :
    (setValueInPlace id value).run group =
      (atomically fun now => (now.setValue id value).map fun next => ((), next)).run group := by
  cases found : group.get? id with
  | none =>
      have refused : group.setValue id value = .error (ItemError.unknownId id) := by
        simp only [setValue, found]
        rfl
      simp [setValueInPlace, run_atomically, found, refused, Except.map]
  | some item =>
      cases encoded : value.encode item.descriptor with
      | error cause =>
          have refused : group.setValue id value = .error cause := by
            simp only [setValue, found, encoded]
            rfl
          simp [setValueInPlace, run_ofExcept, run_atomically, found, encoded, refused, Except.map]
      | ok bytes =>
          have set : group.setValue id value = .ok (group.store item value) := by
            simp only [setValue, found, encoded]
            rfl
          simp [setValueInPlace, run_ofExcept, run_atomically, found, encoded, set, Except.map]

theorem run_setValueByNameInPlace (name : String) (value : Value) (group : Group) :
    (setValueByNameInPlace name value).run group =
      (atomically fun now => (now.setValueByName name value).map fun next => ((), next)).run
        group := by
  cases found : group.names.get? name with
  | none =>
      have refused : group.setValueByName name value = .error (ItemError.unknownName name) := by
        simp only [setValueByName, found]
        rfl
      simp [setValueByNameInPlace, run_atomically, found, refused, Except.map]
  | some id =>
      have same : group.setValueByName name value = group.setValue id value := by
        simp only [setValueByName, found]
      simp [setValueByNameInPlace, run_setValueInPlace, run_atomically, found, same]

section Outcomes

variable {group next : Group} {descriptor : Descriptor} {value : Option Value} {id : Nat}
  {content : Value} {item : Item} {cause : Error}

theorem addInPlace_eq_ok (added : (addInPlace descriptor value).run group = .ok item next) :
    item = group.inserted descriptor value ∧ next = group.insert descriptor value := by
  rw [run_addInPlace, atomically_eq_ok_iff, Except.map_eq_ok_iff] at added
  obtain ⟨_, added, same⟩ := added
  obtain ⟨_, rfl⟩ := add_eq_ok_iff.1 added
  cases same
  exact ⟨rfl, rfl⟩

theorem addInPlace_eq_error
    (failed : (addInPlace descriptor value).run group = .error cause next) : next = group := by
  rw [run_addInPlace, atomically_eq_error_iff] at failed
  exact failed.2

theorem setValueInPlace_eq_ok (set : (setValueInPlace id content).run group = .ok () next) :
    ∃ item, group.get? id = some item ∧ next = group.store item content := by
  rw [run_setValueInPlace, atomically_eq_ok_iff, Except.map_eq_ok_iff] at set
  obtain ⟨_, set, same⟩ := set
  obtain ⟨item, found, _, rfl⟩ := setValue_eq_ok_iff.1 set
  cases same
  exact ⟨item, found, rfl⟩

theorem setValueInPlace_eq_error
    (failed : (setValueInPlace id content).run group = .error cause next) : next = group := by
  rw [run_setValueInPlace, atomically_eq_error_iff] at failed
  exact failed.2

end Outcomes

/-! ## Whole calls -/

namespace Call

def change : Call → Group → Except Error Group
  | .add descriptor value, group => group.add descriptor value
  | .setValue id value, group => group.setValue id value
  | .setValueByName name value, group => group.setValueByName name value
  | .remove id, group => .ok (group.remove id)
  | .update heap, group => .ok (group.update heap).1

theorem run_perform (call : Call) (group : Group) :
    call.perform.run group =
      (atomically fun now => (call.change now).map fun next => ((), next)).run group := by
  cases call with
  | add descriptor value =>
      rw [perform, EStateM.run_bind, run_addInPlace, run_atomically, run_atomically, change]
      cases group.add descriptor value with
      | error cause => rfl
      | ok next => rfl
  | setValue id value => exact run_setValueInPlace id value group
  | setValueByName name value => exact run_setValueByNameInPlace name value group
  | remove id => rfl
  | update heap => rfl

/-- A call that fails leaves the group as it was. -/
theorem eq_of_perform_eq_error
    {call : Call} {group next : Group} {cause : Error}
    (failed : call.perform.run group = .error cause next) : next = group := by
  rw [run_perform, atomically_eq_error_iff] at failed
  exact failed.2

/-- The group that a call leaves behind, whether it fails or not. -/
def leaves (call : Call) (group : Group) : Group :=
  match call.perform.run group with
  | .ok _ next => next
  | .error _ next => next

theorem leaves_eq (call : Call) (group : Group) :
    (∃ cause, call.change group = .error cause ∧ call.leaves group = group) ∨
      call.change group = .ok (call.leaves group) := by
  unfold leaves
  rw [run_perform, run_atomically]
  cases call.change group with
  | error cause => exact Or.inl ⟨cause, rfl, rfl⟩
  | ok next => exact Or.inr rfl

end Call

/-- What calls make of a group one after the other, those that fail included. -/
def afterCalls (calls : List Call) : Group :=
  calls.foldl (fun group call => call.leaves group) empty

end Group
end Spead
