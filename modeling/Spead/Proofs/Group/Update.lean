import Mathlib.Data.List.Forall2
import Spead.Proofs.Except
import Spead.Proofs.Group.Reading

/-!
Groups to which a heap is applied.

Descriptors that share neither an id nor a name do not get into each other's way: after all of
them have been applied each one is known, and items that are described as before, or that have
nothing in common with any of them, have been left alone. Values then go to the items they are
for, and to no others.
-/

namespace Spead
namespace Group

/-! ## Descriptors and values without faults -/

/-- What descriptors do to a group. -/
structure Described
    (before after : Group × UpdateReport) (descriptors : List Descriptor) : Prop where
  sound : after.1.Sound
  errors : after.2.errors = before.2.errors
  known : ∀ descriptor ∈ descriptors, after.1.Holds descriptor
  kept : ∀ id held, before.1.get? id = some held →
    held.descriptor.UndisturbedBy descriptors → after.1.get? id = some held

theorem described_foldl
    {before : Group × UpdateReport} (sound : before.1.Sound) {descriptors : List Descriptor}
    (apart : descriptors.Pairwise Descriptor.Apart) :
    Described before ((descriptors.map .ok).foldl applyDescriptor before) descriptors := by
  have group := fst_foldl_applyDescriptor (descriptors.map .ok) before
  rw [readable_map_ok] at group
  constructor
  case sound =>
    rw [group]
    exact sound.foldl_describe descriptors
  case errors =>
    rw [(errors_foldl_applyDescriptor _ before).1, failures_map_ok, List.append_nil]
  case known =>
    intro descriptor member
    rw [group]
    exact sound.holds_foldl_describe_iff.2
      (Or.inl (Descriptor.prevailsIn_of_pairwise apart member))
  case kept =>
    intro id held found undisturbed
    rw [group]
    exact sound.get?_foldl_describe found undisturbed

/-- What values do to a group. -/
structure Valued
    (before after : Group × UpdateReport) (values : List (Nat × Value)) : Prop where
  sound : after.1.Sound
  errors : after.2.errors = before.2.errors
  descriptors : ∀ id, after.1.descriptor? id = before.1.descriptor? id
  set : ∀ entry ∈ values, ∃ held, after.1.get? entry.1 = some held ∧ held.value = some entry.2
  kept : ∀ id, id ∉ values.map Prod.fst → after.1.get? id = before.1.get? id

/-- The received item carries a value for the item with the id. -/
def Carries (group : Group) (entry : Nat × Value) (received : ReceivedItem) : Prop :=
  received.id = entry.1 ∧
    ∃ descriptor, group.descriptor? entry.1 = some descriptor ∧
      readValue descriptor received = .ok entry.2

theorem Carries.valueFault?
    {group : Group} {entry : Nat × Value} {received : ReceivedItem}
    (carries : group.Carries entry received) : group.valueFault? received = none := by
  obtain ⟨same, descriptor, described, read⟩ := carries
  rw [Group.valueFault?, same, described]
  dsimp only
  rw [read]
  rfl

theorem valued_foldl
    {before : Group × UpdateReport} (sound : before.1.Sound) {values : List (Nat × Value)}
    {received : List ReceivedItem}
    (carries : List.Forall₂ before.1.Carries values received)
    (distinct : (values.map Prod.fst).Nodup) :
    Valued before (received.foldl applyValue before) values := by
  have filled := filled_foldl sound received
  have ids : received.map ReceivedItem.id = values.map Prod.fst :=
    map_eq_map_of_forall₂ carries fun _ _ carried => carried.1
  constructor
  case sound => exact filled.sound
  case descriptors => exact filled.descriptors
  case errors =>
    have faultless : received.filterMap before.1.valueFault? = [] := by
      rw [List.filterMap_eq_nil_iff]
      intro arrived member
      obtain ⟨_, _, carried⟩ := exists_of_forall₂_right carries member
      exact carried.valueFault?
    rw [filled.errors, faultless, List.append_nil]
  case set =>
    intro entry member
    obtain ⟨arrived, ofReceived, same, descriptor, described, read⟩ :=
      exists_of_forall₂_left carries member
    rw [← same] at described ⊢
    exact filled.set sound (ids ▸ distinct) arrived ofReceived descriptor entry.2 described read
  case kept =>
    intro id absent
    exact filled.kept id (ids ▸ absent)

/-! ## Whole heaps -/

/-- What survives new descriptors and values that are read survives every heap. -/
theorem update_induction
    {holds : Group → Prop}
    (insert : ∀ group descriptor, holds group → holds (group.insert descriptor none))
    (store : ∀ group id item received value, holds group → group.get? id = some item →
      readValue item.descriptor received = .ok value → holds (group.store item value))
    {group : Group} (start : holds group) (heap : ReceivedHeap) :
    holds (group.update heap).1 := by
  have described (parsed : List (Except Error Descriptor)) :
      ∀ progress : Group × UpdateReport, holds progress.1 →
        holds (parsed.foldl applyDescriptor progress).1 := by
    induction parsed with
    | nil => exact fun _ before => before
    | cons first rest inductionHypothesis =>
        intro progress before
        apply inductionHypothesis
        rcases progress with ⟨now, report⟩
        cases first with
        | error _ => exact before
        | ok descriptor =>
            rw [applyDescriptor_ok]
            by_cases known : now.Holds descriptor
            · rwa [describe_of_holds known]
            · rw [describe_of_not_holds known]
              exact insert now descriptor before
  have valued (received : List ReceivedItem) :
      ∀ progress : Group × UpdateReport, holds progress.1 →
        holds (received.foldl applyValue progress).1 := by
    induction received with
    | nil => exact fun _ before => before
    | cons first rest inductionHypothesis =>
        intro progress before
        apply inductionHypothesis
        rcases applyValue_cases progress.1 progress.2 first with
          ⟨_, _, applied⟩ | ⟨_, item, value, found, read, applied⟩
        · rw [applied]
          exact before
        · rw [applied]
          exact store progress.1 _ item first value before found read
  exact valued _ _ (described _ _ start)

theorem Sound.update {group : Group} (sound : group.Sound) (heap : ReceivedHeap) :
    (group.update heap).1.Sound := by
  refine update_induction ?insert ?store sound heap
  case insert => exact fun _ descriptor before => before.insert descriptor none
  case store =>
    intro _ _ _ _ value before found _
    exact before.store (before.get?_own_id found) value

end Group
end Spead
