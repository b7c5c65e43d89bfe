import Spead.Group.Update
import Spead.Proofs.Group.Basic

/-!
Groups to which descriptors are applied.

A descriptor drives out the items that have its id or its name, unless the group knows it already.
Of descriptors that get into each other's way the last one prevails, and an item keeps its value if
no descriptor has got into its way.
-/

namespace Spead

/-! ## Descriptors that get into each other's way -/

namespace Descriptor

/-- Descriptors that have neither the id nor the name in common. -/
def Apart (first second : Descriptor) : Prop :=
  first.id ≠ second.id ∧ first.name ≠ second.name

theorem Apart.symm {first second : Descriptor} (apart : first.Apart second) :
    second.Apart first :=
  ⟨Ne.symm apart.1, Ne.symm apart.2⟩

/-- The descriptor is among those given, and apart from all that are given after it. -/
def PrevailsIn (descriptor : Descriptor) (given : List Descriptor) : Prop :=
  ∃ front back, given = front ++ descriptor :: back ∧ ∀ later ∈ back, later.Apart descriptor

/-- Nothing is given that drives an item with the descriptor out. -/
def UndisturbedBy (descriptor : Descriptor) (given : List Descriptor) : Prop :=
  ∀ other ∈ given, other = descriptor ∨ other.Apart descriptor

theorem not_prevailsIn_nil (descriptor : Descriptor) : ¬ descriptor.PrevailsIn [] := by
  intro prevails
  obtain ⟨front, back, split, _⟩ := prevails
  cases front with
  | nil => cases split
  | cons => cases split

theorem prevailsIn_cons_iff {descriptor first : Descriptor} {rest : List Descriptor} :
    descriptor.PrevailsIn (first :: rest) ↔
      descriptor.PrevailsIn rest ∨
        (descriptor = first ∧ ∀ later ∈ rest, later.Apart descriptor) := by
  constructor
  · intro prevails
    obtain ⟨front, back, split, apart⟩ := prevails
    cases front with
    | nil =>
        obtain ⟨rfl, rfl⟩ := List.cons.inj split
        exact Or.inr ⟨rfl, apart⟩
    | cons head tail =>
        obtain ⟨_, others⟩ := List.cons.inj split
        exact Or.inl ⟨tail, back, others, apart⟩
  · intro prevails
    rcases prevails with ⟨front, back, split, apart⟩ | ⟨same, apart⟩
    · exact ⟨first :: front, back, by rw [split, List.cons_append], apart⟩
    · exact ⟨[], rest, by rw [same, List.nil_append], apart⟩

theorem prevailsIn_of_pairwise
    {descriptor : Descriptor} {given : List Descriptor} (apart : given.Pairwise Apart)
    (member : descriptor ∈ given) :
    descriptor.PrevailsIn given := by
  obtain ⟨front, back, rfl⟩ := List.append_of_mem member
  have behind := (List.pairwise_cons.1 (List.pairwise_append.1 apart).2.1).1
  exact ⟨front, back, rfl, fun later ofBack => (behind later ofBack).symm⟩

end Descriptor

/-! ## Single descriptors -/

namespace Group

def descriptor? (group : Group) (id : Nat) : Option Descriptor :=
  (group.get? id).map Item.descriptor

def value? (group : Group) (id : Nat) : Option Value :=
  (group.get? id).bind Item.value

/-- There is an item with the descriptor in the group. -/
def Holds (group : Group) (descriptor : Descriptor) : Prop :=
  group.descriptor? descriptor.id = some descriptor

instance (group : Group) : DecidablePred group.Holds :=
  fun _ => inferInstanceAs (Decidable (_ = _))

def describe (group : Group) (descriptor : Descriptor) : Group :=
  if group.Holds descriptor then group else group.insert descriptor none

theorem holds_iff {group : Group} {descriptor : Descriptor} :
    group.Holds descriptor ↔
      ∃ item, group.get? descriptor.id = some item ∧ item.descriptor = descriptor :=
  Option.map_eq_some_iff

section Describe

variable {group : Group} {descriptor : Descriptor}

theorem describe_of_holds (holds : group.Holds descriptor) : group.describe descriptor = group :=
  if_pos holds

theorem describe_of_not_holds (new : ¬ group.Holds descriptor) :
    group.describe descriptor = group.insert descriptor none :=
  if_neg new

theorem applyDescriptor_ok (group : Group) (report : UpdateReport) (descriptor : Descriptor) :
    applyDescriptor (group, report) (.ok descriptor) =
      (group.describe descriptor,
        if group.Holds descriptor then report else report.addDescriptor descriptor.id) := by
  have known : ((group.get? descriptor.id).any fun item => item.descriptor = descriptor) = true ↔
      group.Holds descriptor := by
    rw [holds_iff, Option.any_eq_true]
    simp only [decide_eq_true_eq]
  unfold applyDescriptor
  simp only [known]
  by_cases holds : group.Holds descriptor
  · rw [if_pos holds, if_pos holds, describe_of_holds holds]
  · rw [if_neg holds, if_neg holds, describe_of_not_holds holds]

variable (sound : group.Sound)

include sound

theorem Sound.describe (descriptor : Descriptor) : (group.describe descriptor).Sound := by
  unfold Group.describe
  split
  · exact sound
  · exact sound.insert descriptor none

theorem Sound.holds_own {id : Nat} {item : Item} (found : group.get? id = some item) :
    group.Holds item.descriptor :=
  holds_iff.2 ⟨item, sound.get?_own_id found, rfl⟩

/-- What a group holds does not get into each other's way. -/
theorem Sound.eq_or_apart
    {other : Descriptor} (holds : group.Holds descriptor) (holdsOther : group.Holds other) :
    descriptor = other ∨ descriptor.Apart other := by
  obtain ⟨item, found, rfl⟩ := holds_iff.1 holds
  obtain ⟨otherItem, foundOther, rfl⟩ := holds_iff.1 holdsOther
  by_cases same : item.descriptor.id = otherItem.descriptor.id
  · rw [same, foundOther, Option.some_inj] at found
    rw [found]
    exact Or.inl rfl
  · exact Or.inr ⟨same, fun name => same (sound.id_eq_of_name found foundOther name)⟩

theorem Sound.get?_describe
    {id : Nat} {item : Item} (found : group.get? id = some item)
    (undisturbed : descriptor = item.descriptor ∨ descriptor.Apart item.descriptor) :
    (group.describe descriptor).get? id = some item := by
  by_cases holds : group.Holds descriptor
  · rw [describe_of_holds holds, found]
  · rcases undisturbed with rfl | apart
    · exact absurd (sound.holds_own found) holds
    · have different : id ≠ descriptor.id := by
        rw [← sound.keyed id item found]
        exact Ne.symm apart.1
      have free : group.names.get? descriptor.name ≠ some id :=
        sound.name_ne found (Ne.symm apart.2)
      rw [describe_of_not_holds holds, get?_insert, if_neg different, if_neg free, found]

/-- An item has been there before, undisturbed, or it is the new one. -/
theorem Sound.get?_describe_eq_some
    {id : Nat} {item : Item} (found : (group.describe descriptor).get? id = some item) :
    (group.get? id = some item ∧
        (descriptor = item.descriptor ∨ descriptor.Apart item.descriptor)) ∨
      (item.descriptor = descriptor ∧ item.value = none) := by
  by_cases holds : group.Holds descriptor
  · rw [describe_of_holds holds] at found
    exact Or.inl ⟨found, sound.eq_or_apart holds (sound.holds_own found)⟩
  · rw [describe_of_not_holds holds] at found
    rcases get?_insert_eq_some found with ⟨_, rfl⟩ | ⟨different, free, kept⟩
    · exact Or.inr ⟨rfl, rfl⟩
    · refine Or.inl ⟨kept, Or.inr ⟨?_, ?_⟩⟩
      · rw [sound.keyed id item kept]
        exact Ne.symm different
      · intro name
        exact free ((sound.named descriptor.name id).2 ⟨item, kept, name.symm⟩)

theorem Sound.holds_describe_iff {other : Descriptor} :
    (group.describe descriptor).Holds other ↔
      other = descriptor ∨ (group.Holds other ∧ descriptor.Apart other) := by
  constructor
  · intro holds
    obtain ⟨item, found, rfl⟩ := holds_iff.1 holds
    rcases sound.get?_describe_eq_some found with ⟨kept, same | apart⟩ | ⟨same, _⟩
    · exact Or.inl same.symm
    · exact Or.inr ⟨holds_iff.2 ⟨item, kept, rfl⟩, apart⟩
    · exact Or.inl same
  · intro given
    rcases given with rfl | ⟨holds, apart⟩
    · by_cases known : group.Holds other
      · rwa [describe_of_holds known]
      · rw [describe_of_not_holds known]
        exact holds_iff.2 ⟨group.inserted other none, by rw [get?_insert, if_pos rfl], rfl⟩
    · obtain ⟨item, found, rfl⟩ := holds_iff.1 holds
      exact holds_iff.2 ⟨item, sound.get?_describe found (Or.inr apart), rfl⟩

end Describe

/-! ## Descriptors one after the other -/

section Fold

variable {group : Group} (sound : group.Sound)

include sound

theorem Sound.foldl_describe (given : List Descriptor) :
    (given.foldl Group.describe group).Sound := by
  induction given generalizing group with
  | nil => exact sound
  | cons first rest inductionHypothesis => exact inductionHypothesis (sound.describe first)

/-- The descriptors of the group are those given last, beside those that nothing given has to do
with. -/
theorem Sound.holds_foldl_describe_iff {given : List Descriptor} {descriptor : Descriptor} :
    (given.foldl Group.describe group).Holds descriptor ↔
      descriptor.PrevailsIn given ∨
        (group.Holds descriptor ∧ ∀ other ∈ given, other.Apart descriptor) := by
  induction given generalizing group with
  | nil => simp [Descriptor.not_prevailsIn_nil]
  | cons first rest inductionHypothesis =>
      rw [List.foldl_cons, inductionHypothesis (sound.describe first), sound.holds_describe_iff,
        Descriptor.prevailsIn_cons_iff, List.forall_mem_cons]
      tauto

theorem Sound.get?_foldl_describe
    {given : List Descriptor} {id : Nat} {item : Item} (found : group.get? id = some item)
    (undisturbed : item.descriptor.UndisturbedBy given) :
    (given.foldl Group.describe group).get? id = some item := by
  induction given generalizing group with
  | nil => exact found
  | cons first rest inductionHypothesis =>
      obtain ⟨byFirst, byRest⟩ := List.forall_mem_cons.1 undisturbed
      exact inductionHypothesis (sound.describe first) (sound.get?_describe found byFirst) byRest

/-- An item that something has got into the way of has no value. -/
theorem Sound.get?_foldl_describe_eq_some
    {given : List Descriptor} {id : Nat} {item : Item}
    (found : (given.foldl Group.describe group).get? id = some item) :
    (group.get? id = some item ∧ item.descriptor.UndisturbedBy given) ∨ item.value = none := by
  induction given generalizing group with
  | nil => exact Or.inl ⟨found, fun other member => nomatch member⟩
  | cons first rest inductionHypothesis =>
      rcases inductionHypothesis (sound.describe first) found with ⟨before, byRest⟩ | unset
      · rcases sound.get?_describe_eq_some before with ⟨kept, byFirst⟩ | ⟨_, unset⟩
        · exact Or.inl ⟨kept, List.forall_mem_cons.2 ⟨byFirst, byRest⟩⟩
        · exact Or.inr unset
      · exact Or.inr unset

end Fold

/-! ## Parsed descriptors -/

/-- Those that could be read. -/
def readable (parsed : List (Except Error Descriptor)) : List Descriptor :=
  parsed.filterMap Except.toOption

def failure? {result : Type} : Except Error result → Option Error
  | .ok _ => none
  | .error cause => some cause

theorem readable_map_ok (given : List Descriptor) : readable (given.map .ok) = given := by
  rw [readable, List.filterMap_map]
  exact List.filterMap_some

theorem failures_map_ok (given : List Descriptor) :
    (given.map .ok : List (Except Error Descriptor)).filterMap failure? = [] := by
  rw [List.filterMap_map]
  exact List.filterMap_eq_nil_iff.2 fun _ _ => rfl

section Parsed

variable (parsed : List (Except Error Descriptor)) (progress : Group × UpdateReport)

theorem fst_foldl_applyDescriptor :
    (parsed.foldl applyDescriptor progress).1 = (readable parsed).foldl describe progress.1 := by
  induction parsed generalizing progress with
  | nil => rfl
  | cons first rest inductionHypothesis =>
      rw [List.foldl_cons, inductionHypothesis]
      cases first with
      | error _ => rfl
      | ok descriptor =>
          rcases progress with ⟨group, report⟩
          rw [applyDescriptor_ok]
          rfl

/-- Descriptors are reported if they are new, and no value is. -/
theorem errors_foldl_applyDescriptor :
    (parsed.foldl applyDescriptor progress).2.errors =
        progress.2.errors ++ parsed.filterMap failure? ∧
      (parsed.foldl applyDescriptor progress).2.values = progress.2.values := by
  induction parsed generalizing progress with
  | nil => exact ⟨(List.append_nil _).symm, rfl⟩
  | cons first rest inductionHypothesis =>
      obtain ⟨errors, values⟩ := inductionHypothesis (applyDescriptor progress first)
      rw [List.foldl_cons, errors, values]
      cases first with
      | error cause => simp [applyDescriptor, UpdateReport.addError, failure?]
      | ok descriptor =>
          rcases progress with ⟨group, report⟩
          rw [applyDescriptor_ok]
          dsimp only
          split
          · exact ⟨rfl, rfl⟩
          · exact ⟨rfl, rfl⟩

end Parsed

end Group
end Spead
