import Mathlib.Data.List.Forall2
import Mathlib.Data.List.Induction
import Spead.Error

/-!
Computations that succeed, taken apart step by step.
-/

namespace Spead

section Except

variable {cause start result : Type}

theorem Except.bind_eq_ok_iff
    {first : Except cause start} {next : start → Except cause result} {final : result} :
    (first >>= next) = .ok final ↔ ∃ middle, first = .ok middle ∧ next middle = .ok final := by
  cases first with
  | error _ => simp [bind, Except.bind]
  | ok _ => simp [bind, Except.bind]

theorem Except.bind_of_eq_ok
    {first : Except cause start} {next : start → Except cause result} {middle : start}
    (ran : first = .ok middle) : (first >>= next) = next middle := by
  rw [ran]
  rfl

theorem Except.map_eq_ok_iff
    {first : Except cause start} {change : start → result} {final : result} :
    first.map change = .ok final ↔ ∃ middle, first = .ok middle ∧ change middle = final := by
  cases first with
  | error _ => simp [Except.map]
  | ok _ => simp [Except.map]

/-- A computation of one domain of errors succeeds among those of all domains as it does alone. -/
theorem liftM_eq_ok_iff
    {domain : Type} [Coe domain Error] {computation : Except domain result} {final : result} :
    (liftM computation : Except Error result) = .ok final ↔ computation = .ok final := by
  cases computation with
  | error _ =>
      constructor
      · intro equal
        cases equal
      · intro equal
        cases equal
  | ok value =>
      constructor
      · intro equal
        cases equal
        rfl
      · intro equal
        cases equal
        rfl

/-- A check that throws has to be passed on the way to a result. -/
theorem Except.guard_eq_ok_iff
    {condition : Prop} [Decidable condition] {thrown : cause} {next : Except cause result}
    {final : result} :
    (if condition then (throw thrown >>= fun _ : PUnit => next) else next) = .ok final ↔
      ¬ condition ∧ next = .ok final := by
  by_cases failed : condition
  · simp only [failed, not_true_eq_false, false_and, iff_false]
    intro equal
    cases equal
  · simp [failed]

theorem Except.ite_eq_ok_iff
    {condition : Prop} [Decidable condition] {thrown : cause} {value final : result} :
    (if condition then (.ok value : Except cause result) else .error thrown) = .ok final ↔
      condition ∧ final = value := by
  by_cases passed : condition
  · simp [passed, eq_comm]
  · simp [passed]

/-- All steps of a list succeed. -/
theorem mapM_eq_ok_iff
    {step : start → Except cause result} {items : List start} {results : List result} :
    items.mapM step = .ok results ↔
      List.Forall₂ (fun item result => step item = .ok result) items results := by
  induction items generalizing results with
  | nil =>
      rw [List.mapM_nil, List.forall₂_nil_left_iff]
      constructor
      · rintro ⟨⟩
        rfl
      · rintro rfl
        rfl
  | cons item rest inductionHypothesis =>
      rw [List.mapM_cons, List.forall₂_cons_left_iff]
      simp only [Except.bind_eq_ok_iff, inductionHypothesis]
      constructor
      · rintro ⟨first, found, others, foundOthers, ⟨⟩⟩
        exact ⟨first, others, found, foundOthers, rfl⟩
      · rintro ⟨first, others, found, foundOthers, rfl⟩
        exact ⟨first, found, others, foundOthers, rfl⟩

theorem exists_mapM_eq_ok_iff
    {step : start → Except cause result} {items : List start} :
    (∃ results, items.mapM step = .ok results) ↔
      ∀ item ∈ items, ∃ result, step item = .ok result := by
  induction items with
  | nil => simpa using ⟨[], rfl⟩
  | cons item rest inductionHypothesis =>
      rw [List.forall_mem_cons, ← inductionHypothesis]
      simp only [mapM_eq_ok_iff, List.forall₂_cons_left_iff]
      constructor
      · rintro ⟨_, first, others, found, related, rfl⟩
        exact ⟨⟨first, found⟩, others, related⟩
      · rintro ⟨⟨first, found⟩, others, related⟩
        exact ⟨_, first, others, found, related, rfl⟩

/-- Steps that succeed on certain items, with a result that does not depend on more, succeed
together if all of the items are of that kind. -/
theorem foldlM_eq_ok_iff
    {item : Type} {step : start → item → Except cause start} {accepts : item → Prop}
    {move : start → item → start}
    (stepped : ∀ first entry next,
      step first entry = .ok next ↔ accepts entry ∧ next = move first entry)
    {items : List item} {first last : start} :
    items.foldlM step first = .ok last ↔
      (∀ entry ∈ items, accepts entry) ∧ last = items.foldl move first := by
  induction items generalizing first with
  | nil => simp [pure, Except.pure, eq_comm]
  | cons entry rest inductionHypothesis =>
      rw [List.foldlM_cons, Except.bind_eq_ok_iff, List.forall_mem_cons, List.foldl_cons]
      simp only [stepped, inductionHypothesis]
      constructor
      · rintro ⟨_, ⟨accepted, rfl⟩, others, rfl⟩
        exact ⟨⟨accepted, others⟩, rfl⟩
      · rintro ⟨⟨accepted, others⟩, rfl⟩
        exact ⟨_, ⟨accepted, rfl⟩, others, rfl⟩

/-- What each step keeps up, with the items so far, holds of the last state with all items. -/
theorem foldlM_induction
    {item : Type} (invariant : List item → start → Prop)
    {step : start → item → Except cause start} {items : List item}
    (stepped : ∀ earlier before, invariant earlier before → ∀ entry ∈ items, ∀ after,
      step before entry = .ok after → invariant (earlier ++ [entry]) after)
    {first last : start} (begun : invariant [] first)
    (folded : items.foldlM step first = .ok last) : invariant items last := by
  induction items using List.reverseRecOn generalizing last with
  | nil =>
      cases folded
      exact begun
  | append_singleton earlier entry inductionHypothesis =>
      rw [List.foldlM_append, Except.bind_eq_ok_iff] at folded
      obtain ⟨before, others, one⟩ := folded
      rw [List.foldlM_cons, Except.bind_eq_ok_iff] at one
      obtain ⟨_, moved, ⟨⟩⟩ := one
      have invariantBefore := inductionHypothesis
        (fun done state holds other member =>
          stepped done state holds other (List.mem_append_left _ member)) others
      exact stepped earlier before invariantBefore entry List.mem_concat_self _ moved

end Except

/-! ## Lists that are related element by element -/

section Related

variable {first second : Type} {relation : first → second → Prop}
  {items : List first} {results : List second}

theorem exists_of_forall₂_left
    (related : List.Forall₂ relation items results) {item : first} (member : item ∈ items) :
    ∃ result ∈ results, relation item result := by
  induction related with
  | nil => cases member
  | cons head _ inductionHypothesis =>
      rcases List.mem_cons.1 member with rfl | later
      · exact ⟨_, List.mem_cons_self, head⟩
      · obtain ⟨result, found, holds⟩ := inductionHypothesis later
        exact ⟨result, List.mem_cons_of_mem _ found, holds⟩

theorem exists_of_forall₂_right
    (related : List.Forall₂ relation items results) {result : second} (member : result ∈ results) :
    ∃ item ∈ items, relation item result := by
  induction related with
  | nil => cases member
  | cons head _ inductionHypothesis =>
      rcases List.mem_cons.1 member with rfl | later
      · exact ⟨_, List.mem_cons_self, head⟩
      · obtain ⟨item, found, holds⟩ := inductionHypothesis later
        exact ⟨item, List.mem_cons_of_mem _ found, holds⟩

theorem map_eq_map_of_forall₂
    {third : Type} {left : first → third} {right : second → third}
    (related : List.Forall₂ relation items results)
    (agree : ∀ item result, relation item result → right result = left item) :
    results.map right = items.map left := by
  induction related with
  | nil => rfl
  | cons head _ inductionHypothesis =>
      rw [List.map_cons, List.map_cons, agree _ _ head, inductionHypothesis]

theorem exists_concat_of_forall₂
    {item : first} (related : List.Forall₂ relation (items ++ [item]) results) :
    ∃ earlier last, results = earlier ++ [last] ∧ List.Forall₂ relation items earlier ∧
      relation item last := by
  induction items generalizing results with
  | nil =>
      cases related with
      | cons head tail =>
          cases tail
          exact ⟨[], _, rfl, List.Forall₂.nil, head⟩
  | cons other rest inductionHypothesis =>
      cases related with
      | cons head tail =>
          obtain ⟨earlier, last, rfl, relatedRest, holds⟩ := inductionHypothesis tail
          exact ⟨_ :: earlier, last, rfl, List.Forall₂.cons head relatedRest, holds⟩

end Related

end Spead
