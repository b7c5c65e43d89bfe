import Mathlib.Algebra.BigOperators.Group.List.Basic
import Mathlib.Data.List.TakeWhile
import Spead.Value.ElementOrder

/-!
How many elements the shapes of arrays stand for.
-/

namespace Spead
namespace Shape

theorem volume_eq_prod (dimensions : List Nat) : volume dimensions = dimensions.prod :=
  rfl

@[simp] theorem volume_reverse (dimensions : List Nat) :
    volume dimensions.reverse = volume dimensions := by
  rw [volume_eq_prod, volume_eq_prod, List.prod_reverse]

@[simp] theorem volume_cons (length : Nat) (rest : List Nat) :
    volume (length :: rest) = length * volume rest :=
  rfl

theorem volume_pos {dimensions : List Nat} (positive : ∀ dimension ∈ dimensions, 0 < dimension) :
    0 < volume dimensions := by
  induction dimensions with
  | nil => exact Nat.one_pos
  | cons dimension rest inductionHypothesis =>
      rw [List.forall_mem_cons] at positive
      rw [volume_cons]
      exact Nat.mul_pos positive.1 (inductionHypothesis positive.2)

theorem pos_of_mem_takeWhile {dimensions : List Nat} :
    ∀ dimension ∈ dimensions.takeWhile (· ≠ 0), 0 < dimension := by
  intro dimension member
  have nonzero := List.mem_takeWhile_imp member
  exact Nat.pos_of_ne_zero (of_decide_eq_true nonzero)

/-! ## Counting -/

/-- Dimensions multiplied onto nothing. -/
theorem foldlM_zero (dimensions : List Nat) :
    dimensions.foldlM (fun count dimension =>
      if count * dimension < wordLimit then some (count * dimension) else none) 0 = some 0 := by
  induction dimensions with
  | nil => rfl
  | cons dimension rest inductionHypothesis =>
      rw [List.foldlM_cons, Nat.zero_mul, if_pos (by decide)]
      exact inductionHypothesis

/-- Dimensions multiplied onto a first factor. A zero stops the products from growing. -/
theorem foldlM_eq_some_iff
    {dimensions : List Nat} {first count : Nat} (positive : 0 < first) (known : first < wordLimit) :
    dimensions.foldlM (fun count dimension =>
        if count * dimension < wordLimit then some (count * dimension) else none) first =
          some count ↔
      count = first * volume dimensions ∧
        first * volume (dimensions.takeWhile (· ≠ 0)) < wordLimit := by
  induction dimensions generalizing first with
  | nil => simp [volume, known, eq_comm]
  | cons dimension rest inductionHypothesis =>
      rw [List.foldlM_cons, volume_cons]
      by_cases empty : dimension = 0
      · subst empty
        have zero : (0 : Nat) < wordLimit := by decide
        simp [volume, foldlM_zero, zero, known, eq_comm]
      · have raised : 0 < first * dimension := Nat.mul_pos positive (Nat.pos_of_ne_zero empty)
        have front : volume ((dimension :: rest).takeWhile (· ≠ 0)) =
            dimension * volume (rest.takeWhile (· ≠ 0)) := by
          rw [List.takeWhile_cons_of_pos (by simp [empty]), volume_cons]
        rw [front, ← Nat.mul_assoc, ← Nat.mul_assoc]
        by_cases small : first * dimension < wordLimit
        · rw [if_pos small]
          exact inductionHypothesis raised small
        · have large : wordLimit ≤ first * dimension * volume (rest.takeWhile (· ≠ 0)) :=
            Nat.le_trans (Nat.not_lt.1 small)
              (Nat.le_mul_of_pos_right _ (volume_pos pos_of_mem_takeWhile))
          rw [if_neg small]
          constructor
          · rintro ⟨⟩
          · rintro ⟨_, fits⟩
            exact absurd fits (Nat.not_lt.2 large)

/-- The number of elements is the product of the dimensions. It is found if those in front of the
first zero can be multiplied. -/
theorem elementCount_eq_some_iff {dimensions : List Nat} {count : Nat} :
    elementCount dimensions = some count ↔
      count = volume dimensions ∧ volume (dimensions.takeWhile (· ≠ 0)) < wordLimit := by
  have one : 1 < wordLimit := by decide
  rw [elementCount, foldlM_eq_some_iff Nat.one_pos one, Nat.one_mul, Nat.one_mul]

theorem elementCount_eq_some
    {dimensions : List Nat} {count : Nat} (counted : elementCount dimensions = some count) :
    count = volume dimensions :=
  (elementCount_eq_some_iff.1 counted).1

/-- Among dimensions that are not zero no product is larger than the last. -/
theorem elementCount_of_pos
    {dimensions : List Nat} (positive : ∀ dimension ∈ dimensions, 0 < dimension)
    (small : volume dimensions < wordLimit) :
    elementCount dimensions = some (volume dimensions) := by
  have front : dimensions.takeWhile (· ≠ 0) = dimensions := by
    apply List.takeWhile_eq_self_iff.2
    intro dimension member
    exact decide_eq_true (positive dimension member).ne'
  rw [elementCount_eq_some_iff, front]
  exact ⟨rfl, small⟩

/-! ## Shapes with a variable dimension -/

@[simp] theorem fill_cons (length : Nat) (dimension : Dimension) (shape : List Dimension) :
    fill length (dimension :: shape) = dimension.getD length :: fill length shape :=
  rfl

@[simp] theorem fixedDimensions_some (length : Nat) (shape : List Dimension) :
    fixedDimensions (some length :: shape) = length :: fixedDimensions shape :=
  rfl

@[simp] theorem fixedDimensions_none (shape : List Dimension) :
    fixedDimensions (none :: shape) = fixedDimensions shape :=
  rfl

@[simp] theorem variableCount_some (length : Nat) (shape : List Dimension) :
    variableCount (some length :: shape) = variableCount shape := by
  simp [variableCount]

@[simp] theorem variableCount_none (shape : List Dimension) :
    variableCount (none :: shape) = variableCount shape + 1 := by
  simp [variableCount]

theorem admits_cons
    (dimension : Dimension) (shape : List Dimension) (length : Nat) (dimensions : List Nat) :
    admits (dimension :: shape) (length :: dimensions) =
      (dimension.all (· = length) && admits shape dimensions) := by
  simp only [admits, List.length_cons, Nat.add_right_cancel_iff, List.zip_cons_cons, List.all_cons]
  exact Bool.and_left_comm _ _ _

section Fill

variable {shape : List Dimension}

theorem admits_fill (length : Nat) (shape : List Dimension) :
    admits shape (fill length shape) = true := by
  induction shape with
  | nil => rfl
  | cons dimension rest inductionHypothesis =>
      rw [fill_cons, admits_cons, inductionHypothesis, Bool.and_true]
      cases dimension with
      | none => rfl
      | some fixed => simp

/-- Without variable dimensions there is nothing to fill in. -/
theorem fill_of_fixed (fixed : variableCount shape = 0) (length : Nat) :
    fill length shape = fixedDimensions shape := by
  induction shape with
  | nil => rfl
  | cons dimension rest inductionHypothesis =>
      cases dimension with
      | none =>
          rw [variableCount_none] at fixed
          cases fixed
      | some given =>
          rw [variableCount_some] at fixed
          rw [fill_cons, fixedDimensions_some, inductionHypothesis fixed, Option.getD_some]

/-- An array that a shape admits fills its only variable dimension. -/
theorem exists_eq_fill
    {dimensions : List Nat} (single : variableCount shape ≤ 1)
    (admitted : admits shape dimensions = true) :
    ∃ length, dimensions = fill length shape := by
  induction shape generalizing dimensions with
  | nil =>
      cases dimensions with
      | nil => exact ⟨0, rfl⟩
      | cons first rest => simp [admits] at admitted
  | cons dimension shape inductionHypothesis =>
      cases dimensions with
      | nil => simp [admits] at admitted
      | cons first rest =>
          rw [admits_cons, Bool.and_eq_true] at admitted
          cases dimension with
          | some given =>
              rw [variableCount_some] at single
              obtain ⟨length, same⟩ := inductionHypothesis single admitted.2
              have equal : given = first := of_decide_eq_true admitted.1
              exact ⟨length, by rw [fill_cons, Option.getD_some, equal, same]⟩
          | none =>
              rw [variableCount_none] at single
              have fixed : variableCount shape = 0 := by omega
              obtain ⟨length, same⟩ := inductionHypothesis (by omega) admitted.2
              refine ⟨first, ?_⟩
              rw [fill_cons, Option.getD_none, same, fill_of_fixed fixed, fill_of_fixed fixed]

theorem volume_fill (single : variableCount shape = 1) (length : Nat) :
    volume (fill length shape) = length * volume (fixedDimensions shape) := by
  induction shape with
  | nil => cases single
  | cons dimension rest inductionHypothesis =>
      cases dimension with
      | some given =>
          rw [variableCount_some] at single
          rw [fill_cons, fixedDimensions_some, volume_cons, volume_cons, Option.getD_some,
            inductionHypothesis single, Nat.mul_left_comm]
      | none =>
          rw [variableCount_none] at single
          rw [fill_cons, fixedDimensions_none, volume_cons, Option.getD_none,
            fill_of_fixed (by omega)]

theorem volume_fixedDimensions_eq_zero_iff :
    volume (fixedDimensions shape) = 0 ↔ some 0 ∈ shape := by
  induction shape with
  | nil => simp [fixedDimensions, volume]
  | cons dimension rest inductionHypothesis =>
      cases dimension with
      | none => simp [inductionHypothesis]
      | some given =>
          rw [fixedDimensions_some, volume_cons, Nat.mul_eq_zero, inductionHypothesis,
            List.mem_cons, Option.some_inj, eq_comm]

theorem pos_of_mem_fill
    (nonzero : some 0 ∉ shape) {length : Nat} (positive : 0 < length) :
    ∀ dimension ∈ fill length shape, 0 < dimension := by
  intro dimension member
  obtain ⟨entry, found, rfl⟩ := List.mem_map.1 member
  cases entry with
  | none => exact positive
  | some given =>
      refine Nat.pos_of_ne_zero fun zero => nonzero ?_
      rw [← show given = 0 from zero]
      exact found

/-- An array without elements has a count if its fixed dimensions have one. -/
theorem exists_elementCount_fill_zero
    {count : Nat} (counted : elementCount (fixedDimensions shape) = some count) :
    ∃ filled, elementCount (fill 0 shape) = some filled := by
  unfold elementCount at counted ⊢
  generalize 1 = first at counted
  induction shape generalizing first with
  | nil => exact ⟨first, rfl⟩
  | cons dimension rest inductionHypothesis =>
      cases dimension with
      | none =>
          refine ⟨0, ?_⟩
          rw [fill_cons, Option.getD_none, List.foldlM_cons, Nat.mul_zero, if_pos (by decide)]
          exact foldlM_zero _
      | some given =>
          rw [fixedDimensions_some, List.foldlM_cons] at counted
          rw [fill_cons, Option.getD_some, List.foldlM_cons]
          by_cases small : first * given < wordLimit
          · rw [if_pos small] at counted ⊢
            exact inductionHypothesis _ counted
          · rw [if_neg small] at counted
            cases counted

/-- The elements of a filled shape can be counted if nothing in it is empty, or all of it. -/
theorem elementCount_fill
    (single : variableCount shape = 1) {count length : Nat}
    (counted : elementCount (fixedDimensions shape) = some count)
    (small : length * count < wordLimit) (nonzero : length ≠ 0 → some 0 ∉ shape) :
    elementCount (fill length shape) = some (length * count) := by
  have volume := volume_fill single length
  rw [← elementCount_eq_some counted] at volume
  by_cases none : length = 0
  · subst none
    obtain ⟨filled, found⟩ := exists_elementCount_fill_zero counted
    rw [found, elementCount_eq_some found, volume]
  · rw [← volume] at small ⊢
    exact elementCount_of_pos (pos_of_mem_fill (nonzero none) (Nat.pos_of_ne_zero none)) small

end Fill

/-! ## Places of elements -/

theorem length_columnMajorPlaces (dimensions : List Nat) :
    (columnMajorPlaces dimensions).length = volume dimensions := by
  induction dimensions with
  | nil => rfl
  | cons length rest inductionHypothesis =>
      simp only [columnMajorPlaces, List.length_flatMap, List.length_map, List.length_range,
        List.map_const', List.sum_replicate_nat, inductionHypothesis, volume, List.foldr_cons]
      exact Nat.mul_comm _ _

@[simp] theorem length_columnMajor (dimensions : List Nat) :
    (columnMajor dimensions).length = volume dimensions := by
  unfold columnMajor
  split
  · next empty => simp [empty]
  · exact length_columnMajorPlaces dimensions

@[simp] theorem length_gather (places words : List Nat) :
    (gather places words).length = places.length := by
  simp [gather]

end Shape
end Spead
