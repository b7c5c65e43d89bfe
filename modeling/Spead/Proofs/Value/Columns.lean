import Spead.Proofs.Value.Walk

/-!
The places of the elements of an array as a table.

An element has an index, with one digit for each dimension, and two numbers: its place in memory,
where the last digit varies fastest, and its turn among the elements that are sent, where the first
one does. `columnMajor` lists the places turn by turn. Read from the end, shape and index exchange
the two numbers, so that the table of the reversed shape is the inverse one.
-/

namespace Spead
namespace Shape

/-! ## The two numbers of an index -/

/-- The indices of an array: a digit for each dimension, less than its length. -/
def Within (dimensions index : List Nat) : Prop :=
  List.Forall₂ (fun length digit => digit < length) dimensions index

/-- The number of an index where the last digit varies fastest. -/
def rowRank : (dimensions index : List Nat) → Nat
  | _ :: rest, digit :: index => digit * volume rest + rowRank rest index
  | _, _ => 0

/-- The number of an index where the first digit varies fastest. -/
def columnRank : (dimensions index : List Nat) → Nat
  | length :: rest, digit :: index => digit + length * columnRank rest index
  | _, _ => 0

theorem Within.reverse {dimensions index : List Nat} (within : Within dimensions index) :
    Within dimensions.reverse index.reverse :=
  List.forall₂_reverse_iff.2 within

theorem columnRank_append_singleton
    {dimensions index : List Nat} (sized : dimensions.length = index.length) (length digit : Nat) :
    columnRank (dimensions ++ [length]) (index ++ [digit]) =
      columnRank dimensions index + volume dimensions * digit := by
  induction dimensions generalizing index with
  | nil =>
      have none : index = [] := List.eq_nil_of_length_eq_zero sized.symm
      subst none
      simp [columnRank, volume]
  | cons first rest inductionHypothesis =>
      cases index with
      | nil => cases sized
      | cons head tail =>
          rw [List.cons_append, List.cons_append, columnRank, columnRank,
            inductionHypothesis (Nat.succ.inj sized), volume_cons]
          ring

/-- From the end, an index by columns is the index by rows. -/
theorem columnRank_reverse {dimensions index : List Nat} (within : Within dimensions index) :
    columnRank dimensions.reverse index.reverse = rowRank dimensions index := by
  induction within with
  | nil => rfl
  | cons _ behind inductionHypothesis =>
      have sized := (Within.reverse behind).length_eq
      rw [List.reverse_cons, List.reverse_cons, columnRank_append_singleton sized,
        inductionHypothesis, volume_reverse, rowRank]
      ring

theorem rowRank_reverse {dimensions index : List Nat} (within : Within dimensions index) :
    rowRank dimensions.reverse index.reverse = columnRank dimensions index := by
  rw [← columnRank_reverse within.reverse, List.reverse_reverse, List.reverse_reverse]

theorem columnRank_lt {dimensions index : List Nat} (within : Within dimensions index) :
    columnRank dimensions index < volume dimensions := by
  induction within with
  | nil => exact Nat.one_pos
  | @cons length digit rest tail inside _ inductionHypothesis =>
      calc columnRank (length :: rest) (digit :: tail)
          < length + length * columnRank rest tail := Nat.add_lt_add_right inside _
        _ = length * (columnRank rest tail + 1) := by ring
        _ ≤ length * volume rest := Nat.mul_le_mul_left length inductionHypothesis

/-! ## Indices of numbers -/

theorem within_indexOf
    {dimensions : List Nat} (positive : ∀ dimension ∈ dimensions, 0 < dimension) (number : Nat) :
    Within dimensions (indexOf dimensions number) := by
  induction dimensions generalizing number with
  | nil => exact .nil
  | cons length rest inductionHypothesis =>
      rw [List.forall_mem_cons] at positive
      exact .cons (Nat.mod_lt _ positive.1) (inductionHypothesis positive.2 _)

theorem columnRank_indexOf {dimensions : List Nat} {number : Nat}
    (inside : number < volume dimensions) :
    columnRank dimensions (indexOf dimensions number) = number := by
  induction dimensions generalizing number with
  | nil =>
      have zero : number = 0 := Nat.lt_one_iff.1 inside
      rw [zero]
      rfl
  | cons length rest inductionHypothesis =>
      rw [indexOf, columnRank, inductionHypothesis (Nat.div_lt_of_lt_mul inside)]
      exact Nat.mod_add_div number length

/-- No two indices have the same number. -/
theorem indexOf_columnRank {dimensions index : List Nat} (within : Within dimensions index) :
    indexOf dimensions (columnRank dimensions index) = index := by
  induction within with
  | nil => rfl
  | @cons length digit rest tail inside _ inductionHypothesis =>
      have positive : 0 < length := Nat.zero_lt_of_lt inside
      have first : (digit + length * columnRank rest tail) % length = digit := by
        rw [Nat.add_mul_mod_self_left, Nat.mod_eq_of_lt inside]
      have others : (digit + length * columnRank rest tail) / length = columnRank rest tail := by
        rw [Nat.add_mul_div_left _ _ positive, Nat.div_eq_of_lt inside, Nat.zero_add]
      rw [columnRank, indexOf, first, others, inductionHypothesis]

theorem rowRank_indexOf (dimensions : List Nat) (number : Nat) :
    rowRank dimensions (indexOf dimensions number) = placeOf dimensions number := by
  induction dimensions generalizing number with
  | nil => rfl
  | cons length rest inductionHypothesis =>
      rw [indexOf, rowRank, inductionHypothesis, placeOf]

/-! ## The table -/

section Table

variable {dimensions : List Nat}

/-- The entry of an index by columns is the index by rows. -/
theorem getElem?_columnMajor {index : List Nat} (within : Within dimensions index) :
    (columnMajor dimensions)[columnRank dimensions index]? = some (rowRank dimensions index) := by
  have inside := columnRank_lt within
  have some : volume dimensions ≠ 0 := Nat.ne_zero_of_lt inside
  rw [columnMajor, if_neg some, columnMajorPlaces_eq_map, List.getElem?_map,
    List.getElem?_range inside, Option.map_some, ← rowRank_indexOf, indexOf_columnRank within]

theorem exists_index_of_getElem? {turn place : Nat}
    (found : (columnMajor dimensions)[turn]? = some place) :
    ∃ index, Within dimensions index ∧
      columnRank dimensions index = turn ∧ rowRank dimensions index = place := by
  obtain ⟨inside, -⟩ := List.getElem?_eq_some_iff.1 found
  rw [length_columnMajor] at inside
  have within := within_indexOf (pos_of_volume_ne_zero (Nat.ne_zero_of_lt inside)) turn
  have counted := columnRank_indexOf inside
  have entry := getElem?_columnMajor within
  rw [counted, found, Option.some_inj] at entry
  exact ⟨indexOf dimensions turn, within, counted, entry.symm⟩

theorem getElem?_columnMajor_reverse {turn place : Nat}
    (found : (columnMajor dimensions)[turn]? = some place) :
    (columnMajor dimensions.reverse)[place]? = some turn := by
  obtain ⟨index, within, rfl, rfl⟩ := exists_index_of_getElem? found
  rw [← columnRank_reverse within, ← rowRank_reverse within]
  exact getElem?_columnMajor within.reverse

/-- With one dimension or none, the elements are sent as they are. -/
theorem columnMajor_of_length_le_one (few : dimensions.length ≤ 1) :
    columnMajor dimensions = List.range (volume dimensions) := by
  match dimensions, few with
  | [], _ => rfl
  | [length], _ =>
      by_cases none : length = 0
      · subst none
        rfl
      · simp [columnMajor, columnMajorPlaces, volume, none]

end Table

end Shape

namespace Value

/-! ## The table in the codec -/

section Orders

variable {shape words : List Nat} (sized : words.length = Shape.volume shape)

include sized

/-- Where no table is made, it would change nothing. -/
theorem sendingOrder_columnMajor :
    sendingOrder .columnMajor shape words = Shape.gather (Shape.columnMajor shape) words := by
  by_cases several : 1 < shape.length
  · simp only [sendingOrder, if_pos several]
  · have row := Shape.columnMajor_of_length_le_one (Nat.not_lt.1 several)
    simp only [sendingOrder, if_neg several, row, ← sized, Shape.gather_range]

theorem memoryOrder_columnMajor :
    memoryOrder .columnMajor shape words =
      Shape.scatter (Shape.columnMajor shape) words (List.replicate (Shape.volume shape) 0) := by
  have reversed : words.length = Shape.volume shape.reverse := by rwa [Shape.volume_reverse]
  rw [memoryOrder_eq, sendingOrder_columnMajor reversed, Shape.scatter_columnMajor sized]

end Orders

end Value

namespace Shape

/-! ## Main result -/

/-- What the table of an array is, and what the codec makes of it. -/
structure Columnwise (dimensions : List Nat) : Prop where
  /-- Counting up the digits of an index on machine words comes to the table. -/
  walked : columnMajor? dimensions = some (columnMajor dimensions)
  perm : (columnMajor dimensions).Perm (List.range dimensions.prod)
  /-- Every turn is that of exactly one index, -/
  turn : ∀ number < dimensions.prod,
    ∃! index, Within dimensions index ∧ columnRank dimensions index = number
  /-- and its entry is the place of this index. -/
  place : ∀ index, Within dimensions index →
    columnRank dimensions index < dimensions.prod ∧
      (columnMajor dimensions)[columnRank dimensions index]? = some (rowRank dimensions index)
  identity : dimensions.length ≤ 1 → columnMajor dimensions = List.range dimensions.prod
  /-- Although the codec makes no table for one dimension or none, it does what the table says. -/
  sent : ∀ words : List Nat, words.length = dimensions.prod →
    Value.sendingOrder .columnMajor dimensions words = gather (columnMajor dimensions) words ∧
      Value.memoryOrder .columnMajor dimensions words =
        scatter (columnMajor dimensions) words (List.replicate dimensions.prod 0)
  inverse : ∀ turn place : Nat, (columnMajor dimensions)[turn]? = some place ↔
    (columnMajor dimensions.reverse)[place]? = some turn

/-- The places of every array that has elements, as many as a machine word can count, are a
permutation: by columns of what lies by rows. -/
theorem columnwise_of_prod
    {dimensions : List Nat} (some : dimensions.prod ≠ 0) (small : dimensions.prod < 2 ^ 64) :
    Columnwise dimensions := by
  have volume := volume_eq_prod dimensions
  rw [← volume] at some small
  have positive := pos_of_volume_ne_zero some
  constructor
  case walked => exact columnMajor?_eq (elementCount_of_pos positive small) small
  case perm =>
    rw [← volume]
    exact perm_columnMajor dimensions
  case turn =>
    intro number inside
    rw [← volume] at inside
    refine ⟨indexOf dimensions number,
      ⟨within_indexOf positive number, columnRank_indexOf inside⟩, ?_⟩
    rintro index ⟨within, rfl⟩
    exact (indexOf_columnRank within).symm
  case place =>
    intro index within
    rw [← volume]
    exact ⟨columnRank_lt within, getElem?_columnMajor within⟩
  case identity =>
    rw [← volume]
    exact columnMajor_of_length_le_one
  case sent =>
    intro words sized
    rw [← volume] at sized ⊢
    exact ⟨Value.sendingOrder_columnMajor sized, Value.memoryOrder_columnMajor sized⟩
  case inverse =>
    intro turn place
    constructor
    · exact getElem?_columnMajor_reverse
    · intro found
      have back := getElem?_columnMajor_reverse found
      rwa [List.reverse_reverse] at back

/-- A cube with a dimension of one in it. -/
theorem columnwise_of_two_by_one_by_three :
    ([2, 1, 3] : List Nat).prod ≠ 0 ∧ ([2, 1, 3] : List Nat).prod < 2 ^ 64 ∧
      columnMajor [2, 1, 3] = [0, 3, 1, 4, 2, 5] ∧ columnMajor [3, 1, 2] = [0, 2, 4, 1, 3, 5] ∧
      Columnwise [2, 1, 3] :=
  ⟨by decide, by decide, by decide, by decide, columnwise_of_prod (by decide) (by decide)⟩

end Shape
end Spead
