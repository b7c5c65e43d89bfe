import Mathlib.Data.List.GetD
import Mathlib.Data.List.Range
import Mathlib.Tactic.Ring
import Spead.Proofs.Shape
import Spead.Value.Codec

/-!
Elements taken from one order to the other and back.

The places of the reversed shape undo those of the shape. Both lists are read as numbers with one
digit for each dimension: `columnMajorPlaces` reverses the digits, so that doing it twice, with
the bases reversed as well, ends where it began.
-/

namespace Spead
namespace Shape

/-! ## Lists in pieces of one length -/

theorem getElem?_flatMap_of_sized
    {item part : Type} {pieces : item → List part} {size : Nat}
    (sized : ∀ item, (pieces item).length = size) (items : List item) (place : Nat) {offset : Nat}
    (inside : offset < size) :
    (items.flatMap pieces)[place * size + offset]? =
      items[place]?.bind fun item => (pieces item)[offset]? := by
  induction items generalizing place with
  | nil => simp
  | cons item rest inductionHypothesis =>
      rw [List.flatMap_cons]
      cases place with
      | zero =>
          have first : offset < (pieces item).length := by rwa [sized]
          rw [Nat.zero_mul, Nat.zero_add, List.getElem?_append_left first]
          rfl
      | succ place =>
          have later : (place + 1) * size + offset = size + (place * size + offset) := by ring
          rw [later, ← sized item, List.getElem?_append_right (Nat.le_add_right _ _),
            Nat.add_sub_cancel_left, sized, inductionHypothesis, List.getElem?_cons_succ]

theorem range_mul (count size : Nat) :
    List.range (count * size) =
      (List.range count).flatMap fun place => (List.range size).map (place * size + ·) := by
  induction count with
  | zero => simp
  | succ count inductionHypothesis =>
      rw [Nat.succ_mul, List.range_add, inductionHypothesis, List.range_succ, List.flatMap_append,
        List.flatMap_singleton]

/-! ## Places -/

theorem lt_volume_of_mem
    {dimensions : List Nat} {place : Nat} (member : place ∈ columnMajorPlaces dimensions) :
    place < volume dimensions := by
  induction dimensions generalizing place with
  | nil =>
      rw [columnMajorPlaces, List.mem_singleton] at member
      subst member
      exact Nat.one_pos
  | cons length rest inductionHypothesis =>
      simp only [columnMajorPlaces, List.mem_flatMap, List.mem_map, List.mem_range] at member
      obtain ⟨inner, ofRest, index, inside, rfl⟩ := member
      have small := inductionHypothesis ofRest
      calc index * volume rest + inner < index * volume rest + volume rest := by omega
        _ = (index + 1) * volume rest := by ring
        _ ≤ length * volume rest := Nat.mul_le_mul_right _ inside

/-- A last dimension varies slowest, and its steps are single places. -/
theorem columnMajorPlaces_append_singleton (dimensions : List Nat) (length : Nat) :
    columnMajorPlaces (dimensions ++ [length]) =
      (List.range length).flatMap fun index =>
        (columnMajorPlaces dimensions).map (· * length + index) := by
  induction dimensions with
  | nil =>
      simp only [List.nil_append, columnMajorPlaces, volume, List.foldr_nil]
      simp
  | cons first rest inductionHypothesis =>
      have step : volume (rest ++ [length]) = volume rest * length := by
        simp [volume_eq_prod]
      simp only [List.cons_append, columnMajorPlaces, inductionHypothesis, step,
        List.flatMap_assoc, List.flatMap_map, List.map_flatMap, List.map_map]
      apply List.flatMap_congr
      intro index _
      apply List.flatMap_congr
      intro place _
      apply List.map_congr_left
      intro outer _
      simp only [Function.comp_apply]
      ring

theorem getD_columnMajorPlaces_cons
    {length index place : Nat} {rest : List Nat} (inside : index < length)
    (known : place < volume rest) :
    (columnMajorPlaces (length :: rest)).getD (place * length + index) 0 =
      index * volume rest + (columnMajorPlaces rest).getD place 0 := by
  have held : place < (columnMajorPlaces rest).length := by rwa [length_columnMajorPlaces]
  have sized (inner : Nat) :
      ((List.range length).map fun outer => outer * volume rest + inner).length = length := by
    rw [List.length_map, List.length_range]
  rw [List.getD_eq_getElem?_getD, columnMajorPlaces,
    getElem?_flatMap_of_sized sized _ _ inside, List.getElem?_eq_getElem held,
    List.getD_eq_getElem _ _ held, Option.bind_some, List.getElem?_map,
    List.getElem?_range inside]
  rfl

/-- Looked up at the places of the reversed shape, the places of a shape are all in a row. -/
theorem map_getD_columnMajorPlaces_reverse (dimensions : List Nat) :
    (columnMajorPlaces dimensions.reverse).map ((columnMajorPlaces dimensions).getD · 0) =
      List.range (volume dimensions) := by
  induction dimensions with
  | nil => rfl
  | cons length rest inductionHypothesis =>
      rw [List.reverse_cons, columnMajorPlaces_append_singleton, volume_cons, range_mul,
        ← inductionHypothesis, List.map_flatMap]
      apply List.flatMap_congr
      intro index inRange
      rw [List.map_map, List.map_map]
      apply List.map_congr_left
      intro place member
      have known : place < volume rest := by
        rw [← volume_reverse]
        exact lt_volume_of_mem member
      exact getD_columnMajorPlaces_cons (List.mem_range.1 inRange) known

/-! ## Elements at places -/

theorem gather_eq (places words : List Nat) : gather places words = places.map (words.getD · 0) := by
  simp [gather]

theorem eq_zero_or_mem_of_mem_gather
    {places words : List Nat} {word : Nat} (member : word ∈ gather places words) :
    word = 0 ∨ word ∈ words := by
  rw [gather_eq] at member
  obtain ⟨place, _, rfl⟩ := List.mem_map.1 member
  by_cases inside : place < words.length
  · rw [List.getD_eq_getElem _ _ inside]
    exact Or.inr (List.getElem_mem inside)
  · rw [List.getD_eq_default _ _ (Nat.le_of_not_lt inside)]
    exact Or.inl rfl

/-- In a row, all elements are taken as they are. -/
theorem gather_range (words : List Nat) : gather (List.range words.length) words = words := by
  rw [gather_eq]
  apply List.ext_getElem
  · simp
  · intro place _ inside
    rw [List.getElem_map, List.getElem_range, List.getD_eq_getElem _ _ inside]

/-- The places of the reversed shape take all elements back. -/
theorem gather_columnMajor_reverse
    {dimensions words : List Nat} (counted : words.length = volume dimensions) :
    gather (columnMajor dimensions.reverse) (gather (columnMajor dimensions) words) = words := by
  unfold columnMajor
  rw [volume_reverse]
  by_cases empty : volume dimensions = 0
  · rw [if_pos empty, if_pos empty, gather_eq]
    rw [empty] at counted
    exact (List.eq_nil_of_length_eq_zero counted).symm
  · rw [if_neg empty, if_neg empty]
    calc gather (columnMajorPlaces dimensions.reverse) (gather (columnMajorPlaces dimensions) words)
        = ((columnMajorPlaces dimensions.reverse).map ((columnMajorPlaces dimensions).getD · 0)).map
            (words.getD · 0) := by
          rw [gather_eq, gather_eq, List.map_map]
          apply List.map_congr_left
          intro place member
          have inside : place < (columnMajorPlaces dimensions).length := by
            rw [length_columnMajorPlaces, ← volume_reverse]
            exact lt_volume_of_mem member
          rw [Function.comp_apply, List.getD_eq_getElem _ _ inside,
            List.getD_eq_getElem _ _ (by rwa [List.length_map]), List.getElem_map]
      _ = (List.range words.length).map (words.getD · 0) := by
          rw [map_getD_columnMajorPlaces_reverse, counted]
      _ = words := by rw [← gather_eq, gather_range]

end Shape

namespace Value

section Orders

variable {shape words : List Nat}

/-- Elements are taken back as those of the reversed shape are sent. -/
theorem memoryOrder_eq (order : ElementOrder) (shape words : List Nat) :
    memoryOrder order shape words = sendingOrder order shape.reverse words := by
  cases order with
  | rowMajor => rfl
  | columnMajor => rw [memoryOrder, sendingOrder, List.length_reverse]

theorem memoryOrder_sendingOrder
    (counted : words.length = Shape.volume shape) (order : ElementOrder) :
    memoryOrder order shape (sendingOrder order shape words) = words := by
  cases order with
  | rowMajor => rfl
  | columnMajor =>
      unfold memoryOrder sendingOrder
      by_cases several : 1 < shape.length
      · simp only [if_pos several]
        exact Shape.gather_columnMajor_reverse counted
      · simp only [if_neg several]

theorem sendingOrder_memoryOrder
    (counted : words.length = Shape.volume shape) (order : ElementOrder) :
    sendingOrder order shape (memoryOrder order shape words) = words := by
  rw [← Shape.volume_reverse] at counted
  have back := memoryOrder_sendingOrder counted order
  rwa [memoryOrder_eq, List.reverse_reverse, ← memoryOrder_eq] at back

theorem eq_zero_or_mem_of_mem_sendingOrder
    {order : ElementOrder} {word : Nat} (member : word ∈ sendingOrder order shape words) :
    word = 0 ∨ word ∈ words := by
  cases order with
  | rowMajor => exact Or.inr member
  | columnMajor =>
      unfold sendingOrder at member
      by_cases several : 1 < shape.length
      · simp only [if_pos several] at member
        exact Shape.eq_zero_or_mem_of_mem_gather member
      · simp only [if_neg several] at member
        exact Or.inr member

end Orders

end Value
end Spead
