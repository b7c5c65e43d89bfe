import Mathlib.Algebra.BigOperators.Ring.List
import Mathlib.Algebra.Order.BigOperators.Group.List
import Spead.Proofs.MachineWords
import Spead.Proofs.Value.Elements

/-!
The elements of an array one by one, on machine words.

Where the first index varies fastest, the index of an element is counted up digit by digit, and
every digit is multiplied by the step of its dimension. The places that this comes to are those of
`columnMajor`. None of them comes twice, so elements that are put there one after the other are in
the order of `memoryOrder`.
-/

namespace Spead
namespace Shape

/-! ## Steps and indices -/

/-- The steps of the indices. That of the last index is one, and each other step is the next one
times the next dimension. -/
def strides? : List Nat → Option (List Nat)
  | [] => some []
  | [_] => some [1]
  | _ :: next :: rest => do
      let behind ← strides? (next :: rest)
      let stride ← word? (behind.headD 1 * next)
      return stride :: behind

def offset? (index strides : List Nat) : Option Nat := do
  let parts ← (index.zip strides).mapM fun (digit, stride) => word? (digit * stride)
  sum? parts

/-- The next index. A digit that is full goes back to zero, and the one behind it is counted up. -/
def advance? : (dimensions index : List Nat) → Option (List Nat)
  | [], index => some index
  | _ :: _, [] => none
  | length :: dimensions, digit :: index => do
      let raised ← word? (digit + 1)
      if raised < length then
        return raised :: index
      else
        let behind ← advance? dimensions index
        return 0 :: behind

/-- The places of `count` elements, from the one with the given index on. -/
def walk? (dimensions strides : List Nat) : (count : Nat) → (index : List Nat) → Option (List Nat)
  | 0, _ => some []
  | count + 1, index => do
      let place ← offset? index strides
      let next ← advance? dimensions index
      let places ← walk? dimensions strides count next
      return place :: places

/-- The places of the elements of an array, as `columnMajor` lists them. An array without elements
is not walked through: its steps need not be words. -/
def columnMajor? (dimensions : List Nat) : Option (List Nat) := do
  let count ← elementCount dimensions
  if count = 0 then
    return []
  else
    let strides ← strides? dimensions
    walk? dimensions strides count (List.replicate dimensions.length 0)

def strides : List Nat → List Nat
  | [] => []
  | _ :: rest => volume rest :: strides rest

/-- The index of the element with the given number. -/
def indexOf : (dimensions : List Nat) → (number : Nat) → List Nat
  | [], _ => []
  | length :: rest, number => number % length :: indexOf rest (number / length)

/-- The place of the element with the given number. -/
def placeOf : (dimensions : List Nat) → (number : Nat) → Nat
  | [], _ => 0
  | length :: rest, number => number % length * volume rest + placeOf rest (number / length)

theorem indexOf_zero (dimensions : List Nat) :
    indexOf dimensions 0 = List.replicate dimensions.length 0 := by
  induction dimensions with
  | nil => rfl
  | cons length rest inductionHypothesis =>
      rw [indexOf, Nat.zero_mod, Nat.zero_div, inductionHypothesis]
      rfl

/-- The places of an array are those of its numbers in a row. -/
theorem columnMajorPlaces_eq_map (dimensions : List Nat) :
    columnMajorPlaces dimensions = (List.range (volume dimensions)).map (placeOf dimensions) := by
  induction dimensions with
  | nil => rfl
  | cons length rest inductionHypothesis =>
      rw [volume_cons, Nat.mul_comm, range_mul, columnMajorPlaces, inductionHypothesis,
        List.flatMap_map, List.map_flatMap]
      apply List.flatMap_congr
      intro number _
      rw [List.map_map]
      apply List.map_congr_left
      intro index inRange
      have inside := List.mem_range.1 inRange
      have digit : (number * length + index) % length = index := by
        rw [Nat.mul_comm, Nat.mul_add_mod, Nat.mod_eq_of_lt inside]
      have others : (number * length + index) / length = number := by
        rw [Nat.mul_comm, Nat.mul_add_div (by omega), Nat.div_eq_of_lt inside, Nat.add_zero]
      rw [Function.comp_apply, placeOf, digit, others]

section Positive

variable {dimensions : List Nat} (positive : ∀ dimension ∈ dimensions, 0 < dimension)

include positive

theorem placeOf_lt (number : Nat) : placeOf dimensions number < volume dimensions := by
  induction dimensions generalizing number with
  | nil => exact Nat.one_pos
  | cons length rest inductionHypothesis =>
      rw [List.forall_mem_cons] at positive
      have small := inductionHypothesis positive.2 (number / length)
      have digit : number % length + 1 ≤ length := Nat.mod_lt _ positive.1
      calc placeOf (length :: rest) number
          < number % length * volume rest + volume rest := Nat.add_lt_add_left small _
        _ = (number % length + 1) * volume rest := by ring
        _ ≤ length * volume rest := Nat.mul_le_mul_right _ digit

theorem sum_parts (number : Nat) :
    (((indexOf dimensions number).zip (strides dimensions)).map fun (digit, stride) =>
      digit * stride).sum = placeOf dimensions number := by
  induction dimensions generalizing number with
  | nil => rfl
  | cons length rest inductionHypothesis =>
      rw [List.forall_mem_cons] at positive
      rw [indexOf, strides, List.zip_cons_cons, List.map_cons, List.sum_cons,
        inductionHypothesis positive.2, placeOf]

variable (small : volume dimensions < wordLimit)

include small

theorem strides?_eq : strides? dimensions = some (strides dimensions) := by
  induction dimensions with
  | nil => rfl
  | cons first rest inductionHypothesis =>
      rw [List.forall_mem_cons] at positive
      have behind : volume rest < wordLimit :=
        (Nat.le_mul_of_pos_left _ positive.1).trans_lt small
      cases rest with
      | nil => rfl
      | cons next others =>
          rw [strides?, inductionHypothesis positive.2 behind]
          have stride : (strides (next :: others)).headD 1 * next = volume (next :: others) := by
            rw [volume_cons, Nat.mul_comm]
            rfl
          simp only [Option.bind_eq_bind, Option.bind_some, stride, word?_of_lt behind]
          rfl

theorem offset?_indexOf (number : Nat) :
    offset? (indexOf dimensions number) (strides dimensions) =
      some (placeOf dimensions number) := by
  have total := sum_parts positive number
  have bound := (placeOf_lt positive number).trans small
  rw [← total] at bound
  have parts :
      ((indexOf dimensions number).zip (strides dimensions)).mapM
          (fun (digit, stride) => word? (digit * stride)) =
        some (((indexOf dimensions number).zip (strides dimensions)).map fun (digit, stride) =>
          digit * stride) := by
    apply mapM_eq_some_map
    intro entry member
    refine word?_of_lt ((List.single_le_sum (fun _ _ => Nat.zero_le _) _ ?_).trans_lt bound)
    exact List.mem_map_of_mem member
  rw [offset?, parts, Option.bind_eq_bind, Option.bind_some, sum?_of_lt bound, total]

theorem advance?_indexOf (number : Nat) :
    advance? dimensions (indexOf dimensions number) = some (indexOf dimensions (number + 1)) := by
  induction dimensions generalizing number with
  | nil => rfl
  | cons length rest inductionHypothesis =>
      rw [List.forall_mem_cons] at positive
      have behind : volume rest < wordLimit :=
        (Nat.le_mul_of_pos_left _ positive.1).trans_lt small
      have short : length < wordLimit :=
        (Nat.le_mul_of_pos_right _ (volume_pos positive.2)).trans_lt small
      have digit : number % length < length := Nat.mod_lt _ positive.1
      have split := Nat.div_add_mod number length
      rw [indexOf, indexOf, advance?, word?_of_lt (by omega), Option.bind_eq_bind, Option.bind_some]
      by_cases room : number % length + 1 < length
      · have next : (number + 1) % length = number % length + 1 ∧
            (number + 1) / length = number / length := by
          rw [← split, Nat.add_assoc, Nat.mul_add_mod, Nat.mul_add_div positive.1,
            Nat.mul_add_mod, Nat.mul_add_div positive.1, Nat.mod_eq_of_lt room,
            Nat.div_eq_of_lt room, Nat.mod_mod, Nat.mod_div_self]
          simp
        rw [if_pos room, next.1, next.2]
        rfl
      · have full : number + 1 = length * (number / length + 1) := by
          rw [Nat.mul_add_one]
          omega
        have next : (number + 1) % length = 0 ∧ (number + 1) / length = number / length + 1 := by
          rw [full, Nat.mul_mod_right, Nat.mul_div_cancel_left _ positive.1]
          exact ⟨rfl, rfl⟩
        rw [if_neg room, inductionHypothesis positive.2 behind, next.1, next.2]
        rfl

theorem walk?_indexOf (count number : Nat) :
    walk? dimensions (strides dimensions) count (indexOf dimensions number) =
      some ((List.range' number count).map (placeOf dimensions)) := by
  induction count generalizing number with
  | zero => rfl
  | succ count inductionHypothesis =>
      rw [walk?, offset?_indexOf positive small, advance?_indexOf positive small]
      simp only [Option.bind_eq_bind, Option.bind_some, inductionHypothesis (number + 1)]
      rfl

end Positive

theorem pos_of_volume_ne_zero {dimensions : List Nat} (some : volume dimensions ≠ 0) :
    ∀ dimension ∈ dimensions, 0 < dimension := by
  intro dimension member
  apply Nat.pos_of_ne_zero
  rintro rfl
  exact some (List.prod_eq_zero member)

/-- The walk through an array that can be counted does not break, and comes to the places of the
array. -/
theorem columnMajor?_eq
    {dimensions : List Nat} {count : Nat} (counted : elementCount dimensions = some count)
    (small : count < wordLimit) :
    columnMajor? dimensions = some (columnMajor dimensions) := by
  have volume := elementCount_eq_some counted
  rw [columnMajor?, counted, Option.bind_eq_bind, Option.bind_some, columnMajor, ← volume]
  by_cases none : count = 0
  · rw [if_pos none, if_pos none]
    rfl
  · rw [volume] at none small
    have positive := pos_of_volume_ne_zero none
    rw [← volume] at none
    rw [if_neg none, if_neg none, strides?_eq positive small, Option.bind_eq_bind,
      Option.bind_some, ← indexOf_zero, walk?_indexOf positive small, columnMajorPlaces_eq_map,
      volume, List.range_eq_range']

/-! ## Elements put at their places -/

/-- The places of an array are all its places in another order. -/
theorem perm_columnMajor (dimensions : List Nat) :
    (columnMajor dimensions).Perm (List.range (volume dimensions)) := by
  unfold columnMajor
  split
  · next none => rw [none]; exact .nil
  · have all : List.range (volume dimensions) ⊆ columnMajorPlaces dimensions := by
      intro place member
      rw [← map_getD_columnMajorPlaces_reverse] at member
      obtain ⟨number, ofReverse, rfl⟩ := List.mem_map.1 member
      have inside : number < (columnMajorPlaces dimensions).length := by
        rw [length_columnMajorPlaces, ← volume_reverse]
        exact lt_volume_of_mem ofReverse
      rw [List.getD_eq_getElem _ _ inside]
      exact List.getElem_mem inside
    refine ((List.subperm_of_subset List.nodup_range all).perm_of_length_le ?_).symm
    rw [length_columnMajorPlaces, List.length_range]

/-- No place of an array comes twice. -/
theorem nodup_columnMajor (dimensions : List Nat) : (columnMajor dimensions).Nodup :=
  (perm_columnMajor dimensions).nodup_iff.2 List.nodup_range

theorem lt_volume_of_mem_columnMajor
    {dimensions : List Nat} {place : Nat} (member : place ∈ columnMajor dimensions) :
    place < volume dimensions :=
  List.mem_range.1 ((perm_columnMajor dimensions).mem_iff.1 member)

/-- Put words at their places, one after the other. -/
def scatter (places words held : List Nat) : List Nat :=
  (places.zip words).foldl (fun held entry => held.set entry.1 entry.2) held

theorem length_scatter (places words held : List Nat) :
    (scatter places words held).length = held.length := by
  unfold scatter
  induction places.zip words generalizing held with
  | nil => rfl
  | cons entry rest inductionHypothesis =>
      rw [List.foldl_cons, inductionHypothesis, List.length_set]

theorem getD_scatter_of_not_mem
    {places : List Nat} {place : Nat} (absent : place ∉ places) (words held : List Nat) :
    (scatter places words held).getD place 0 = held.getD place 0 := by
  induction places generalizing words held with
  | nil => rfl
  | cons first rest inductionHypothesis =>
      rw [List.mem_cons, not_or] at absent
      cases words with
      | nil => rfl
      | cons word words =>
          change (scatter rest words (held.set first word)).getD place 0 = _
          rw [inductionHypothesis absent.2, List.getD_eq_getElem?_getD, List.getD_eq_getElem?_getD,
            List.getElem?_set_ne (Ne.symm absent.1)]

/-- What has been put at places that do not come twice is found there. -/
theorem gather_scatter
    {places words held : List Nat} (distinct : places.Nodup)
    (inside : ∀ place ∈ places, place < held.length) (sized : words.length = places.length) :
    gather places (scatter places words held) = words := by
  rw [gather_eq]
  induction places generalizing words held with
  | nil => exact (List.eq_nil_of_length_eq_zero sized).symm
  | cons first rest inductionHypothesis =>
      cases words with
      | nil => cases sized
      | cons word words =>
          rw [List.nodup_cons] at distinct
          rw [List.forall_mem_cons] at inside
          have others : ∀ place ∈ rest, place < (held.set first word).length := by
            rw [List.length_set]
            exact inside.2
          have one : (scatter rest words (held.set first word)).getD first 0 = word := by
            rw [getD_scatter_of_not_mem distinct.1,
              List.getD_eq_getElem _ _ (by rw [List.length_set]; exact inside.1),
              List.getElem_set_self]
          change (scatter rest words (held.set first word)).getD first 0 ::
            rest.map ((scatter rest words (held.set first word)).getD · 0) = _
          rw [one, inductionHypothesis distinct.2 others (Nat.succ.inj sized)]

/-- Words that are put at the places of an array by columns are in rows. -/
theorem scatter_columnMajor
    {dimensions words : List Nat} (sized : words.length = volume dimensions) :
    scatter (columnMajor dimensions) words (List.replicate (volume dimensions) 0) =
      gather (columnMajor dimensions.reverse) words := by
  have empty : (List.replicate (volume dimensions) 0).length = volume dimensions :=
    List.length_replicate
  have inside : ∀ place ∈ columnMajor dimensions,
      place < (List.replicate (volume dimensions) 0).length := by
    rw [empty]
    exact fun place member => lt_volume_of_mem_columnMajor member
  have places : words.length = (columnMajor dimensions).length := by
    rw [length_columnMajor, sized]
  have found := gather_scatter (nodup_columnMajor dimensions) inside places
  have stored := (length_scatter (columnMajor dimensions) words _).trans empty
  have back := gather_columnMajor_reverse stored
  rw [found] at back
  exact back.symm

end Shape

namespace Value

def put? (held : List Nat) (place word : Nat) : Option (List Nat) :=
  if place < held.length then some (held.set place word) else none

/-- The place of the element with the given number. Elements for which no places are listed are in
a row. -/
def listedPlace? (places : Option (List Nat)) (number : Nat) : Option Nat :=
  match places with
  | some places => places[number]?
  | none => some number

def placeWords? (places : Option (List Nat)) (count : Nat) (words : List Nat) :
    Option (List Nat) :=
  words.zipIdx.foldlM (fun held (word, number) => do
    let place ← listedPlace? places number
    put? held place word) (List.replicate count 0)

theorem foldlM_put?
    {places : List Nat} {placeOf? : Nat → Option Nat}
    (located : ∀ number < places.length, placeOf? number = places[number]?) {words : List Nat}
    {start : Nat} (sized : places.length = start + words.length) {held : List Nat}
    (inside : ∀ place ∈ places, place < held.length) :
    (words.zipIdx start).foldlM (fun held entry => do
        let place ← placeOf? entry.2
        put? held place entry.1) held =
      some (Shape.scatter (places.drop start) words held) := by
  induction words generalizing start held with
  | nil =>
      rw [Shape.scatter, List.zip_nil_right]
      rfl
  | cons word rest inductionHypothesis =>
      rw [List.length_cons] at sized
      have first : start < places.length := by omega
      have place := inside _ (List.getElem_mem first)
      have others : ∀ place ∈ places, place < (held.set places[start] word).length := by
        rw [List.length_set]
        exact inside
      rw [List.zipIdx_cons, List.foldlM_cons, located start first, List.getElem?_eq_getElem first,
        List.drop_eq_getElem_cons first]
      simp only [Option.bind_eq_bind, Option.bind_some, put?, if_pos place]
      exact inductionHypothesis (by omega) others

section Places

variable {count : Nat} {words : List Nat}

theorem placeWords?_some
    {places : List Nat} (sized : places.length = words.length)
    (inside : ∀ place ∈ places, place < count) :
    placeWords? (some places) count words =
      some (Shape.scatter places words (List.replicate count 0)) := by
  refine foldlM_put? (fun _ _ => rfl) ?_ ?_
  · rw [sized, Nat.zero_add]
  · rwa [List.length_replicate]

theorem placeWords?_none (sized : words.length = count) :
    placeWords? none count words = some words := by
  have located : ∀ number < (List.range count).length,
      listedPlace? none number = (List.range count)[number]? := by
    intro number inside
    rw [List.length_range] at inside
    rw [List.getElem?_range inside]
    rfl
  have inside : ∀ place ∈ List.range count, place < (List.replicate count 0).length := by
    intro place member
    rw [List.length_replicate]
    exact List.mem_range.1 member
  have put : placeWords? none count words =
      some (Shape.scatter (List.range count) words (List.replicate count 0)) := by
    refine foldlM_put? located ?_ inside
    rw [List.length_range, sized, Nat.zero_add]
  have held : (Shape.scatter (List.range count) words (List.replicate count 0)).length = count := by
    rw [Shape.length_scatter, List.length_replicate]
  have rowLength : words.length = (List.range count).length := by rw [List.length_range, sized]
  have found := Shape.gather_scatter List.nodup_range inside rowLength
  have row := Shape.gather_range (Shape.scatter (List.range count) words (List.replicate count 0))
  rw [held, found] at row
  rw [put, ← row]

end Places

/-! ## Elements -/

/-- The word of an element that is cut out of the bytes. -/
def decodeWord? (type : ElementType) (piece : Bytes) : Option Nat := do
  let bytes ← piece.slice? 0 type.size
  return decodeWord type bytes

/-- The places of the elements of an array, if they are not sent in a row. -/
def sentPlaces? (order : ElementOrder) (shape : List Nat) : Option (Option (List Nat)) :=
  match order with
  | .rowMajor => some none
  | .columnMajor => if 1 < shape.length then (Shape.columnMajor? shape).map some else some none

/-- The words of an array in the order in memory, from the bytes of its elements. -/
def decodeElements?
    (type : ElementType) (order : ElementOrder) (shape : List Nat) (count : Nat) (bytes : Bytes) :
    Option (List Nat) := do
  let places ← sentPlaces? order shape
  let words ← ((Bytes.wholeChunks type.size bytes).take count).mapM (decodeWord? type)
  placeWords? places count words

section Elements

variable {type : ElementType} {shape : List Nat} {count : Nat} {bytes : Bytes}

theorem mapM_decodeWord?
    (sized : bytes.length = count * type.size) :
    ((Bytes.wholeChunks type.size bytes).take count).mapM (decodeWord? type) =
      some (sentWords type count bytes) := by
  have positive := (ElementKind.size_of_supports type.supported).1
  have whole : (Bytes.wholeChunks type.size bytes).take count =
      Bytes.chunks type.size count bytes := by
    rw [Bytes.wholeChunks, sized, Nat.mul_div_cancel _ positive, List.take_of_length_le]
    exact Nat.le_of_eq (Bytes.length_chunks _ _ _)
  rw [whole]
  apply mapM_eq_some_map
  intro piece member
  have length := Bytes.length_of_mem_chunks (Nat.le_of_eq sized.symm) piece member
  rw [decodeWord?, Bytes.slice?_of_le (Nat.zero_le _) (Nat.le_of_eq length.symm), ← length,
    List.take_length]
  rfl

/-- Elements that are put at their places one by one are in the order in memory. -/
theorem decodeElements?_eq
    (counted : Shape.elementCount shape = some count) (small : count < wordLimit)
    (sized : bytes.length = count * type.size) (order : ElementOrder) :
    decodeElements? type order shape count bytes =
      some (memoryOrder order shape (sentWords type count bytes)) := by
  have words := length_sentWords type count bytes
  have volume := Shape.elementCount_eq_some counted
  rw [decodeElements?, mapM_decodeWord? sized]
  cases order with
  | rowMajor => exact placeWords?_none words
  | columnMajor =>
      unfold sentPlaces? memoryOrder
      by_cases several : 1 < shape.length
      · simp only [if_pos several, Shape.columnMajor?_eq counted small, Option.map_some,
          Option.bind_eq_bind, Option.bind_some]
        have places : (Shape.columnMajor shape).length = (sentWords type count bytes).length := by
          rw [Shape.length_columnMajor, words, volume]
        have inside : ∀ place ∈ Shape.columnMajor shape, place < count := by
          rw [volume]
          exact fun place member => Shape.lt_volume_of_mem_columnMajor member
        rw [placeWords?_some places inside, Option.some_inj, volume]
        exact Shape.scatter_columnMajor (by rw [length_sentWords])
      · simp only [if_neg several, Option.bind_eq_bind, Option.bind_some]
        exact placeWords?_none words

end Elements

end Value
end Spead
