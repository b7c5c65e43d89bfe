import Mathlib.Algebra.BigOperators.Ring.List
import Spead.Proofs.Value.Transport

/-!
Which shapes are accepted, and in which order of their dimensions.

The dimensions of a shape are multiplied from the first to the last, and all products on the way
have to be words. A zero makes every product behind it zero, so that only the dimensions in front
of it can be too large. Hence an array without elements may be refused although it is accepted with
its dimensions in another order. `OrderFree` are the shapes for which this cannot happen: all
without a zero, and those whose other dimensions can be multiplied with each other.
-/

namespace Spead
namespace Shape

/-! ## Shapes for which the order does not matter -/

/-- The number of elements if empty dimensions are passed over. -/
def solidVolume (dimensions : List Nat) : Nat :=
  volume (dimensions.filter (· ≠ 0))

/-- Beside an empty dimension, the others can be multiplied with each other. -/
def OrderFree (dimensions : List Nat) : Prop :=
  0 ∈ dimensions → solidVolume dimensions < wordLimit

theorem solidVolume_perm {left right : List Nat} (perm : left.Perm right) :
    solidVolume left = solidVolume right :=
  (perm.filter _).prod_eq

theorem OrderFree.perm
    {left right : List Nat} (free : OrderFree left) (perm : left.Perm right) : OrderFree right := by
  intro empty
  rw [← solidVolume_perm perm]
  exact free (perm.mem_iff.2 empty)

section Counted

variable {dimensions : List Nat}

theorem solidVolume_cons_of_ne {length : Nat} (solid : length ≠ 0) :
    solidVolume (length :: dimensions) = length * solidVolume dimensions := by
  rw [solidVolume, List.filter_cons_of_pos (by simp [solid]), volume_cons, solidVolume]

theorem solidVolume_pos (dimensions : List Nat) : 0 < solidVolume dimensions := by
  apply volume_pos
  intro dimension member
  exact Nat.pos_of_ne_zero (of_decide_eq_true (List.mem_filter.1 member).2)

theorem volume_takeWhile_le (dimensions : List Nat) :
    volume (dimensions.takeWhile (· ≠ 0)) ≤ solidVolume dimensions := by
  induction dimensions with
  | nil => exact Nat.le_refl _
  | cons length rest inductionHypothesis =>
      by_cases empty : length = 0
      · rw [List.takeWhile_cons_of_neg (by simp [empty])]
        exact solidVolume_pos _
      · rw [List.takeWhile_cons_of_pos (by simp [empty]), volume_cons, solidVolume_cons_of_ne empty]
        exact Nat.mul_le_mul_left length inductionHypothesis

theorem takeWhile_of_not_mem (solid : 0 ∉ dimensions) :
    dimensions.takeWhile (· ≠ 0) = dimensions := by
  apply List.takeWhile_eq_self_iff.2
  intro dimension member
  exact decide_eq_true (ne_of_mem_of_not_mem member solid)

theorem solidVolume_of_not_mem (solid : 0 ∉ dimensions) :
    solidVolume dimensions = volume dimensions := by
  have all : dimensions.filter (· ≠ 0) = dimensions := by
    apply List.filter_eq_self.2
    intro dimension member
    exact decide_eq_true (ne_of_mem_of_not_mem member solid)
  rw [solidVolume, all]

/-- What is counted does not depend on where a zero stands, but on the other dimensions only. -/
theorem elementCount_of_orderFree (free : OrderFree dimensions) :
    elementCount dimensions =
      if solidVolume dimensions < wordLimit then some (volume dimensions) else none := by
  by_cases small : solidVolume dimensions < wordLimit
  · rw [if_pos small]
    exact elementCount_eq_some_iff.2 ⟨rfl, (volume_takeWhile_le dimensions).trans_lt small⟩
  · rw [if_neg small, Option.eq_none_iff_forall_ne_some]
    intro count counted
    have solid : 0 ∉ dimensions := mt free small
    have front := (elementCount_eq_some_iff.1 counted).2
    rw [takeWhile_of_not_mem solid, ← solidVolume_of_not_mem solid] at front
    exact small front

theorem elementCount_perm
    {other : List Nat} (free : OrderFree dimensions) (perm : other.Perm dimensions) :
    elementCount other = elementCount dimensions := by
  rw [elementCount_of_orderFree free, elementCount_of_orderFree (free.perm perm.symm),
    solidVolume_perm perm, volume_eq_prod, volume_eq_prod, perm.prod_eq]

theorem solidVolume_lt_of_counted
    (free : OrderFree dimensions) {count : Nat} (counted : elementCount dimensions = some count) :
    solidVolume dimensions < wordLimit := by
  rw [elementCount_of_orderFree free, Option.ite_none_right_eq_some] at counted
  exact counted.1

theorem elementCount_of_volume_lt
    (free : OrderFree dimensions) (small : volume dimensions < wordLimit) :
    elementCount dimensions = some (volume dimensions) := by
  have solidSmall : solidVolume dimensions < wordLimit := by
    by_cases empty : 0 ∈ dimensions
    · exact free empty
    · rwa [solidVolume_of_not_mem empty]
  rw [elementCount_of_orderFree free, if_pos solidSmall]

end Counted

/-! ## Shapes for which it does -/

section Order

variable {shape : List Dimension}

theorem fixedDimensions_perm {other : List Dimension} (perm : other.Perm shape) :
    (fixedDimensions other).Perm (fixedDimensions shape) :=
  perm.filterMap id

theorem fixedDimensions_append (front back : List Dimension) :
    fixedDimensions (front ++ back) = fixedDimensions front ++ fixedDimensions back :=
  List.filterMap_append

theorem fixedDimensions_map_some (dimensions : List Nat) :
    fixedDimensions (dimensions.map some) = dimensions := by
  simp [fixedDimensions]

/-- With the zero in front, there is nothing to multiply. -/
theorem exists_perm_counted (empty : some 0 ∈ shape) :
    ∃ other, other.Perm shape ∧ elementCount (fixedDimensions other) = some 0 := by
  refine ⟨some 0 :: shape.erase (some 0), (List.perm_cons_erase empty).symm, ?_⟩
  rw [fixedDimensions_some, elementCount_eq_some_iff, volume_cons, Nat.zero_mul,
    List.takeWhile_cons_of_neg (by decide)]
  exact ⟨rfl, by decide⟩

theorem fixedDimensions_filter (shape : List Dimension) :
    fixedDimensions (shape.filter (· ≠ some 0)) = (fixedDimensions shape).filter (· ≠ 0) := by
  induction shape with
  | nil => rfl
  | cons dimension rest inductionHypothesis =>
      cases dimension with
      | none =>
          rw [List.filter_cons_of_pos (by decide), fixedDimensions_none, fixedDimensions_none,
            inductionHypothesis]
      | some length =>
          rw [fixedDimensions_some]
          by_cases empty : length = 0
          · rw [List.filter_cons_of_neg (by simp [empty]),
              List.filter_cons_of_neg (by simp [empty]), inductionHypothesis]
          · rw [List.filter_cons_of_pos (by simp [empty]),
              List.filter_cons_of_pos (by simp [empty]), fixedDimensions_some, inductionHypothesis]

/-- With all zeros at the end, everything else is multiplied. -/
theorem exists_perm_refused (large : wordLimit ≤ solidVolume (fixedDimensions shape)) :
    ∃ other, other.Perm shape ∧ elementCount (fixedDimensions other) = none := by
  refine ⟨shape.filter (· ≠ some 0) ++ shape.filter (fun dimension => !decide (dimension ≠ some 0)),
    List.filter_append_perm _ shape, ?_⟩
  rw [Option.eq_none_iff_forall_ne_some]
  intro count counted
  have front := (elementCount_eq_some_iff.1 counted).2
  have kept : ∀ dimension ∈ (fixedDimensions shape).filter (· ≠ 0), decide (dimension ≠ 0) = true :=
    fun _ member => (List.mem_filter.1 member).2
  rw [fixedDimensions_append, fixedDimensions_filter, List.takeWhile_append_of_pos kept, volume_eq_prod,
    List.prod_append] at front
  refine absurd front (Nat.not_lt.2 (large.trans ?_))
  -- what stands behind can only make the product larger
  exact Nat.le_mul_of_pos_right _ (volume_pos pos_of_mem_takeWhile)

end Order

/-! ## Shapes that are read -/

section Fill

variable {shape : List Dimension}

theorem solidVolume_fill_zero (shape : List Dimension) :
    solidVolume (fill 0 shape) = solidVolume (fixedDimensions shape) := by
  have same : (fill 0 shape).filter (· ≠ 0) = (fixedDimensions shape).filter (· ≠ 0) := by
    induction shape with
    | nil => rfl
    | cons dimension rest inductionHypothesis =>
        cases dimension with
        | none =>
            rw [fill_cons, fixedDimensions_none, ← inductionHypothesis]
            rfl
        | some length =>
            rw [fill_cons, fixedDimensions_some, Option.getD_some, List.filter_cons,
              List.filter_cons, inductionHypothesis]
  rw [solidVolume, same, solidVolume]

/-- The variable dimension is found to be zero where the others hold nothing. -/
theorem OrderFree.fill
    (free : OrderFree (fixedDimensions shape)) {count length : Nat}
    (counted : elementCount (fixedDimensions shape) = some count)
    (vanishes : count = 0 → length = 0) :
    OrderFree (fill length shape) := by
  intro empty
  by_cases vanished : length = 0
  · rw [vanished, solidVolume_fill_zero]
    exact solidVolume_lt_of_counted free counted
  · have zero : some 0 ∈ shape := by
      by_contra nonzero
      exact Nat.lt_irrefl 0 (pos_of_mem_fill nonzero (Nat.pos_of_ne_zero vanished) 0 empty)
    rw [← volume_fixedDimensions_eq_zero_iff, ← elementCount_eq_some counted] at zero
    exact absurd (vanishes zero) vanished

end Fill

end Shape

namespace Descriptor

/-! ## Descriptors -/

section Perm

variable {descriptor : Descriptor} {shape : List Dimension}
  (perm : shape.Perm descriptor.shape)

include perm

theorem isVariable_perm : isVariable { descriptor with shape } = descriptor.isVariable :=
  perm.any_eq

variable (free : Shape.OrderFree (Shape.fixedDimensions descriptor.shape))

include free

theorem unitBits_perm : unitBits { descriptor with shape } = descriptor.unitBits := by
  have counted := Shape.elementCount_perm free (Shape.fixedDimensions_perm perm)
  simp only [unitBits, countFor, counted]
  rfl

theorem check_perm : check { descriptor with shape } = descriptor.check := by
  have variableCount : Shape.variableCount shape = Shape.variableCount descriptor.shape :=
    perm.countP_eq _
  simp only [check, unitBits_perm perm free, variableCount]

end Perm

theorem exists_make_iff
    {id : Nat} {name description : String} {shape : List Dimension} {encoding : Encoding} :
    (∃ made, make id name description shape encoding = .ok made) ↔
      check { id, name, description, shape, encoding } = .ok () := by
  simp only [make, Except.bind_eq_ok_iff]
  constructor
  · rintro ⟨_, _, checked, _⟩
    exact checked
  · intro checked
    exact ⟨_, (), checked, rfl⟩

end Descriptor

namespace Value

/-! ## Values -/

variable {descriptor : Descriptor} {bytes : Bytes}

theorem exists_make_iff {shape : List Nat} {content : Content} :
    (∃ value, make shape content = .ok value) ↔
      Shape.elementCount shape = some content.count := by
  unfold make
  by_cases counted : Shape.elementCount shape = some content.count
  · simp [counted]
  · simp [counted]

theorem exists_decode_iff_counted :
    (∃ value, decode descriptor bytes = .ok value) ↔
      ∃ dimensions count, shapeOf descriptor bytes.length = .ok dimensions ∧
        Shape.elementCount dimensions = some count ∧
        count * descriptor.encoding.bits < wordLimit ∧
        Descriptor.bytesFor (count * descriptor.encoding.bits) ≤ bytes.length := by
  constructor
  · rintro ⟨value, decoded⟩
    obtain ⟨bits, read⟩ := decode_eq_ok decoded
    obtain ⟨small, rfl⟩ := bitsFor_eq_ok_iff.1 read.sized
    exact ⟨_, _, read.shape, countFor_eq_ok_iff.1 read.counted, small, read.enough⟩
  · rintro ⟨dimensions, count, ofShape, counted, small, enough⟩
    exact exists_decode ofShape counted small enough

/-- The variable dimension is found by the number of the fixed elements. -/
theorem exists_of_variableLength
    {length dimension : Nat} (found : variableLength descriptor length = .ok dimension) :
    ∃ count, Shape.elementCount (Shape.fixedDimensions descriptor.shape) = some count ∧
      (count = 0 → dimension = 0) := by
  unfold variableLength at found
  obtain ⟨unit, ofUnit, found⟩ := Except.bind_eq_ok_iff.1 found
  obtain ⟨count, counted, _, rfl⟩ := unitBits_eq_ok_iff.1 ofUnit
  refine ⟨count, counted, ?_⟩
  rintro rfl
  rw [Nat.zero_mul, if_pos rfl] at found
  cases found
  rfl

theorem exists_count_of_decode (accepted : ∃ value, decode descriptor bytes = .ok value) :
    ∃ count, Shape.elementCount (Shape.fixedDimensions descriptor.shape) = some count := by
  obtain ⟨dimensions, count, ofShape, counted, _⟩ := exists_decode_iff_counted.1 accepted
  cases isVariable : descriptor.isVariable with
  | false =>
      rw [shapeOf_of_fixed isVariable] at ofShape
      cases ofShape
      exact ⟨count, counted⟩
  | true =>
      unfold shapeOf at ofShape
      rw [isVariable] at ofShape
      obtain ⟨_, found, _⟩ := Except.bind_eq_ok_iff.1 ofShape
      obtain ⟨fixedCount, fixedCounted, _⟩ := exists_of_variableLength found
      exact ⟨fixedCount, fixedCounted⟩

/-- Where the fixed dimensions hold nothing, no bytes are needed. -/
theorem exists_decode_nil
    (hollow : Shape.elementCount (Shape.fixedDimensions descriptor.shape) = some 0) :
    ∃ value, decode descriptor [] = .ok value := by
  have unit : descriptor.unitBits = .ok 0 :=
    unitBits_eq_ok_iff.2 ⟨0, hollow, by simp [wordLimit], (Nat.zero_mul _).symm⟩
  obtain ⟨dimensions, ofShape, counted⟩ : ∃ dimensions,
      shapeOf descriptor 0 = .ok dimensions ∧ Shape.elementCount dimensions = some 0 := by
    cases isVariable : descriptor.isVariable with
    | false => exact ⟨_, shapeOf_of_fixed isVariable 0, hollow⟩
    | true =>
        have found : variableLength descriptor 0 = .ok 0 := by
          unfold variableLength
          rw [unit]
          rfl
        refine ⟨_, shapeOf_of_variable isVariable found, ?_⟩
        obtain ⟨filled, counted⟩ := Shape.exists_elementCount_fill_zero hollow
        have empty : some 0 ∈ descriptor.shape :=
          Shape.volume_fixedDimensions_eq_zero_iff.1 (Shape.elementCount_eq_some hollow).symm
        have zero : 0 ∈ Shape.fill 0 descriptor.shape := List.mem_map_of_mem empty
        rw [counted, Shape.elementCount_eq_some counted, Shape.volume_eq_prod,
          List.prod_eq_zero zero]
  refine exists_decode_iff_counted.2 ⟨dimensions, 0, ofShape, counted, ?_, ?_⟩
  · rw [Nat.zero_mul]
    decide
  · rw [Nat.zero_mul]
    decide

section Perm

variable {shape : List Dimension} (perm : shape.Perm descriptor.shape)
  (free : Shape.OrderFree (Shape.fixedDimensions descriptor.shape))

include perm free

theorem variableLength_perm (length : Nat) :
    variableLength { descriptor with shape } length = variableLength descriptor length := by
  simp only [variableLength, Descriptor.unitBits_perm perm free]

/-- The shape of a value is found with its dimensions in the other order, and counted alike. -/
theorem shapeOf_perm
    {length : Nat} {dimensions : List Nat} (ofShape : shapeOf descriptor length = .ok dimensions) :
    ∃ others, shapeOf { descriptor with shape } length = .ok others ∧
      Shape.elementCount others = Shape.elementCount dimensions := by
  have isVariable_eq := Descriptor.isVariable_perm perm
  cases isVariable : descriptor.isVariable with
  | false =>
      rw [shapeOf_of_fixed isVariable] at ofShape
      cases ofShape
      rw [isVariable] at isVariable_eq
      exact ⟨_, shapeOf_of_fixed isVariable_eq length,
        Shape.elementCount_perm free (Shape.fixedDimensions_perm perm)⟩
  | true =>
      unfold shapeOf at ofShape
      rw [isVariable] at ofShape isVariable_eq
      obtain ⟨dimension, found, ⟨⟩⟩ := Except.bind_eq_ok_iff.1 ofShape
      obtain ⟨count, counted, vanishes⟩ := exists_of_variableLength found
      have filled := free.fill counted vanishes
      rw [← variableLength_perm perm free] at found
      exact ⟨_, shapeOf_of_variable isVariable_eq found,
        Shape.elementCount_perm filled (perm.map _)⟩

theorem exists_decode_perm (accepted : ∃ value, decode descriptor bytes = .ok value) :
    ∃ value, decode { descriptor with shape } bytes = .ok value := by
  obtain ⟨dimensions, count, ofShape, counted, small, enough⟩ :=
    exists_decode_iff_counted.1 accepted
  obtain ⟨others, found, same⟩ := shapeOf_perm perm free ofShape
  rw [← same] at counted
  exact exists_decode_iff_counted.2 ⟨others, count, found, counted, small, enough⟩

end Perm

end Value

/-! ## Main result -/

/-- Arrays of these dimensions are counted, and accepted, in every order of them. -/
structure Shape.JudgedBySize (dimensions : List Nat) : Prop where
  count : dimensions.prod < 2 ^ 64 → ∀ other, other.Perm dimensions →
    elementCount other = some dimensions.prod
  value : ∀ other, other.Perm dimensions → ∀ content,
    (∃ value, Value.make other content = .ok value) ↔
      ∃ value, Value.make dimensions content = .ok value

/-- With its dimensions in another order a descriptor is accepted as well, and the same bytes are
read with it. -/
structure Descriptor.JudgedBySize (descriptor : Descriptor) : Prop where
  accepted : ∀ shape, shape.Perm descriptor.shape →
    ((∃ made, make descriptor.id descriptor.name descriptor.description shape
        descriptor.encoding = .ok made) ↔
      ∃ made, make descriptor.id descriptor.name descriptor.description descriptor.shape
        descriptor.encoding = .ok made)
  decode : ∀ shape, shape.Perm descriptor.shape → ∀ bytes,
    (∃ value, Value.decode { descriptor with shape } bytes = .ok value) ↔
      ∃ value, Value.decode descriptor bytes = .ok value

namespace Shape

variable {dimensions : List Nat}

theorem judgedBySize_of_orderFree (free : OrderFree dimensions) : JudgedBySize dimensions where
  count small other perm := by
    rw [elementCount_perm free perm]
    exact elementCount_of_volume_lt free small
  value other perm content := by
    rw [Value.exists_make_iff, Value.exists_make_iff, elementCount_perm free perm]

theorem orderFree_of_judgedBySize (judged : JudgedBySize dimensions) : OrderFree dimensions := by
  intro empty
  by_contra large
  have hollow : dimensions.prod = 0 := List.prod_eq_zero empty
  rw [← fixedDimensions_map_some dimensions] at large
  obtain ⟨other, perm, refused⟩ := exists_perm_refused (Nat.not_lt.1 large)
  have order := fixedDimensions_perm perm
  rw [fixedDimensions_map_some] at order
  have counted := judged.count (by rw [hollow]; decide) _ order
  rw [refused] at counted
  cases counted

/-- Two dimensions whose product is too large hide the zero behind them. -/
theorem not_forall_elementCount :
    ¬ ∀ dimensions : List Nat, (∀ dimension ∈ dimensions, dimension < 2 ^ 64) →
      dimensions.prod < 2 ^ 64 → elementCount dimensions = some dimensions.prod := by
  intro judged
  have counted := judged [2 ^ 40, 2 ^ 40, 0] (by decide) (by decide)
  exact absurd counted (by decide)

end Shape

namespace Descriptor

variable {descriptor : Descriptor}

theorem judgedBySize_of_orderFree
    (free : Shape.OrderFree (Shape.fixedDimensions descriptor.shape)) :
    descriptor.JudgedBySize where
  accepted shape perm := by
    have checked := check_perm perm free
    rw [exists_make_iff, exists_make_iff, checked]
  decode shape perm bytes := by
    have back : Shape.OrderFree (Shape.fixedDimensions shape) :=
      free.perm (Shape.fixedDimensions_perm perm).symm
    have returned : (∃ value, Value.decode { descriptor with shape } bytes = .ok value) →
        ∃ value, Value.decode { descriptor with shape := descriptor.shape } bytes = .ok value :=
      Value.exists_decode_perm perm.symm back
    exact ⟨returned, Value.exists_decode_perm perm free⟩

/-- Otherwise no bytes at all are read in one order of the dimensions and refused in another. -/
theorem orderFree_of_judgedBySize (judged : descriptor.JudgedBySize) :
    Shape.OrderFree (Shape.fixedDimensions descriptor.shape) := by
  intro empty
  by_contra large
  have zero : some 0 ∈ descriptor.shape := by
    rw [← Shape.volume_fixedDimensions_eq_zero_iff, Shape.volume_eq_prod]
    exact List.prod_eq_zero empty
  obtain ⟨hollow, hollowPerm, counted⟩ := Shape.exists_perm_counted zero
  obtain ⟨huge, hugePerm, refused⟩ := Shape.exists_perm_refused (Nat.not_lt.1 large)
  have read : ∃ value, Value.decode { descriptor with shape := hollow } [] = .ok value :=
    Value.exists_decode_nil counted
  rw [judged.decode hollow hollowPerm, ← judged.decode huge hugePerm] at read
  obtain ⟨count, hugeCounted⟩ := Value.exists_count_of_decode read
  rw [refused] at hugeCounted
  cases hugeCounted

end Descriptor

/-- The number of elements is the product of the dimensions wherever those in front of the first
zero can be multiplied. The order of the dimensions is without effect exactly for the shapes whose
dimensions other than zero can be multiplied, or which have no zero. -/
theorem judgedBySize_iff_orderFree (dimensions : List Nat) (descriptor : Descriptor) :
    (∀ count, Shape.elementCount dimensions = some count ↔
      count = dimensions.prod ∧ (dimensions.takeWhile (· ≠ 0)).prod < 2 ^ 64) ∧
    (Shape.JudgedBySize dimensions ↔ Shape.OrderFree dimensions) ∧
    (descriptor.JudgedBySize ↔
      Shape.OrderFree (Shape.fixedDimensions descriptor.shape)) := by
  refine ⟨?_, ?_, ?_⟩
  · intro count
    rw [Shape.elementCount_eq_some_iff, Shape.volume_eq_prod, Shape.volume_eq_prod]
    rfl
  · exact ⟨Shape.orderFree_of_judgedBySize, Shape.judgedBySize_of_orderFree⟩
  · exact ⟨Descriptor.orderFree_of_judgedBySize, Descriptor.judgedBySize_of_orderFree⟩

/-- Empty arrays with dimensions of which two can be multiplied, and with some of which two
cannot. -/
theorem judgedBySize_of_zero_between :
    let type : ElementType := { kind := .uint, size := 1, order := .big }
    let level (length : Nat) : Descriptor :=
      ⟨0x1000, "level", "", [some length, some 0, none, some length], .elements type .columnMajor⟩
    Shape.JudgedBySize [2 ^ 20, 0, 2 ^ 20] ∧ (level (2 ^ 20)).JudgedBySize ∧
      ¬ (level (2 ^ 40)).JudgedBySize := by
  intro type level
  obtain ⟨_, array, large⟩ := judgedBySize_iff_orderFree [2 ^ 20, 0, 2 ^ 20] (level (2 ^ 20))
  obtain ⟨_, _, huge⟩ := judgedBySize_iff_orderFree [] (level (2 ^ 40))
  have free : Shape.OrderFree [2 ^ 20, 0, 2 ^ 20] := fun _ => by decide
  refine ⟨array.2 free, large.2 free, ?_⟩
  intro judged
  exact absurd (huge.1 judged (by decide)) (by decide)

end Spead
