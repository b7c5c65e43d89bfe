import Mathlib.Algebra.Group.Defs
import Spead.Proofs.Value.MachineWords
import Spead.Proofs.Value.Transport

/-!
Bounds on what is read from bytes of unknown origin.

Whoever sends a descriptor chooses its dimensions and its fields, and whoever sends a value its
bytes. Reading breaks at no choice, and a value has at most as many elements as it has bits: what a
receiver holds is in proportion to the bytes that it was sent.
-/

namespace Spead

/-- An accepted descriptor has elements of at least one bit. -/
theorem Descriptor.bits_pos
    {descriptor : Descriptor} (checked : descriptor.check = .ok ()) :
    0 < descriptor.encoding.bits := by
  have format := (check_eq_ok_iff.1 checked).2.2.1
  cases encoding : descriptor.encoding with
  | elements type order =>
      have := (ElementKind.size_of_supports type.supported).1
      simp only [Encoding.bits]
      omega
  | records fields =>
      cases fields with
      | nil => exact absurd encoding format
      | cons field rest =>
          have := field.bits_pos
          simp only [Encoding.bits, List.map_cons, List.sum_cons]
          omega

namespace Value

/-! ## Shapes and counts -/

/-- The shape and the size of a value that has been read from `length` bytes. -/
structure Fitting (descriptor : Descriptor) (length : Nat) (value : Value) : Prop where
  rank : value.shape.length = descriptor.shape.length
  /-- A fixed dimension is as long as the descriptor has it. -/
  dimensions : ∀ (place fixed : Nat), descriptor.shape[place]? = some (some fixed) →
    value.shape[place]? = some fixed
  counted : value.content.count = value.shape.prod
  /-- Every element and every record takes at least one bit. -/
  count_le : value.content.count ≤ 8 * length
  /-- Whole-byte elements take at least one byte. -/
  count_elements_le : ∀ type order, descriptor.encoding = .elements type order →
    value.content.count ≤ length
  /-- All scalars of all records take at least one bit each. -/
  scalars_le : ∀ rows, value.content = .records rows →
    (rows.map List.length).sum ≤ 8 * length

theorem Fitting.mono
    {descriptor : Descriptor} {length more : Nat} {value : Value}
    (fitting : Fitting descriptor length value) (longer : length ≤ more) :
    Fitting descriptor more value where
  rank := fitting.rank
  dimensions := fitting.dimensions
  counted := fitting.counted
  count_le := fitting.count_le.trans (Nat.mul_le_mul_left 8 longer)
  count_elements_le type order encoding :=
    (fitting.count_elements_le type order encoding).trans longer
  scalars_le rows content :=
    (fitting.scalars_le rows content).trans (Nat.mul_le_mul_left 8 longer)

theorem length_of_mem_decodeRecords
    {fields : List Field} {count : Nat} {bytes : Bytes} {rows : List (List Scalar)}
    (decoded : decodeRecords fields count bytes = .ok rows) {row : List Scalar}
    (member : row ∈ rows) :
    row.length = fields.length := by
  unfold decodeRecords at decoded
  obtain ⟨⟨results, last⟩, stepped, rfl⟩ := Except.map_eq_ok_iff.1 decoded
  obtain ⟨_, _, before, after, read⟩ := exists_of_forall₂_right (forall₂_of_mapM stepped) member
  exact (forall₂_of_mapM read).length_eq.symm

section Read

variable {descriptor : Descriptor} {bytes : Bytes} {value : Value}
  (decoded : decode descriptor bytes = .ok value)

include decoded

/-- Values of records are read from descriptors of records, with a scalar for every field. -/
theorem exists_fields_of_decode
    {rows : List (List Scalar)} (content : value.content = .records rows) :
    ∃ fields, descriptor.encoding = .records fields ∧ ∀ row ∈ rows, row.length = fields.length := by
  cases encoding : descriptor.encoding with
  | elements type order =>
      obtain ⟨_, _, _, _, _, _, rfl⟩ := (decode_eq_ok_iff encoding).1 decoded
      cases content
  | records fields =>
      unfold decode at decoded
      simp only [Except.bind_eq_ok_iff, Except.guard_eq_ok_iff, encoding,
        liftM_eq_ok_iff] at decoded
      obtain ⟨_, _, _, _, _, _, _, found, read, ⟨⟩⟩ := decoded
      cases content
      exact ⟨fields, rfl, fun row member => length_of_mem_decodeRecords read member⟩

theorem fitting_of_decode (checked : descriptor.check = .ok ()) :
    Fitting descriptor bytes.length value := by
  obtain ⟨bits, read⟩ := decode_eq_ok decoded
  obtain ⟨dimension, shape⟩ := exists_of_shapeOf read.shape
  obtain ⟨_, rfl⟩ := bitsFor_eq_ok_iff.1 read.sized
  have positive := Descriptor.bits_pos checked
  have enough := read.enough
  have room : value.content.count * descriptor.encoding.bits ≤ 8 * bytes.length := by
    rw [Descriptor.bytesFor] at enough
    omega
  constructor
  case rank => rw [shape, Shape.fill, List.length_map]
  case dimensions =>
    intro place fixed found
    rw [shape, Shape.fill, List.getElem?_map, found]
    rfl
  case counted => exact Shape.elementCount_eq_some (countFor_eq_ok_iff.1 read.counted)
  case count_le => exact (Nat.le_mul_of_pos_right _ positive).trans room
  case count_elements_le =>
    intro type order encoding
    have size := (ElementKind.size_of_supports type.supported).1
    rw [encoding, Encoding.bits, bytesFor_mul] at enough
    exact (Nat.le_mul_of_pos_right _ size).trans enough
  case scalars_le =>
    intro rows content
    obtain ⟨fields, encoding, lengths⟩ := exists_fields_of_decode decoded content
    have wide : ∀ width ∈ fields.map Field.bits, 1 ≤ width := by
      intro width member
      obtain ⟨field, _, rfl⟩ := List.mem_map.1 member
      exact field.bits_pos
    have few := List.length_le_sum_of_one_le _ wide
    rw [List.length_map] at few
    have total : (rows.map List.length).sum = rows.length * fields.length := by
      rw [List.map_congr_left lengths, List.map_const', List.sum_replicate_nat]
    have count : value.content.count = rows.length := by rw [content]; rfl
    rw [count, encoding, Encoding.bits] at room
    rw [total]
    exact (Nat.mul_le_mul_left _ few).trans room

end Read

theorem fitting_of_decodeImmediate
    {descriptor : Descriptor} {field : Bytes} {value : Value}
    (checked : descriptor.check = .ok ())
    (decoded : decodeImmediate descriptor field = .ok value) :
    Fitting descriptor field.length value := by
  unfold decodeImmediate at decoded
  split at decoded
  · split at decoded
    · refine (fitting_of_decode decoded checked).mono ?_
      rw [List.length_drop]
      exact Nat.sub_le _ _
    · cases decoded
  · exact fitting_of_decode decoded checked

/-! ## Values of fixed size -/

section Fixed

variable {descriptor : Descriptor} (checked : descriptor.check = .ok ())
  (fixed : descriptor.isVariable = false)

include checked fixed

/-- The size is that of as many elements as the dimensions come to. -/
theorem fixedSize?_of_check :
    descriptor.fixedSize? =
      some (Descriptor.bytesFor
        ((Shape.fixedDimensions descriptor.shape).prod * descriptor.encoding.bits)) := by
  obtain ⟨_, _, _, unit, ofUnit⟩ := Descriptor.check_eq_ok_iff.1 checked
  have volume := volume_of_unitBits ofUnit
  rw [Shape.volume_eq_prod] at volume
  unfold Descriptor.fixedSize?
  rw [fixed, ofUnit, volume]
  rfl

theorem exists_decode_iff (bytes : Bytes) :
    (∃ value, decode descriptor bytes = .ok value) ↔
      Descriptor.bytesFor
        ((Shape.fixedDimensions descriptor.shape).prod * descriptor.encoding.bits) ≤
        bytes.length := by
  have size := fixedSize?_of_check checked fixed
  constructor
  · rintro ⟨value, decoded⟩
    obtain ⟨bits, read⟩ := decode_eq_ok decoded
    rw [read.fixedSize? fixed, Option.some_inj] at size
    rw [← size]
    exact read.enough
  · intro enough
    obtain ⟨_, _, _, unit, ofUnit⟩ := Descriptor.check_eq_ok_iff.1 checked
    obtain ⟨count, counted, small, _⟩ := unitBits_eq_ok_iff.1 ofUnit
    rw [← Shape.volume_eq_prod, ← Shape.elementCount_eq_some counted] at enough
    exact exists_decode (shapeOf_of_fixed fixed _) counted small enough

end Fixed

/-! ## Reading -/

/-- What holds of reading these bytes with this descriptor, from the payload or from the value
field of a pointer. -/
structure ReadSafely (descriptor : Descriptor) (bytes : Bytes) : Prop where
  /-- No step on machine words breaks, and they come to what is read. -/
  unbroken : Yields (decode? descriptor bytes) (decode descriptor bytes)
  unbrokenImmediate : Yields (decodeImmediate? descriptor bytes) (decodeImmediate descriptor bytes)
  fitting : ∀ value, decode descriptor bytes = .ok value → Fitting descriptor bytes.length value
  fittingImmediate : ∀ value, decodeImmediate descriptor bytes = .ok value →
    Fitting descriptor bytes.length value
  /-- Values of fixed size are read if there are enough bytes for them. -/
  sized : descriptor.isVariable = false →
    ∃ size, descriptor.fixedSize? = some size ∧
      size = Descriptor.bytesFor
        ((Shape.fixedDimensions descriptor.shape).prod * descriptor.encoding.bits) ∧
      ((∃ value, decode descriptor bytes = .ok value) ↔ size ≤ bytes.length)

/-- Descriptors that are read from any bytes are accepted, and with an accepted descriptor any
bytes are read safely, as long as their bits can be counted by a machine word. -/
theorem accepted_of_parse_and_readSafely :
    (∀ compat raw descriptor,
      Descriptor.parse compat raw = .ok descriptor → descriptor.Accepted) ∧
    ∀ descriptor : Descriptor, descriptor.Accepted →
      ∀ bytes : Bytes, bytes.length < 2 ^ 61 → ReadSafely descriptor bytes := by
  refine ⟨fun _ _ _ => Descriptor.accepted_of_parse, ?_⟩
  intro descriptor accepted bytes few
  have checked := (Descriptor.accepted_iff.1 accepted).1
  have short : bytes.length * 8 < wordLimit := by
    unfold wordLimit
    omega
  constructor
  case unbroken => exact yields_decode? accepted short
  case unbrokenImmediate => exact yields_decodeImmediate? accepted short
  case fitting => exact fun value decoded => fitting_of_decode decoded checked
  case fittingImmediate => exact fun value decoded => fitting_of_decodeImmediate checked decoded
  case sized =>
    intro fixed
    exact ⟨_, fixedSize?_of_check checked fixed, rfl, exists_decode_iff checked fixed bytes⟩

/-- Dimensions of an array without elements, of which the last two are too large to be multiplied
with each other. -/
theorem readSafely_without_elements :
    let type : ElementType := { kind := .uint, size := 1, order := .little }
    let descriptor : Descriptor :=
      ⟨0x1000, "none", "", [some 0, some (2 ^ 39), some (2 ^ 39)], .elements type .columnMajor⟩
    let value : Value := ⟨[0, 2 ^ 39, 2 ^ 39], .elements (.ofWords type.toElement [])⟩
    ∃ raw, Descriptor.parse .none raw = .ok descriptor ∧ descriptor.Accepted ∧
      decode descriptor [7] = .ok value ∧ Yields (decode? descriptor [7]) (.ok value) ∧
      Fitting descriptor 1 value := by
  intro type descriptor value
  have checked : descriptor.check = .ok () := by decide +kernel
  have writable : descriptor.Writable {} := by
    constructor
    case id => decide +kernel
    case dimensions => decide +kernel
    case fieldsSize => decide +kernel
  obtain ⟨raw, written⟩ := Descriptor.exists_serialize writable
  have parsed : Descriptor.parse .none raw = .ok descriptor :=
    Descriptor.parse_serialize checked written
  have decoded : decode descriptor [7] = .ok value := by decide +kernel
  obtain ⟨accepts, reads⟩ := accepted_of_parse_and_readSafely
  have accepted := accepts _ _ _ parsed
  have safe := reads descriptor accepted [7] (by decide)
  have unbroken := safe.unbroken
  rw [decoded] at unbroken
  exact ⟨raw, parsed, accepted, decoded, unbroken, safe.fitting value decoded⟩

end Value
end Spead
