import Spead.Proofs.Bits.Cursor
import Spead.Proofs.Descriptor.Writable
import Spead.Proofs.FloatingPoint
import Spead.Proofs.Value.Elements

/-!
Records read back from their bytes.

A value of records is the string of the bits of all their fields, and nothing else but the zeros
that fill up the last byte. Where a variable dimension takes only a few bits, these zeros are read
as further records.
-/

namespace Spead

/-! ## Fields -/

namespace Scalar

def word (bits : Nat) : Scalar → Nat
  | uint value => value
  | int value => (value % 2 ^ bits).toNat
  | float value =>
      if bits = 32 then
        FloatFormat.convert .binary64 .binary32 value.bits.toNat
      else
        value.bits.toNat
  | bool value => value.toNat
  | char value => value.toNat

/-- The scalar loses nothing in a field of the given width: a number with a point in 32 bits is
one of 32 bits. -/
def Exact (bits : Nat) : Scalar → Prop
  | float value => bits = 32 → value.IsBinary32
  | _ => True

end Scalar

namespace Field

/-- The scalar belongs into the field. -/
def Admits (field : Field) : Scalar → Prop
  | .uint value => field.kind = .uint ∧ value < 2 ^ field.bits
  | .int value =>
      field.kind = .int ∧ -2 ^ (field.bits - 1) ≤ value ∧ value < 2 ^ (field.bits - 1)
  | .float _ => field.kind = .float
  | .bool _ => field.kind = .bool
  | .char value => field.kind = .char ∧ value.toNat < 128 ∧ value.toNat < 2 ^ field.bits

/-- The scalar that a field with the given bits stands for. -/
def scalarOf (field : Field) (word : Nat) : Scalar :=
  match field.kind with
  | .uint => .uint word
  | .int => .int (Int.bmod word (2 ^ field.bits))
  | .float =>
      .float (.ofWord
        (if field.bits = 32 then FloatFormat.convert .binary32 .binary64 word else word))
  | .bool => .bool (word ≠ 0)
  | .char => .char (Char.ofNat word)

/-- The scalar of a field whose bits are all zero. -/
def blank (field : Field) : Scalar :=
  field.scalarOf 0

variable {field : Field}

theorem admits_blank (field : Field) : field.Admits field.blank := by
  have positive := Nat.two_pow_pos field.bits
  unfold blank scalarOf
  cases kind : field.kind with
  | uint => exact ⟨kind, positive⟩
  | int => 
      refine ⟨kind, ?_, ?_⟩ <;> simp
  | float => exact kind
  | bool => exact kind
  | char => exact ⟨kind, by decide, positive⟩

theorem exact_blank (field : Field) : field.blank.Exact field.bits := by
  unfold blank scalarOf
  cases field.kind with
  | float => 
      intro narrow
      exact ⟨0, by rw [if_pos narrow]⟩
  | uint => trivial
  | int => trivial
  | bool => trivial
  | char => trivial

theorem word_blank (field : Field) : field.blank.word field.bits = 0 := by
  unfold blank scalarOf
  cases field.kind with
  | float => 
      simp only [Scalar.word]
      split
      · decide +kernel
      · rfl
  | uint => rfl
  | int => simp [Scalar.word]
  | bool => rfl
  | char => rfl

theorem bits_pos (field : Field) : 0 < field.bits := by
  have supported := field.supported
  cases kind : field.kind <;> simp [kind, FieldKind.supports] at supported <;> omega

theorem word_lt {scalar : Scalar} (admitted : field.Admits scalar) :
    scalar.word field.bits < 2 ^ field.bits := by
  have positive := field.bits_pos
  cases scalar with
  | uint value => exact admitted.2
  | char value => exact admitted.2.2
  | int value =>
      have size : (0 : Int) < 2 ^ field.bits := by positivity
      have small := Int.emod_lt_of_pos value size
      have cast : ((2 ^ field.bits : Nat) : Int) = 2 ^ field.bits := by push_cast; rfl
      simp only [Scalar.word]
      omega
  | bool value =>
      have two : 2 ^ 1 ≤ 2 ^ field.bits := Nat.pow_le_pow_right (by decide) positive
      have small := Bool.toNat_lt value
      simp only [Scalar.word]
      omega
  | float value =>
      have supported := field.supported
      simp only [show field.kind = .float from admitted, FieldKind.supports, Bool.or_eq_true,
        decide_eq_true_eq] at supported
      simp only [Scalar.word]
      rcases supported with narrow | wide
      · rw [if_pos narrow, narrow]
        exact FloatFormat.convert_binary32_lt _ _
      · rw [if_neg (by omega), wide]
        exact value.bits.toNat_lt

theorem scalarOf_word
    {scalar : Scalar} (admitted : field.Admits scalar) (exact : scalar.Exact field.bits) :
    field.scalarOf (scalar.word field.bits) = scalar := by
  have positive := field.bits_pos
  cases scalar with
  | uint value => simp only [scalarOf, admitted.1, Scalar.word]
  | char value => simp only [scalarOf, admitted.1, Scalar.word, Char.ofNat_toNat]
  | bool value =>
      simp only [scalarOf, show field.kind = .bool from admitted, Scalar.word]
      cases value <;> rfl
  | float value =>
      simp only [scalarOf, show field.kind = .float from admitted, Scalar.word]
      by_cases narrow : field.bits = 32
      · rw [if_pos narrow, if_pos narrow, (exact narrow).convert_convert]
      · rw [if_neg narrow, if_neg narrow, Binary64.ofWord_toNat]
  | int value =>
      obtain ⟨kind, low, high⟩ := admitted
      have size : (2 : Int) ^ field.bits = 2 * 2 ^ (field.bits - 1) := by
        rw [← Int.pow_succ', Nat.sub_add_cancel positive]
      have size_pos : (0 : Int) < 2 ^ (field.bits - 1) := by positivity
      have cast : ((2 ^ field.bits : Nat) : Int) = 2 ^ field.bits := by push_cast; rfl
      have back :
          (((value % 2 ^ field.bits).toNat : Nat) : Int) = value % (2 ^ field.bits : Nat) := by
        rw [cast]
        exact Int.toNat_of_nonneg (Int.emod_nonneg _ (by omega))
      simp only [scalarOf, kind, Scalar.word]
      rw [back, Int.emod_bmod, Int.bmod_eq_of_le (by omega) (by omega)]

end Field

namespace Value

/-! ## Writing -/

def recordBits (fields : List Field) (record : List Scalar) : List Bool :=
  (fields.zip record).flatMap fun (field, scalar) =>
    Bits.ofNat field.bits (scalar.word field.bits)

def writeRecord (fields : List Field) (writer : Bits.Writer) (record : List Scalar) :
    Bits.Writer :=
  (fields.zip record).foldl (fun current (field, scalar) =>
    current.append (scalar.word field.bits) field.bits) writer

section Writing

variable {descriptor : Descriptor} {fields : List Field}

theorem fieldWord_eq_ok_iff {field : Field} {scalar : Scalar} {word : Nat} :
    fieldWord descriptor field scalar = .ok word ↔
      field.Admits scalar ∧ word = scalar.word field.bits := by
  by_cases same : field.kind = scalar.kind
  · rcases field with ⟨_, bits, supported⟩
    cases same
    cases scalar with
    | uint value =>
        simp only [fieldWord, Field.Admits, Scalar.word, true_and, decide_eq_true_eq,
          Except.ite_eq_ok_iff]
    | int value =>
        simp only [fieldWord, Field.Admits, Scalar.word, true_and, Bool.and_eq_true,
          decide_eq_true_eq, Except.ite_eq_ok_iff]
    | float value =>
        simp only [fieldWord, Field.Admits, Scalar.word, true_and, Except.ok.injEq,
          eq_comm]
    | bool value =>
        simp only [fieldWord, Field.Admits, Scalar.word, true_and, Except.ok.injEq,
          eq_comm]
    | char value =>
        simp only [fieldWord, Field.Admits, Scalar.word, true_and, Bool.and_eq_true,
          decide_eq_true_eq, Except.ite_eq_ok_iff]
  · have refused : ¬ field.Admits scalar := by
      cases scalar with
      | uint value => exact fun admitted => same admitted.1
      | int value => exact fun admitted => same admitted.1
      | float value => exact same
      | bool value => exact same
      | char value => exact fun admitted => same admitted.1
    simp only [refused, false_and, iff_false]
    unfold fieldWord
    cases kind : field.kind <;> cases scalar <;> first | exact absurd kind same | exact nofun

theorem write_eq_ok_iff {writer next : Bits.Writer} {field : Field} {word : Nat} :
    writer.write word field.bits = .ok next ↔ next = writer.append word field.bits := by
  have narrow : field.bits ≤ Bits.maxFieldBits := FieldKind.le_of_supports field.supported
  rw [Bits.Writer.write, if_pos narrow, Except.ok.injEq, eq_comm]

/-- A record is written if all of its scalars belong into their fields. -/
theorem encodeRecord_eq_ok_iff
    {writer next : Bits.Writer} {record : List Scalar} :
    encodeRecord descriptor fields writer record = .ok next ↔
      List.Forall₂ Field.Admits fields record ∧ next = writeRecord fields writer record := by
  have stepped (writer : Bits.Writer) (entry : Field × Scalar) (next : Bits.Writer) :
      (do
        let word ← fieldWord descriptor entry.1 entry.2
        writer.write word entry.1.bits : Except Error Bits.Writer) = .ok next ↔
        entry.1.Admits entry.2 ∧
          next = writer.append (entry.2.word entry.1.bits) entry.1.bits := by
    rw [Except.bind_eq_ok_iff]
    simp only [liftM_eq_ok_iff, fieldWord_eq_ok_iff, write_eq_ok_iff]
    constructor
    · rintro ⟨_, ⟨admitted, rfl⟩, rfl⟩
      exact ⟨admitted, rfl⟩
    · rintro ⟨admitted, rfl⟩
      exact ⟨_, ⟨admitted, rfl⟩, rfl⟩
  unfold encodeRecord
  rw [Except.guard_eq_ok_iff, foldlM_eq_ok_iff stepped, List.forall₂_iff_zip, not_not,
    ← and_assoc, Prod.forall, eq_comm (a := record.length)]
  rfl

theorem bits_writeRecord (writer : Bits.Writer) (record : List Scalar) :
    (writeRecord fields writer record).bits = writer.bits ++ recordBits fields record := by
  unfold writeRecord recordBits
  generalize fields.zip record = entries
  induction entries generalizing writer with
  | nil => simp
  | cons entry rest inductionHypothesis =>
      rw [List.foldl_cons, inductionHypothesis, Bits.Writer.bits_append, List.flatMap_cons,
        List.append_assoc]

theorem bits_writeRecords (writer : Bits.Writer) (rows : List (List Scalar)) :
    (rows.foldl (writeRecord fields) writer).bits =
      writer.bits ++ rows.flatMap (recordBits fields) := by
  induction rows generalizing writer with
  | nil => simp
  | cons record rest inductionHypothesis =>
      rw [List.foldl_cons, inductionHypothesis, bits_writeRecord, List.flatMap_cons,
        List.append_assoc]

/-- A value of records is written if it has the shape of the descriptor and all of its scalars
belong into their fields. -/
theorem encode_records_eq_ok_iff
    (encoding : descriptor.encoding = .records fields) {value : Value} {bytes : Bytes} :
    value.encode descriptor = .ok bytes ↔
      Shape.admits descriptor.shape value.shape = true ∧
        ∃ rows, value.content = .records rows ∧
          (∀ record ∈ rows, List.Forall₂ Field.Admits fields record) ∧
          bytes = (rows.foldl (writeRecord fields) .empty).finish := by
  unfold encode
  rw [Except.bind_eq_ok_iff]
  simp only [liftM_eq_ok_iff, encoding]
  cases content : value.content with
  | elements array =>
      constructor
      · rintro ⟨_, _, ⟨⟩⟩
      · rintro ⟨_, _, ⟨⟩, _⟩
  | records rows =>
      have stepped (writer : Bits.Writer) (record : List Scalar) (next : Bits.Writer) :
          encodeRecord descriptor fields writer record = .ok next ↔
            List.Forall₂ Field.Admits fields record ∧ next = writeRecord fields writer record :=
        encodeRecord_eq_ok_iff
      simp only [Except.bind_eq_ok_iff, foldlM_eq_ok_iff stepped]
      constructor
      · rintro ⟨_, admitted, _, ⟨accepted, rfl⟩, ⟨⟩⟩
        exact ⟨checkShape_eq_ok_iff.1 admitted, rows, rfl, accepted, rfl⟩
      · rintro ⟨admitted, _, ⟨⟩, accepted, rfl⟩
        exact ⟨(), checkShape_eq_ok_iff.2 admitted, _, ⟨accepted, rfl⟩, rfl⟩

end Writing

/-! ## Reading -/

/-- The scalars belong into the fields and lose nothing there. -/
def Holds (fields : List Field) (record : List Scalar) : Prop :=
  List.Forall₂ (fun field scalar => field.Admits scalar ∧ scalar.Exact field.bits) fields record

section Reading

variable {fields : List Field}

theorem decodeField_eq (field : Field) (reader : Bits.Reader) :
    (decodeField field).run reader =
      (reader.read field.bits).map fun (word, next) => (field.scalarOf word, next) := by
  unfold decodeField Field.scalarOf Bits.Reader.readSigned
  dsimp only [StateT.run]
  cases reader.read field.bits with
  | error thrown => cases field.kind <;> rfl
  | ok found => cases field.kind <;> rfl

theorem reads_decodeField
    {field : Field} {scalar : Scalar} (admitted : field.Admits scalar)
    (exact : scalar.Exact field.bits) :
    Bits.Reader.Reads (decodeField field)
      (Bits.ofNat field.bits (scalar.word field.bits)) scalar := by
  intro reader behind spelled
  obtain ⟨read, left⟩ := Bits.Reader.read_of_bits field.bits_pos
    (FieldKind.le_of_supports field.supported) spelled
  refine ⟨_, ?_, left⟩
  rw [decodeField_eq, read, Nat.mod_eq_of_lt (Field.word_lt admitted)]
  exact congrArg (fun found => Except.ok (found, _)) (Field.scalarOf_word admitted exact)

theorem reads_record {record : List Scalar} (held : Holds fields record) :
    Bits.Reader.Reads (fields.mapM decodeField) (recordBits fields record) record := by
  have related :
      List.Forall₂
        (fun field scalar =>
          Bits.Reader.Reads (decodeField field)
            (Bits.ofNat field.bits (scalar.word field.bits)) scalar)
        fields record :=
    held.imp fun _ _ fits => reads_decodeField fits.1 fits.2
  exact .mapM related

/-- Records are read from the bytes whose bits begin with theirs. -/
theorem decodeRecords_of_bits
    {rows : List (List Scalar)} {bytes : Bytes} {behind : List Bool}
    (held : ∀ record ∈ rows, Holds fields record)
    (spelled : Bits.ofBytes bytes = rows.flatMap (recordBits fields) ++ behind) :
    decodeRecords fields rows.length bytes = .ok rows := by
  have sameLength : (List.range rows.length).length = rows.length := List.length_range
  have related :
      List.Forall₂
        (fun (_ : Nat) record =>
          Bits.Reader.Reads (fields.mapM decodeField) (recordBits fields record) record)
        (List.range rows.length) rows := by
    refine List.forall₂_iff_zip.2 ⟨sameLength, ?_⟩
    intro _ record member
    exact reads_record (held record (List.of_mem_zip member).2)
  have joined :
      ((List.range rows.length).zip rows).flatMap (fun entry => recordBits fields entry.2) =
        rows.flatMap (recordBits fields) := by
    have seconds : ((List.range rows.length).zip rows).map Prod.snd = rows :=
      List.map_snd_zip (by omega)
    conv_rhs => rw [← seconds]
    rw [List.flatMap_map]
  obtain ⟨next, read, _⟩ :=
    Bits.Reader.Reads.mapM related ⟨bytes, 0, 0⟩ behind (by rw [joined]; exact spelled)
  unfold decodeRecords
  exact congrArg (Except.map Prod.fst) read

end Reading

/-! ## Whole values -/

section Values

variable {descriptor : Descriptor} {fields : List Field}

theorem length_recordBits
    {record : List Scalar} (sameLength : fields.length = record.length) :
    (recordBits fields record).length = (fields.map Field.bits).sum := by
  have firsts : (fields.zip record).map Prod.fst = fields := List.map_fst_zip (by omega)
  unfold recordBits
  rw [List.length_flatMap]
  conv_rhs => rw [← firsts, List.map_map]
  simp only [Bits.length_ofNat]
  rfl

theorem length_flatMap_recordBits
    {rows : List (List Scalar)} (sameLength : ∀ record ∈ rows, fields.length = record.length) :
    (rows.flatMap (recordBits fields)).length = rows.length * (fields.map Field.bits).sum := by
  have each : ∀ record ∈ rows,
      (recordBits fields record).length = (fields.map Field.bits).sum :=
    fun record member => length_recordBits (sameLength record member)
  rw [List.length_flatMap, List.map_congr_left each, List.map_const', List.sum_replicate_nat]

/-- The record whose bits are all zero. -/
def blankRecord (fields : List Field) : List Scalar :=
  fields.map Field.blank

theorem holds_blankRecord (fields : List Field) : Holds fields (blankRecord fields) := by
  unfold Holds blankRecord
  rw [List.forall₂_map_right_iff, List.forall₂_same]
  exact fun field _ => ⟨field.admits_blank, field.exact_blank⟩

theorem recordBits_blankRecord (fields : List Field) :
    recordBits fields (blankRecord fields) =
      List.replicate (fields.map Field.bits).sum false := by
  unfold recordBits blankRecord
  induction fields with
  | nil => rfl
  | cons field rest inductionHypothesis =>
      simp only [List.map_cons, List.zip_cons_cons, List.flatMap_cons, List.sum_cons,
        Field.word_blank, Bits.ofNat_zero, inductionHypothesis, List.replicate_append_replicate]

theorem decode_of_bits
    (encoding : descriptor.encoding = .records fields)
    {shape : List Nat} {rows : List (List Scalar)} {bytes : Bytes} {behind : List Bool}
    (ofShape : shapeOf descriptor bytes.length = .ok shape)
    (counted : Shape.elementCount shape = some rows.length)
    (small : rows.length * descriptor.encoding.bits < wordLimit)
    (held : ∀ record ∈ rows, Holds fields record)
    (spelled : Bits.ofBytes bytes = rows.flatMap (recordBits fields) ++ behind) :
    decode descriptor bytes = .ok ⟨shape, .records rows⟩ := by
  have length := congrArg List.length spelled
  rw [List.length_append, Bits.length_ofBytes,
    length_flatMap_recordBits fun record member => (held record member).length_eq] at length
  have bits : descriptor.encoding.bits = (fields.map Field.bits).sum := by
    rw [encoding]
    rfl
  have enough : Descriptor.bytesFor (rows.length * descriptor.encoding.bits) ≤ bytes.length := by
    rw [bits, Descriptor.bytesFor]
    omega
  unfold decode
  simp only [Except.bind_eq_ok_iff, liftM_eq_ok_iff, Except.guard_eq_ok_iff, encoding,
    countFor_eq_ok_iff, bitsFor_eq_ok_iff]
  rw [encoding] at small enough bits
  refine ⟨shape, ofShape, _, counted, _, ⟨small, rfl⟩, Nat.not_lt.2 enough, rows, ?_, rfl⟩
  have required : rows.length * (fields.map Field.bits).sum ≤
      Descriptor.bytesFor (rows.length * (Encoding.records fields).bits) * 8 := by
    rw [bits, Descriptor.bytesFor]
    omega
  apply decodeRecords_of_bits held
  rw [Bits.ofBytes_take, spelled, List.take_append, List.take_of_length_le]
  rwa [length_flatMap_recordBits fun record member => (held record member).length_eq]

end Values

/-! ## Variable dimensions -/

/-- The length of a variable dimension as it is read from bytes that were written for `length`
steps of `unit` bits. -/
def readLength (unit length bytes : Nat) : Nat :=
  if unit % 8 = 0 then length else bytes * 8 / unit

section Padding

variable {unit length bytes : Nat} (filled : bytes = Descriptor.bytesFor (length * unit))

include filled

theorem readLength_mul_le : readLength unit length bytes * unit ≤ bytes * 8 := by
  unfold readLength
  split
  · rw [filled, Descriptor.bytesFor]
    omega
  · exact Nat.div_mul_le_self _ _

theorem readLength_mul_lt
    (small : length * unit < wordLimit) (short : unit % 8 ≠ 0 → bytes * 8 < wordLimit) :
    readLength unit length bytes * unit < wordLimit := by
  by_cases whole : unit % 8 = 0
  · rwa [readLength, if_pos whole]
  · exact Nat.lt_of_le_of_lt (readLength_mul_le filled) (short whole)

variable (positive : 0 < unit)

include positive

theorem le_readLength : length ≤ readLength unit length bytes := by
  unfold readLength
  split
  · exact Nat.le_refl _
  · rw [Nat.le_div_iff_mul_le positive, filled, Descriptor.bytesFor]
    omega

/-- Further steps are read if they find room in what fills up the last byte. -/
theorem readLength_eq_iff :
    readLength unit length bytes = length ↔ bytes * 8 - length * unit < unit := by
  have least := le_readLength filled positive
  have room := readLength_mul_le filled
  unfold readLength at least room ⊢
  split
  · next whole =>
      have exact : bytes * 8 = length * unit := by
        have divides : length * unit % 8 = 0 := by
          rw [Nat.mul_mod, whole, Nat.mul_zero, Nat.zero_mod]
        rw [filled, Descriptor.bytesFor]
        omega
      rw [exact, Nat.sub_self]
      exact ⟨fun _ => positive, fun _ => rfl⟩
  · next partly =>
      rw [if_neg partly] at least room
      have below : bytes * 8 / unit < length + 1 ↔ bytes * 8 < (length + 1) * unit :=
        Nat.div_lt_iff_lt_mul positive
      rw [Nat.add_one_mul] at below
      omega

theorem variableLength_eq_ok
    {descriptor : Descriptor} (ofUnit : descriptor.unitBits = .ok unit) :
    variableLength descriptor bytes = .ok (readLength unit length bytes) := by
  unfold variableLength readLength
  rw [ofUnit, Except.bind_eq_ok_iff]
  refine ⟨unit, rfl, ?_⟩
  rw [if_neg positive.ne']
  split
  · next whole =>
      obtain ⟨size, rfl⟩ : ∃ size, unit = size * 8 := ⟨unit / 8, by omega⟩
      have size_pos : 0 < size := by omega
      have exact : bytes = length * size := by
        rw [filled, Descriptor.bytesFor, ← Nat.mul_assoc]
        omega
      rw [Nat.mul_div_cancel _ (by decide), exact, if_pos (Nat.mul_mod_left _ _),
        Nat.mul_div_cancel _ size_pos]
      rfl
  · rfl

end Padding

theorem unitBits_eq_ok_iff {descriptor : Descriptor} {unit : Nat} :
    descriptor.unitBits = .ok unit ↔
      ∃ count, Shape.elementCount (Shape.fixedDimensions descriptor.shape) = some count ∧
        count * descriptor.encoding.bits < wordLimit ∧ unit = count * descriptor.encoding.bits := by
  simp only [Descriptor.unitBits, Except.bind_eq_ok_iff, countFor_eq_ok_iff, bitsFor_eq_ok_iff]

theorem volume_of_unitBits
    {descriptor : Descriptor} {unit : Nat} (ofUnit : descriptor.unitBits = .ok unit) :
    unit = Shape.volume (Shape.fixedDimensions descriptor.shape) * descriptor.encoding.bits := by
  obtain ⟨count, counted, _, sized⟩ := unitBits_eq_ok_iff.1 ofUnit
  rw [← Shape.elementCount_eq_some counted, sized]

/-! ## Values that travel -/

section Travel

variable {descriptor : Descriptor} {fields : List Field}
  (encoding : descriptor.encoding = .records fields)
  {shape : List Nat} {rows : List (List Scalar)} {bytes : Bytes}

include encoding

/-- The bits of a value of records are those of its fields, and zeros up to the next byte. -/
theorem ofBytes_of_encode
    (encoded : encode descriptor ⟨shape, .records rows⟩ = .ok bytes) :
    Bits.ofBytes bytes =
      rows.flatMap (recordBits fields) ++
        List.replicate (bytes.length * 8 - rows.length * descriptor.encoding.bits) false := by
  obtain ⟨_, _, ⟨⟩, accepted, rfl⟩ := (encode_records_eq_ok_iff encoding).1 encoded
  have written :
      (rows.foldl (writeRecord fields) .empty).bits = [] ++ rows.flatMap (recordBits fields) :=
    bits_writeRecords .empty rows
  rw [List.nil_append] at written
  have length := congrArg List.length written
  rw [Bits.Writer.length_bits,
    length_flatMap_recordBits fun record member => (accepted record member).length_eq] at length
  rw [Bits.Writer.ofBytes_finish, written, length, encoding]
  rfl

theorem holds_of_encode
    (encoded : encode descriptor ⟨shape, .records rows⟩ = .ok bytes)
    (exact : ∀ record ∈ rows, ∀ entry ∈ fields.zip record, entry.2.Exact entry.1.bits) :
    ∀ record ∈ rows, Holds fields record := by
  obtain ⟨_, _, ⟨⟩, accepted, _⟩ := (encode_records_eq_ok_iff encoding).1 encoded
  intro record member
  obtain ⟨sameLength, admitted⟩ := List.forall₂_iff_zip.1 (accepted record member)
  exact List.forall₂_iff_zip.2 ⟨sameLength, fun {field scalar} paired =>
    ⟨admitted paired, exact record member (field, scalar) paired⟩⟩

/-- Records without a variable dimension are read back. -/
theorem decode_of_fixed
    (fixed : descriptor.isVariable = false) (checked : descriptor.check = .ok ())
    (counted : Counted ⟨shape, .records rows⟩)
    (small : rows.length * descriptor.encoding.bits < wordLimit)
    (exact : ∀ record ∈ rows, ∀ entry ∈ fields.zip record, entry.2.Exact entry.1.bits)
    (encoded : encode descriptor ⟨shape, .records rows⟩ = .ok bytes) :
    decode descriptor bytes = .ok ⟨shape, .records rows⟩ := by
  obtain ⟨_, single, _⟩ := Descriptor.check_eq_ok_iff.1 checked
  obtain ⟨admitted, _⟩ := (encode_records_eq_ok_iff encoding).1 encoded
  obtain ⟨dimension, rfl⟩ := Shape.exists_eq_fill single admitted
  have ofShape : shapeOf descriptor bytes.length =
      .ok (Shape.fill dimension descriptor.shape) := by
    rw [shapeOf_of_fixed fixed, Shape.fill_of_fixed (variableCount_eq_zero_iff.2 fixed)]
  exact decode_of_bits encoding ofShape counted small (holds_of_encode encoding encoded exact)
    (ofBytes_of_encode encoding encoded)

section Variable

variable {length unit : Nat}
  (held : ∀ record ∈ rows, Holds fields record)
  (counted : Shape.elementCount (Shape.fill length descriptor.shape) = some rows.length)
  (small : rows.length * descriptor.encoding.bits < wordLimit)
  (size : bytes.length = Descriptor.bytesFor (rows.length * descriptor.encoding.bits))
  (spelled : Bits.ofBytes bytes =
    rows.flatMap (recordBits fields) ++
      List.replicate (bytes.length * 8 - rows.length * descriptor.encoding.bits) false)
  (single : Shape.variableCount descriptor.shape = 1)
  (ofUnit : descriptor.unitBits = .ok unit) (positive : 0 < unit)
  (short : unit % 8 ≠ 0 → bytes.length * 8 < wordLimit)

include held counted small size spelled single ofUnit positive short

/-- The records that were written are read, and then as many blank ones as the last byte has room
for. -/
theorem decode_of_variable :
    decode descriptor bytes =
      .ok ⟨Shape.fill (readLength unit length bytes.length) descriptor.shape,
        .records (rows ++
          List.replicate
            ((readLength unit length bytes.length - length) *
              Shape.volume (Shape.fixedDimensions descriptor.shape))
            (blankRecord fields))⟩ := by
  have isVariable : descriptor.isVariable = true := by
    rw [← Bool.not_eq_false, ← variableCount_eq_zero_iff, single]
    decide
  obtain ⟨count, ofFixed, _, unit_eq⟩ := unitBits_eq_ok_iff.1 ofUnit
  have perStep := Shape.elementCount_eq_some ofFixed
  have rowCount := Shape.elementCount_eq_some counted
  rw [Shape.volume_fill single, ← perStep] at rowCount
  have nonzero : some 0 ∉ descriptor.shape := by
    rw [← Shape.volume_fixedDimensions_eq_zero_iff, ← perStep]
    intro none
    rw [none, Nat.zero_mul] at unit_eq
    omega
  have bits_pos : 0 < descriptor.encoding.bits :=
    Nat.pos_of_ne_zero fun none => by rw [none, Nat.mul_zero] at unit_eq; omega
  have written : rows.length * descriptor.encoding.bits = length * unit := by
    rw [rowCount, unit_eq, Nat.mul_assoc]
  rw [written] at size small spelled
  have ofLength := variableLength_eq_ok size positive ofUnit
  have room := readLength_mul_le size
  have fits := readLength_mul_lt size small short
  obtain ⟨extra, found⟩ := Nat.exists_eq_add_of_le (le_readLength size positive)
  rw [found] at room fits ofLength ⊢
  rw [Nat.add_sub_cancel_left, ← perStep]
  have total : rows.length + extra * count = (length + extra) * count := by
    rw [rowCount, Nat.add_mul]
  have totalBits :
      (length + extra) * count * descriptor.encoding.bits = (length + extra) * unit := by
    rw [unit_eq, Nat.mul_assoc]
  -- The zeros behind the records are those of the blank ones, and what is left of them.
  have blanks :
      (List.replicate (extra * count) (blankRecord fields)).flatMap (recordBits fields) =
        List.replicate (extra * unit) false := by
    rw [List.flatMap_replicate, recordBits_blankRecord, List.flatten_replicate_replicate, unit_eq,
      Nat.mul_assoc, encoding]
    rfl
  have spelledAll :
      Bits.ofBytes bytes =
        (rows ++ List.replicate (extra * count) (blankRecord fields)).flatMap
            (recordBits fields) ++
          List.replicate (bytes.length * 8 - (length + extra) * unit) false := by
    rw [Nat.add_mul] at room ⊢
    rw [spelled, List.flatMap_append, blanks, List.append_assoc, List.replicate_append_replicate]
    congr 2
    omega
  refine decode_of_bits encoding (shapeOf_of_variable isVariable ofLength) ?counted ?small ?held
    spelledAll
  case counted =>
    rw [List.length_append, List.length_replicate, total]
    refine Shape.elementCount_fill single ofFixed ?_ fun _ => nonzero
    calc (length + extra) * count
        ≤ (length + extra) * count * descriptor.encoding.bits :=
          Nat.le_mul_of_pos_right _ bits_pos
      _ < wordLimit := by rwa [totalBits]
  case small =>
    rwa [List.length_append, List.length_replicate, total, totalBits]
  case held =>
    intro record member
    rcases List.mem_append.1 member with earlier | later
    · exact held record earlier
    · rw [List.eq_of_mem_replicate later]
      exact holds_blankRecord fields

end Variable

/-- The bytes of records are the bits of their fields in order, filled up with zeros. From them the
records are read back; if they have a variable dimension of a few bits, blank records follow where
a whole step finds room in the last byte. Bytes whose bits are more than a number of 64 bits can
count are left aside there. -/
theorem decode_encode_records
    (checked : descriptor.check = .ok ()) (counted : Counted ⟨shape, .records rows⟩)
    (small : rows.length * descriptor.encoding.bits < wordLimit)
    (exact : ∀ record ∈ rows, ∀ entry ∈ fields.zip record, entry.2.Exact entry.1.bits)
    (encoded : encode descriptor ⟨shape, .records rows⟩ = .ok bytes) :
    (encodedLength descriptor ⟨shape, .records rows⟩ = .ok bytes.length ∧
        bytes.length = (rows.length * descriptor.encoding.bits + 7) / 8 ∧
        Bits.ofBytes bytes =
          rows.flatMap (recordBits fields) ++
            List.replicate (bytes.length * 8 - rows.length * descriptor.encoding.bits) false) ∧
      (descriptor.isVariable = false → decode descriptor bytes = .ok ⟨shape, .records rows⟩) ∧
      ∀ length unit, descriptor.isVariable = true → shape = Shape.fill length descriptor.shape →
        descriptor.unitBits = .ok unit → 0 < unit →
        (unit % 8 ≠ 0 → bytes.length * 8 < wordLimit) →
          (∃ blanks,
            decode descriptor bytes =
              .ok ⟨Shape.fill (if unit % 8 = 0 then length else bytes.length * 8 / unit)
                  descriptor.shape,
                .records (rows ++ List.replicate blanks (blankRecord fields))⟩ ∧
            recordBits fields (blankRecord fields) =
              List.replicate descriptor.encoding.bits false) ∧
          (decode descriptor bytes = .ok ⟨shape, .records rows⟩ ↔
            bytes.length * 8 - length * unit < unit) := by
  obtain ⟨_, single, _⟩ := Descriptor.check_eq_ok_iff.1 checked
  obtain ⟨admitted, _⟩ := (encode_records_eq_ok_iff encoding).1 encoded
  have size : bytes.length = Descriptor.bytesFor (rows.length * descriptor.encoding.bits) :=
    encode_length encoded counted
  have spelled := ofBytes_of_encode encoding encoded
  have held := holds_of_encode encoding encoded exact
  refine ⟨⟨?_, size, spelled⟩, ?_, ?_⟩
  · rw [size]
    exact encodedLength_eq_ok admitted counted small
  · intro fixed
    exact decode_of_fixed encoding fixed checked counted small exact encoded
  · rintro length unit isVariable rfl ofUnit positive short
    have one := variableCount_eq_one single isVariable
    have read := decode_of_variable encoding held counted small size spelled one ofUnit positive
      short
    have rowCount : rows.length = length * Shape.volume (Shape.fixedDimensions descriptor.shape) :=
      (Shape.elementCount_eq_some counted).trans (Shape.volume_fill one length)
    have unit_eq := volume_of_unitBits ofUnit
    refine ⟨⟨_, read, by rw [recordBits_blankRecord, encoding]; rfl⟩, ?_⟩
    rw [rowCount, Nat.mul_assoc, ← unit_eq] at size
    rw [← readLength_eq_iff size positive, read]
    constructor
    · intro same
      have volumes := congrArg (fun value : Value => Shape.volume value.shape) (Except.ok.inj same)
      simp only [Shape.volume_fill one] at volumes
      have step_pos : 0 < Shape.volume (Shape.fixedDimensions descriptor.shape) :=
        Nat.pos_of_ne_zero fun none => by rw [none, Nat.zero_mul] at unit_eq; omega
      exact Nat.eq_of_mul_eq_mul_right step_pos volumes
    · intro same
      rw [same, Nat.sub_self, Nat.zero_mul, List.replicate_zero, List.append_nil]

end Travel

/-- Three records of four bits are read as four. -/
theorem decode_encode_records_of_four_bits :
    let fields : List Field := [{ kind := .uint, bits := 3 }, { kind := .bool, bits := 1 }]
    let descriptor : Descriptor := ⟨0x1000, "flags", "", [none], .records fields⟩
    let rows : List (List Scalar) :=
      [[.uint 5, .bool true], [.uint 0, .bool false], [.uint 7, .bool true]]
    encode descriptor ⟨[3], .records rows⟩ = .ok [0xb0, 0xf0] ∧
      decode descriptor [0xb0, 0xf0] ≠ .ok ⟨[3], .records rows⟩ ∧
      ∃ blanks,
        decode descriptor [0xb0, 0xf0] =
          .ok ⟨[4], .records (rows ++ List.replicate blanks (blankRecord fields))⟩ := by
  intro fields descriptor rows
  have checked : descriptor.check = .ok () := by decide +kernel
  have encoded : encode descriptor ⟨[3], .records rows⟩ = .ok [0xb0, 0xf0] := by decide +kernel
  have exact : ∀ record ∈ rows, ∀ entry ∈ fields.zip record, entry.2.Exact entry.1.bits := by
    simp only [rows, fields, List.forall_mem_cons, List.zip_cons_cons, List.zip_nil_left,
      List.not_mem_nil, false_imp_iff, implies_true, and_true, Scalar.Exact]
  have encoding : descriptor.encoding = .records fields := rfl
  have counted : Counted ⟨[3], .records rows⟩ := rfl
  obtain ⟨_, _, inVariable⟩ :=
    decode_encode_records encoding checked counted (by decide) exact encoded
  obtain ⟨⟨blanks, read, _⟩, same⟩ :=
    inVariable 3 4 rfl rfl (by decide +kernel) (by decide) (by decide)
  refine ⟨encoded, ?_, blanks, read⟩
  rw [Ne, same]
  decide

end Value

end Spead
