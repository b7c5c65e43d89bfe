import Spead.Proofs.Bits.ByteByByte
import Spead.Proofs.Descriptor.Accepted
import Spead.Proofs.Value.Records
import Spead.Proofs.Value.Walk

/-!
Values read on machine words.

The functions here do what `decode` and `decodeImmediate` do, but every number has to be a word,
every division by something else than zero, and every byte and every element has to be there. For
an accepted descriptor, and bytes whose bits can be counted, no step breaks: a count that has been
found with care bounds all products that come after it.
-/

namespace Spead

/-! ## Divisions -/

def quotient? (left right : Nat) : Option Nat :=
  if right = 0 then none else some (left / right)

def remainder? (left right : Nat) : Option Nat :=
  if right = 0 then none else some (left % right)

theorem quotient?_of_ne {left right : Nat} (divides : right ≠ 0) :
    quotient? left right = some (left / right) :=
  if_neg divides

theorem remainder?_of_ne {left right : Nat} (divides : right ≠ 0) :
    remainder? left right = some (left % right) :=
  if_neg divides

namespace Value

/-! ## Shapes -/

def variableLength? (descriptor : Descriptor) (length : Nat) : ExceptT CodecError Option Nat := do
  let unit ← descriptor.unitBits?
  if unit = 0 then
    return 0
  else if unit % 8 = 0 then do
    let surplus ← remainder? length (unit / 8)
    if surplus = 0 then
      quotient? length (unit / 8)
    else
      throw (.raggedValue descriptor.id length)
  else do
    let bits ← word? (length * 8)
    quotient? bits unit

def shapeOf? (descriptor : Descriptor) (length : Nat) : ExceptT CodecError Option (List Nat) := do
  if descriptor.isVariable then
    return Shape.fill (← variableLength? descriptor length) descriptor.shape
  else
    return Shape.fixedDimensions descriptor.shape

section Shapes

variable {descriptor : Descriptor} {length : Nat}

theorem yields_variableLength?
    (accepted : descriptor.encoding.bits < wordLimit) (short : length * 8 < wordLimit) :
    Yields (variableLength? descriptor length) (variableLength descriptor length) := by
  refine .bind (Descriptor.yields_unitBits? accepted) fun unit _ => ?_
  by_cases none : unit = 0
  · rw [if_pos none, if_pos none]
    exact yields_pure _
  rw [if_neg none, if_neg none]
  by_cases whole : unit % 8 = 0
  · have divides : unit / 8 ≠ 0 := by omega
    rw [if_pos whole, if_pos whole]
    refine .step (remainder?_of_ne divides) ?_
    by_cases exact : length % (unit / 8) = 0
    · rw [if_pos exact, if_pos exact, quotient?_of_ne divides]
      exact yields_pure _
    · rw [if_neg exact, if_neg exact]
      exact yields_throw _
  · rw [if_neg whole, if_neg whole]
    refine .step (word?_of_lt short) ?_
    rw [quotient?_of_ne none]
    exact yields_pure _

theorem yields_shapeOf?
    (accepted : descriptor.encoding.bits < wordLimit) (short : length * 8 < wordLimit) :
    Yields (shapeOf? descriptor length) (shapeOf descriptor length) := by
  unfold shapeOf? shapeOf
  cases descriptor.isVariable with
  | true => exact .bind (yields_variableLength? accepted short) fun _ _ => yields_pure _
  | false => exact yields_pure _

end Shapes

/-! ## Records -/

/-- Read a field of a record. The reader counts the bits of its data first. -/
def readField? (field : Field) :
    StateT Bits.ByteReader (ExceptT Bits.Error Option) Scalar := fun reader => do
  let _ ← word? (reader.data.length * 8)
  match field.kind with
  | .int => do
      let (outcome, next) ← reader.readSigned? field.bits
      let value ← ExceptT.mk (some outcome)
      return (.int value.toInt, next)
  | _ => do
      let (outcome, next) ← reader.read? field.bits
      let word ← ExceptT.mk (some outcome)
      return (field.scalarOf word.toNat, next)

def decodeRecords? (fields : List Field) (count : Nat) (bytes : Bytes) :
    ExceptT Bits.Error Option (List (List Scalar)) :=
  ((List.range count).mapM fun _ => fields.mapM readField?).run' { data := bytes }

/-- From any position in the data, a computation on machine words comes to what another one comes
to, and goes as far. -/
def Follows
    {result : Type} (data : Bytes)
    (checked : StateT Bits.ByteReader (ExceptT Bits.Error Option) result)
    (plain : StateT Bits.Reader (Except Bits.Error) result) : Prop :=
  ∀ position ≤ data.length * 8, ∃ outcome : Except Bits.Error (result × Nat),
    Yields (checked.run ⟨data, position⟩)
        (outcome.map fun found => (found.1, ⟨data, found.2⟩)) ∧
      plain.run (Bits.Reader.after data position) =
        outcome.map (fun found => (found.1, Bits.Reader.after data found.2)) ∧
      ∀ value stop, outcome = .ok (value, stop) → stop ≤ data.length * 8

section Follows

variable {data : Bytes} {start result : Type}

theorem Follows.pure (value : result) : Follows data (pure value) (pure value) := by
  intro position inside
  refine ⟨.ok (value, position), rfl, rfl, ?_⟩
  rintro _ _ ⟨⟩
  exact inside

theorem Follows.bind
    {checked : StateT Bits.ByteReader (ExceptT Bits.Error Option) start}
    {plain : StateT Bits.Reader (Except Bits.Error) start}
    {next : start → StateT Bits.ByteReader (ExceptT Bits.Error Option) result}
    {others : start → StateT Bits.Reader (Except Bits.Error) result}
    (first : Follows data checked plain)
    (continues : ∀ value, Follows data (next value) (others value)) :
    Follows data (checked >>= next) (plain >>= others) := by
  intro position inside
  obtain ⟨outcome, yields, same, within⟩ := first position inside
  rw [StateT.run_bind, StateT.run_bind, same]
  cases outcome with
  | error cause => exact ⟨.error cause, yields.bind_error _, rfl, nofun⟩
  | ok found =>
      obtain ⟨value, stop⟩ := found
      obtain ⟨final, yieldsBehind, sameBehind, withinBehind⟩ :=
        continues value stop (within _ _ rfl)
      exact ⟨final, yields.bind_ok yieldsBehind, sameBehind, withinBehind⟩

theorem Follows.mapM
    {item : Type} {checked : item → StateT Bits.ByteReader (ExceptT Bits.Error Option) result}
    {plain : item → StateT Bits.Reader (Except Bits.Error) result}
    (each : ∀ entry, Follows data (checked entry) (plain entry)) (items : List item) :
    Follows data (items.mapM checked) (items.mapM plain) := by
  induction items with
  | nil => exact .pure []
  | cons entry rest inductionHypothesis =>
      rw [List.mapM_cons, List.mapM_cons]
      exact (each entry).bind fun _ => inductionHypothesis.bind fun _ => .pure _

theorem yields_readField?_of_ok
    {field : Field} {reader next : Bits.ByteReader} {word : Nat}
    (short : reader.data.length * 8 < wordLimit) (small : word < 2 ^ field.bits)
    (read : reader.read? field.bits = some (.ok (.ofNat word), next)) :
    Yields ((readField? field).run reader) (.ok (field.scalarOf word, next)) := by
  have narrow : field.bits ≤ 64 := FieldKind.le_of_supports field.supported
  have power : 2 ^ field.bits ≤ 2 ^ 64 := Nat.pow_le_pow_right Nat.two_pos narrow
  have same : (UInt64.ofNat word).toNat = word := UInt64.toNat_ofNat_of_lt' (small.trans_le power)
  refine .step (word?_of_lt short) ?_
  cases kind : field.kind with
  | int =>
      obtain ⟨value, extended, content⟩ :=
        Bits.signExtend?_eq (.ofNat word) narrow (by rwa [same])
      have signed : reader.readSigned? field.bits = some (.ok value, next) := by
        simp [Bits.ByteReader.readSigned?, read, extended]
      refine .step signed ?_
      rw [same] at content
      rw [Field.scalarOf, kind, ← content]
      exact yields_pure _
  | _ =>
      refine .step read ((yields_mk _).bind_ok ?_)
      rw [same]
      exact yields_pure _

theorem yields_readField?_of_error
    {field : Field} {reader next : Bits.ByteReader} {cause : Bits.Error}
    (short : reader.data.length * 8 < wordLimit)
    (read : reader.read? field.bits = some (.error cause, next)) :
    Yields ((readField? field).run reader) (.error cause) := by
  refine .step (word?_of_lt short) ?_
  cases field.kind with
  | int =>
      have signed : reader.readSigned? field.bits = some (.error cause, next) := by
        simp [Bits.ByteReader.readSigned?, read]
      exact .step signed (yields_throw _)
  | _ => exact .step read (yields_throw _)

theorem follows_readField? (short : data.length * 8 < wordLimit) (field : Field) :
    Follows data (readField? field) (decodeField field) := by
  intro position inside
  have narrow : field.bits ≤ Bits.maxFieldBits := FieldKind.le_of_supports field.supported
  have read := Bits.ByteReader.read?_eq inside field.bits
  rw [decodeField_eq]
  by_cases enough : position + field.bits ≤ data.length * 8
  · rw [Bits.Reader.read_after narrow enough] at read ⊢
    refine ⟨.ok (field.scalarOf _, position + field.bits), ?_, rfl, ?_⟩
    · exact yields_readField?_of_ok short (Bits.toNat_take_lt _ _) read
    · rintro _ _ ⟨⟩
      exact enough
  · rw [Bits.Reader.read_after_of_short narrow inside (Nat.not_le.1 enough)] at read ⊢
    exact ⟨.error _, yields_readField?_of_error short read, rfl, nofun⟩

theorem yields_decodeRecords?
    (short : data.length * 8 < wordLimit) (fields : List Field) (count : Nat) :
    Yields (decodeRecords? fields count data) (decodeRecords fields count data) := by
  have follows : Follows data ((List.range count).mapM fun _ => fields.mapM readField?)
      ((List.range count).mapM fun _ => fields.mapM decodeField) :=
    .mapM (fun _ => .mapM (follows_readField? short) fields) _
  obtain ⟨outcome, yields, same, _⟩ := follows 0 (Nat.zero_le _)
  have start : Bits.Reader.after data 0 = { rest := data } := by
    simp [Bits.Reader.after, Bits.Reader.skip]
  have records := yields.map Prod.fst
  have plain : decodeRecords fields count data =
      (outcome.map fun found => (found.1, Bits.Reader.after data found.2)).map Prod.fst := by
    rw [← same, start]
    rfl
  rw [plain]
  cases outcome with
  | error cause => exact records
  | ok found => exact records

end Follows

/-! ## Values -/

def decode? (descriptor : Descriptor) (bytes : Bytes) : ExceptT Error Option Value := do
  let shape ← widen (shapeOf? descriptor bytes.length)
  let count ← widen (.mk (some (descriptor.countFor shape)))
  let bits ← widen (descriptor.bitsFor? count)
  let required := Descriptor.bytesFor bits
  if bytes.length < required then
    throw (CodecError.valueTooShort descriptor.id required bytes.length : Error)
  let held ← bytes.slice? 0 required
  match descriptor.encoding with
  | .elements type order => do
      let words ← decodeElements? type order shape count held
      return ⟨shape, .elements (.ofWords type.toElement words)⟩
  | .records fields => do
      let records ← widen (decodeRecords? fields count held)
      return ⟨shape, .records records⟩

def sizeIfFixed? (descriptor : Descriptor) : Option (Option Nat) :=
  if descriptor.isVariable then
    some none
  else do
    let unit ← descriptor.unitBits?.run
    return unit.toOption.map Descriptor.bytesFor

/-- Read a value from the value field of a pointer as `decodeImmediate` does. -/
def decodeImmediate? (descriptor : Descriptor) (field : Bytes) : ExceptT Error Option Value := do
  let fixedSize ← sizeIfFixed? descriptor
  match fixedSize with
  | some size =>
      if size ≤ field.length then do
        let start ← difference? field.length size
        let tail ← field.slice? start field.length
        decode? descriptor tail
      else
        throw (CodecError.valueTooShort descriptor.id size field.length : Error)
  | none => decode? descriptor field

section Accepted

variable {descriptor : Descriptor} (accepted : descriptor.Accepted)

include accepted

theorem yields_decode? {bytes : Bytes} (short : bytes.length * 8 < wordLimit) :
    Yields (decode? descriptor bytes) (decode descriptor bytes) := by
  obtain ⟨checked, small⟩ := Descriptor.accepted_iff.1 accepted
  refine .bind (yields_shapeOf? small short).widen fun shape _ => ?_
  refine .bind (yields_mk (descriptor.countFor shape)).widen fun count counted => ?_
  refine .bind (Descriptor.yields_bitsFor? small count).widen fun bits sized => ?_
  rw [liftM_eq_ok_iff] at counted sized
  rw [countFor_eq_ok_iff] at counted
  obtain ⟨bounded, rfl⟩ := bitsFor_eq_ok_iff.1 sized
  refine .guard Iff.rfl fun enough => ?_
  refine .step (Bytes.slice?_of_le (Nat.zero_le _) (Nat.not_lt.1 enough)) ?_
  rw [List.drop_zero]
  cases encoding : descriptor.encoding with
  | elements type order =>
      rw [encoding, Encoding.bits] at bounded enough
      rw [bytesFor_mul] at enough
      have positive := (ElementKind.size_of_supports type.supported).1
      have few : count < wordLimit :=
        (Nat.le_mul_of_pos_right count (by omega)).trans_lt bounded
      have sized : (bytes.take (count * type.size)).length = count * type.size :=
        List.length_take_of_le (Nat.not_lt.1 enough)
      have words := decodeElements?_eq counted few sized order
      rw [sentWords, Bytes.chunks_take] at words
      dsimp only
      rw [Encoding.bits, bytesFor_mul]
      exact .step words (yields_pure _)
  | records fields =>
      have within : (bytes.take (Descriptor.bytesFor
          (count * (Encoding.records fields).bits))).length ≤ bytes.length :=
        List.length_take_le' _ _
      exact .bind (yields_decodeRecords? (by omega) fields count).widen fun _ _ => yields_pure _

theorem sizeIfFixed?_eq : sizeIfFixed? descriptor = some descriptor.fixedSize? := by
  unfold sizeIfFixed? Descriptor.fixedSize?
  split
  · rfl
  · rw [Descriptor.yields_unitBits? (Descriptor.accepted_iff.1 accepted).2]
    rfl

theorem yields_decodeImmediate? {field : Bytes} (short : field.length * 8 < wordLimit) :
    Yields (decodeImmediate? descriptor field) (decodeImmediate descriptor field) := by
  refine .step (sizeIfFixed?_eq accepted) ?_
  unfold decodeImmediate
  cases descriptor.fixedSize? with
  | none => exact yields_decode? accepted short
  | some size =>
      dsimp only
      split
      · next fits =>
          refine .step (difference?_of_le fits) ?_
          refine .step (Bytes.slice?_of_le (Nat.sub_le _ _) (Nat.le_refl _)) ?_
          rw [List.take_length]
          apply yields_decode? accepted
          rw [List.length_drop]
          omega
      · exact yields_throw _

end Accepted

end Value
end Spead
