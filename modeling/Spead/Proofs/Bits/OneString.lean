import Spead.Proofs.Bits.ByteByByte

/-!
One string of bits, written call by call and read call by call.

Whatever calls a writer gets, its bytes spell the fields that were not too wide, one after the
other; a reader that asks for the same widths gets the fields back; and a reader that asks for
other widths gets the same string cut otherwise. The writer and the reader that go byte by byte on
machine words do the same.
-/

namespace Spead
namespace Bits

/-- A number in two's complement, or rather its `count` low bits. -/
def ofInt (count : Nat) (value : Int) : List Bool :=
  ofNat count (value % 2 ^ count).toNat

/-- The string of some fields, which are numbers with their widths. -/
def ofFields (fields : List (Int × Nat)) : List Bool :=
  fields.flatMap fun field => ofInt field.2 field.1

def widthOf (fields : List (Int × Nat)) : Nat :=
  (fields.map Prod.snd).sum

theorem ofFields_append (front back : List (Int × Nat)) :
    ofFields (front ++ back) = ofFields front ++ ofFields back :=
  List.flatMap_append

theorem length_ofFields (fields : List (Int × Nat)) :
    (ofFields fields).length = widthOf fields := by
  simp [ofFields, widthOf, List.length_flatMap, ofInt]

theorem emod_two_pow_nonneg (value : Int) (width : Nat) : 0 ≤ value % 2 ^ width :=
  Int.emod_nonneg _ (pow_ne_zero _ two_ne_zero)

theorem toNat_emod_two_pow {count width : Nat} (covered : count ≤ width) (value : Int) :
    (value % 2 ^ width).toNat % 2 ^ count = (value % 2 ^ count).toNat := by
  have power : ((2 ^ count : Nat) : Int) = 2 ^ count := Nat.cast_pow 2 count
  have divides : (2 ^ count : Int) ∣ 2 ^ width := pow_dvd_pow 2 covered
  apply Int.natCast_inj.1
  rw [Int.natCast_mod, Int.toNat_of_nonneg (emod_two_pow_nonneg value width), power,
    Int.emod_emod_of_dvd _ divides, Int.toNat_of_nonneg (emod_two_pow_nonneg value count)]

theorem ofInt_natCast (count value : Nat) : ofInt count value = ofNat count value := by
  rw [ofInt, ← ofNat_mod (Nat.le_refl count) value]
  congr 1

theorem ofNat_toNat_emod {count width : Nat} (covered : count ≤ width) (value : Int) :
    ofNat count (value % 2 ^ width).toNat = ofInt count value := by
  rw [ofInt, ← toNat_emod_two_pow covered, ofNat_mod (Nat.le_refl count)]

/-! ## Writing -/

namespace Writer

inductive Call where
  | field (value : UInt64) (count : Nat)
  | signed (value : Int64) (count : Nat)
  | bytes (data : Bytes)

namespace Call

def perform (call : Call) (writer : Writer) : Except Bits.Error Writer :=
  match call with
  | field value count => writer.write value.toNat count
  | signed value count => writer.writeSigned value.toInt count
  | bytes data => .ok (writer.writeBytes data)

/-- The writer behind the call. One that fails makes nothing of it. -/
def leave (call : Call) (writer : Writer) : Writer :=
  match call.perform writer with
  | .ok next => next
  | .error _ => writer

def perform? (call : Call) (writer : ByteWriter) :
    Option (Except Bits.Error Unit × ByteWriter) :=
  match call with
  | field value count => writer.write? value count
  | signed value count => writer.write? value.toUInt64 count
  | bytes data => writer.writeBytes? data

def fields : Call → List (Int × Nat)
  | field value count => if count ≤ maxFieldBits then [(value.toNat, count)] else []
  | signed value count => if count ≤ maxFieldBits then [(value.toInt, count)] else []
  | bytes data => data.map fun byte => ((byte.toNat : Int), 8)

/-- The width that the call asks for, if that is too wide. -/
def tooWide? : Call → Option Nat
  | field _ count => if maxFieldBits < count then some count else none
  | signed _ count => if maxFieldBits < count then some count else none
  | bytes _ => none

/-- Whether the call succeeds, which does not depend on the writer. -/
def outcome (call : Call) : Except Bits.Error Unit :=
  match call.tooWide? with
  | some count => .error (.tooWide count)
  | none => .ok ()

end Call

def fieldsOf (calls : List Call) : List (Int × Nat) :=
  calls.flatMap Call.fields

def run (calls : List Call) : Writer :=
  calls.foldl (fun writer call => call.leave writer) .empty

def runBytes? : List Call → ByteWriter → Option (List (Except Bits.Error Unit) × ByteWriter)
  | [], writer => some ([], writer)
  | call :: rest, writer => do
      let (outcome, next) ← call.perform? writer
      let (outcomes, last) ← runBytes? rest next
      return (outcome :: outcomes, last)

theorem perform_eq (call : Call) (writer : Writer) :
    call.perform writer =
      match call.tooWide? with
      | some count => .error (.tooWide count)
      | none => .ok (call.leave writer) := by
  cases call with
  | bytes data => rfl
  | field value count =>
      by_cases narrow : count ≤ maxFieldBits
      · simp [Call.perform, Call.leave, Call.tooWide?, write, narrow, Nat.not_lt.2 narrow]
      · simp [Call.perform, Call.tooWide?, write, narrow, Nat.not_le.1 narrow]
  | signed value count =>
      by_cases narrow : count ≤ maxFieldBits
      · simp [Call.perform, Call.leave, Call.tooWide?, writeSigned, write, narrow,
          Nat.not_lt.2 narrow]
      · simp [Call.perform, Call.tooWide?, writeSigned, write, narrow, Nat.not_le.1 narrow]

/-- A call spells its fields behind what has been written. -/
theorem bits_leave (call : Call) (writer : Writer) :
    (call.leave writer).bits = writer.bits ++ ofFields call.fields := by
  cases call with
  | field value count =>
      by_cases narrow : count ≤ maxFieldBits
      · have left : (Call.field value count).leave writer = writer.append value.toNat count := by
          simp [Call.leave, Call.perform, write, narrow]
        simp [left, bits_append, Call.fields, narrow, ofFields, ofInt_natCast]
      · have left : (Call.field value count).leave writer = writer := by
          simp [Call.leave, Call.perform, write, narrow]
        simp [left, Call.fields, narrow, ofFields]
  | signed value count =>
      by_cases narrow : count ≤ maxFieldBits
      · have left : (Call.signed value count).leave writer =
            writer.append (value.toInt % 2 ^ maxFieldBits).toNat count := by
          simp [Call.leave, Call.perform, writeSigned, write, narrow]
        simp [left, bits_append, Call.fields, narrow, ofFields, ofNat_toNat_emod narrow]
      · have left : (Call.signed value count).leave writer = writer := by
          simp [Call.leave, Call.perform, writeSigned, write, narrow]
        simp [left, Call.fields, narrow, ofFields]
  | bytes data =>
      have left : (Call.bytes data).leave writer = writer.writeBytes data := rfl
      rw [left, bits_writeBytes]
      simp [Call.fields, ofFields, ofBytes, List.flatMap_map, ofInt_natCast]

theorem run_append (before after : List Call) :
    run (before ++ after) = after.foldl (fun writer call => call.leave writer) (run before) :=
  List.foldl_append

/-- What is written is the string of the fields. -/
theorem bits_run (calls : List Call) : (run calls).bits = ofFields (fieldsOf calls) := by
  induction calls using List.reverseRecOn with
  | nil => rfl
  | append_singleton before call inductionHypothesis =>
      rw [run_append, fieldsOf, List.flatMap_append, ofFields_append]
      change (call.leave (run before)).bits = _
      rw [bits_leave, inductionHypothesis]
      simp [fieldsOf]

/-- The bytes are the string of the fields, filled up with zeros. -/
theorem ofBytes_finish_run (calls : List Call) :
    ∃ padding < 8, ofBytes (run calls).finish =
      ofFields (fieldsOf calls) ++ List.replicate padding false := by
  have filled := length_finish (run calls)
  exact ⟨_, by omega, bits_run calls ▸ ofBytes_finish (run calls)⟩

/-- Byte by byte, a call does the same and leaves the same. -/
theorem perform?_of (call : Call) (writer : Writer) :
    call.perform? (.of writer) =
      some ((call.perform writer).map fun _ => (), .of (call.leave writer)) := by
  have field (value : UInt64) (count : Nat) :
      ByteWriter.write? value count (.of writer) =
        some ((writer.write value.toNat count).map fun _ => (),
          .of (match writer.write value.toNat count with
            | .ok next => next
            | .error _ => writer)) := by
    rw [ByteWriter.write?_of]
    cases writer.write value.toNat count with
    | ok next => rfl
    | error cause => rfl
  cases call with
  | field value count => exact field value count
  | signed value count =>
      have written := field value.toUInt64 count
      rw [toNat_toUInt64] at written
      exact written
  | bytes data => exact ByteWriter.writeBytes?_of writer data

theorem runBytes?_of (calls : List Call) (writer : Writer) :
    runBytes? calls (.of writer) =
      some (calls.map Call.outcome,
        .of (calls.foldl (fun current call => call.leave current) writer)) := by
  induction calls generalizing writer with
  | nil => rfl
  | cons call rest inductionHypothesis =>
      have returned : ((call.perform writer).map fun _ => ()) = call.outcome := by
        rw [perform_eq, Call.outcome]
        cases call.tooWide? with
        | none => rfl
        | some count => rfl
      rw [runBytes?, perform?_of, returned, Option.bind_eq_bind, Option.bind_some]
      dsimp only
      rw [inductionHypothesis]
      rfl

theorem leave_bytes (data : Bytes) (writer : Writer) :
    (Call.bytes data).leave writer =
      (data.map fun byte => Call.field byte.toUInt64 8).foldl
        (fun current call => call.leave current) writer := by
  have left : (Call.bytes data).leave writer = writer.writeBytes data := rfl
  rw [left, writeBytes_eq_foldl, List.foldl_map]
  rfl

end Writer

/-! ## Reading -/

namespace Reader

inductive Call where
  | field (count : Nat)
  | signed (count : Nat)
  | bit

namespace Call

def width : Call → Nat
  | field count => count
  | signed count => count
  | bit => 1

def perform (call : Call) (reader : Reader) : Except Bits.Error (Int × Reader) :=
  match call with
  | field count => (reader.read count).map fun (value, next) => ((value : Int), next)
  | signed count => reader.readSigned count
  | bit => reader.readBit.map fun (value, next) => ((value.toNat : Int), next)

/-- The reader behind the call. One that fails leaves it where it is. -/
def leave (call : Call) (reader : Reader) : Reader :=
  match call.perform reader with
  | .ok (_, next) => next
  | .error _ => reader

def perform? (call : Call) (reader : ByteReader) :
    Option (Except Bits.Error Int × ByteReader) :=
  match call with
  | field count => do
      let (outcome, next) ← reader.read? count
      return (outcome.map fun value => (value.toNat : Int), next)
  | signed count => do
      let (outcome, next) ← reader.readSigned? count
      return (outcome.map Int64.toInt, next)
  | bit => do
      let (outcome, next) ← reader.read? 1
      return (outcome.map fun value => if value = 1 then 1 else 0, next)

def interpret (call : Call) (value : Nat) : Int :=
  match call with
  | field _ => value
  | signed count => Int.bmod value (2 ^ count)
  | bit => (value == 1).toNat

end Call

def run (data : Bytes) (calls : List Call) : Reader :=
  calls.foldl (fun reader call => call.leave reader) { rest := data }

theorem perform_eq (call : Call) (reader : Reader) :
    call.perform reader =
      (reader.read call.width).map fun (value, next) => (call.interpret value, next) := by
  cases call with
  | field count => rfl
  | signed count =>
      change reader.readSigned count = (reader.read count).map _
      unfold readSigned
      cases reader.read count with
      | ok entry => rfl
      | error cause => rfl
  | bit =>
      change reader.readBit.map _ = (reader.read 1).map _
      unfold readBit
      cases reader.read 1 with
      | ok entry => rfl
      | error cause => rfl

/-- A call makes the same of a number byte by byte. -/
theorem perform?_of_ok
    {call : Call} {reader next : ByteReader} {value : Nat} (narrow : call.width ≤ maxFieldBits)
    (small : value < 2 ^ call.width)
    (read : reader.read? call.width = some (.ok (.ofNat value), next)) :
    call.perform? reader = some (.ok (call.interpret value), next) := by
  have power : 2 ^ call.width ≤ 2 ^ 64 := Nat.pow_le_pow_right Nat.zero_lt_two narrow
  have word : (UInt64.ofNat value).toNat = value :=
    UInt64.toNat_ofNat_of_lt' (small.trans_le power)
  cases call with
  | field count =>
      simp only [Call.width] at read
      simp [Call.perform?, read, Except.map, Call.interpret, word]
  | signed count =>
      simp only [Call.width] at read narrow small
      obtain ⟨signed, extended, content⟩ :=
        signExtend?_eq (.ofNat value) narrow (by rwa [word])
      rw [word] at content
      simp [Call.perform?, ByteReader.readSigned?, read, extended, content, Except.map,
        Call.interpret]
  | bit =>
      simp only [Call.width] at read small
      obtain rfl | rfl : value = 0 ∨ value = 1 := by omega
      · simp [Call.perform?, read, Except.map, Call.interpret]
      · simp [Call.perform?, read, Except.map, Call.interpret]

theorem perform?_of_error
    {call : Call} {reader next : ByteReader} {cause : Bits.Error}
    (read : reader.read? call.width = some (.error cause, next)) :
    call.perform? reader = some (.error cause, next) := by
  cases call with
  | field count =>
      simp only [Call.width] at read
      simp [Call.perform?, read, Except.map]
  | signed count =>
      simp only [Call.width] at read
      simp [Call.perform?, ByteReader.readSigned?, read, Except.map]
  | bit =>
      simp only [Call.width] at read
      simp [Call.perform?, read, Except.map]

section After

variable {data : Bytes} {position : Nat}

/-- A call that succeeds goes on by its width, within the data. -/
theorem perform_after_of_enough
    {call : Call} (narrow : call.width ≤ maxFieldBits)
    (enough : position + call.width ≤ data.length * 8) :
    call.perform (after data position) =
      .ok (call.interpret (toNat (((ofBytes data).drop position).take call.width)),
        after data (position + call.width)) := by
  rw [perform_eq, read_after narrow enough]
  rfl

theorem exists_perform_after_eq_error
    {call : Call} (inside : position ≤ data.length * 8)
    (refused : ¬ (call.width ≤ maxFieldBits ∧ position + call.width ≤ data.length * 8)) :
    ∃ cause, call.perform (after data position) = .error cause := by
  by_cases narrow : call.width ≤ maxFieldBits
  · have short : data.length * 8 < position + call.width := by
      by_contra enough
      exact refused ⟨narrow, Nat.not_lt.1 enough⟩
    rw [perform_eq, read_after_of_short narrow inside short]
    exact ⟨_, rfl⟩
  · rw [perform_eq, read_of_wide (Nat.not_le.1 narrow)]
    exact ⟨_, rfl⟩

/-- Byte by byte, a call reads the same and leaves the same position. -/
theorem perform?_eq (inside : position ≤ data.length * 8) (call : Call) :
    call.perform? ⟨data, position⟩ =
      match call.perform (after data position) with
      | .ok (value, _) => some (.ok value, ⟨data, position + call.width⟩)
      | .error cause => some (.error cause, ⟨data, position⟩) := by
  have read := ByteReader.read?_eq inside call.width
  rw [perform_eq]
  cases outcome : (after data position).read call.width with
  | error cause =>
      rw [outcome] at read
      exact perform?_of_error read
  | ok entry =>
      have accepted : call.width ≤ maxFieldBits ∧ position + call.width ≤ data.length * 8 := by
        by_contra refused
        obtain ⟨cause, failed⟩ := exists_perform_after_eq_error inside refused
        rw [perform_eq, outcome] at failed
        cases failed
      rw [outcome] at read
      rw [read_after accepted.1 accepted.2] at outcome
      cases outcome
      exact perform?_of_ok accepted.1 (toNat_take_lt _ _) read

/-- A call that succeeds goes on by its width and no further than the data; one that fails leaves
the position as it is. -/
theorem leave_after (inside : position ≤ data.length * 8) (call : Call) :
    ∃ next ≤ data.length * 8, call.leave (after data position) = after data next ∧
      (next = position + call.width ∧ (∃ value, call.perform (after data position) =
          .ok (value, after data next)) ∨
        next = position ∧ ∃ cause, call.perform (after data position) = .error cause) := by
  by_cases accepted : call.width ≤ maxFieldBits ∧ position + call.width ≤ data.length * 8
  · have read := perform_after_of_enough accepted.1 accepted.2
    refine ⟨position + call.width, accepted.2, ?_, Or.inl ⟨rfl, _, read⟩⟩
    rw [Call.leave, read]
  · obtain ⟨cause, refused⟩ := exists_perform_after_eq_error inside accepted
    refine ⟨position, inside, ?_, Or.inr ⟨rfl, cause, refused⟩⟩
    rw [Call.leave, refused]

end After

theorem after_zero (data : Bytes) : after data 0 = { rest := data } := by
  simp [after, skip]

/-- No call takes a reader out of its data. -/
theorem exists_run_eq_after (data : Bytes) (calls : List Call) :
    ∃ position ≤ data.length * 8, run data calls = after data position := by
  induction calls using List.reverseRecOn with
  | nil => exact ⟨0, Nat.zero_le _, (after_zero data).symm⟩
  | append_singleton before call inductionHypothesis =>
      obtain ⟨position, inside, reached⟩ := inductionHypothesis
      obtain ⟨next, nextInside, left, _⟩ := leave_after inside call
      refine ⟨next, nextInside, ?_⟩
      rw [run, List.foldl_append]
      change call.leave (run data before) = _
      rw [reached, left]

/-- A field that is read at once is the number of its two parts. -/
theorem read_add
    {data : Bytes} {position first second : Nat} (inside : position ≤ data.length * 8)
    (narrow : first + second ≤ maxFieldBits) :
    match (after data position).read (first + second) with
    | .ok (value, next) =>
        (after data position).read first =
            .ok (value / 2 ^ second, after data (position + first)) ∧
          (after data (position + first)).read second = .ok (value % 2 ^ second, next)
    | .error _ => ∀ high middle, (after data position).read first = .ok (high, middle) →
        ∃ cause, middle.read second = .error cause := by
  by_cases enough : position + (first + second) ≤ data.length * 8
  · have left : first + second ≤ ((ofBytes data).drop position).length := by
      rw [List.length_drop, length_ofBytes]
      omega
    have whole := toNat_take_add left
    have low := toNat_take_lt (((ofBytes data).drop position).drop first) second
    rw [read_after narrow enough, read_after (by omega) (by omega),
      read_after (by omega) (by omega), Nat.add_assoc, whole]
    rw [List.drop_drop] at low ⊢
    have unit := Nat.two_pow_pos second
    dsimp only
    rw [Nat.mul_comm, Nat.mul_add_div unit, Nat.div_eq_of_lt low, Nat.add_zero,
      Nat.mul_add_mod, Nat.mod_eq_of_lt low]
    exact ⟨rfl, rfl⟩
  · rw [read_after_of_short narrow inside (by omega)]
    intro high middle read
    by_cases firstEnough : position + first ≤ data.length * 8
    · rw [read_after (by omega) firstEnough] at read
      cases read
      exact ⟨_, read_after_of_short (by omega) firstEnough (by omega)⟩
    · rw [read_after_of_short (by omega) inside (by omega)] at read
      cases read

/-! ### What has been written -/

/-- Read fields of the given widths, one after the other. -/
def readAll (widths : List Nat) : StateT Reader (Except Bits.Error) (List Nat) :=
  widths.mapM fun width reader => reader.read width

section Fields

variable {data : Bytes} {before behind : List (Int × Nat)} {padding : List Bool}

/-- Behind the fields in front of it, a field is read as its low bits. -/
theorem read_of_ofFields
    {value : Int} {count : Nat} (narrow : count ≤ maxFieldBits)
    (spelled : ofBytes data = ofFields (before ++ (value, count) :: behind) ++ padding) :
    (after data (widthOf before)).read count =
      .ok ((value % 2 ^ count).toNat, after data (widthOf before + count)) := by
  have string : ofBytes data =
      ofFields before ++ (ofInt count value ++ (ofFields behind ++ padding)) := by
    rw [spelled, ofFields_append, List.append_assoc]
    change _ ++ ((ofInt count value ++ ofFields behind) ++ padding) = _
    rw [List.append_assoc]
  have length := congrArg List.length string
  have width : (ofInt count value).length = count := length_ofNat _ _
  rw [length_ofBytes, List.length_append, List.length_append, length_ofFields, width] at length
  have small : (value % 2 ^ count).toNat < 2 ^ count := by
    have power : ((2 ^ count : Nat) : Int) = 2 ^ count := Nat.cast_pow 2 count
    have bound := Int.emod_lt_of_pos value (Int.natCast_pos.2 (Nat.two_pow_pos count))
    rw [power] at bound
    have nonneg := emod_two_pow_nonneg value count
    omega
  rw [read_after narrow (by omega), string, List.drop_left' (length_ofFields before),
    List.take_left' width, ofInt, toNat_ofNat, Nat.mod_eq_of_lt small]

/-- A number that fits the field is read back as it is. -/
theorem readSigned_of_ofFields
    {value : Int} {count : Nat} (narrow : count ≤ maxFieldBits) (positive : 0 < count)
    (low : -2 ^ (count - 1) ≤ value) (high : value < 2 ^ (count - 1))
    (spelled : ofBytes data = ofFields (before ++ (value, count) :: behind) ++ padding) :
    (after data (widthOf before)).readSigned count =
      .ok (value, after data (widthOf before + count)) := by
  have power : ((2 ^ count : Nat) : Int) = 2 ^ count := Nat.cast_pow 2 count
  have double : (2 : Int) ^ count = 2 * 2 ^ (count - 1) := by
    rw [← pow_succ', Nat.sub_add_cancel positive]
  have back : Int.bmod (value % 2 ^ count).toNat (2 ^ count) = value := by
    rw [Int.toNat_of_nonneg (emod_two_pow_nonneg value count), ← power, Int.emod_bmod,
      Int.bmod_eq_of_le (by omega) (by omega)]
  rw [readSigned, read_of_ofFields narrow spelled]
  exact congrArg (fun number => Except.ok (number, after data (widthOf before + count))) back

/-- Read with the widths that they were written with, all fields come back. -/
theorem readAll_of_ofFields
    (before : List (Int × Nat)) {fields : List (Int × Nat)}
    (narrow : ∀ field ∈ fields, field.2 ≤ maxFieldBits)
    (spelled : ofBytes data = ofFields (before ++ fields) ++ padding) :
    (readAll (fields.map Prod.snd)).run (after data (widthOf before)) =
      .ok (fields.map fun field => (field.1 % 2 ^ field.2).toNat,
        after data (widthOf (before ++ fields))) := by
  induction fields generalizing before with
  | nil => rw [List.append_nil]; rfl
  | cons field rest inductionHypothesis =>
      rw [List.forall_mem_cons] at narrow
      have first := read_of_ofFields narrow.1 spelled
      have next : widthOf before + field.2 = widthOf (before ++ [field]) := by
        simp [widthOf]
      rw [next] at first
      have moved : before ++ field :: rest = before ++ [field] ++ rest := by simp
      rw [moved] at spelled ⊢
      have others := inductionHypothesis _ narrow.2 spelled
      rw [List.map_cons, readAll, List.mapM_cons, StateT.run_bind]
      refine Except.bind_eq_ok_iff.2 ⟨_, first, ?_⟩
      rw [StateT.run_bind]
      exact Except.bind_eq_ok_iff.2 ⟨_, others, rfl⟩

end Fields

end Reader

/-! ## One string -/

/-- What a writer has written after some calls. -/
structure Writer.Spelled (calls : List Writer.Call) : Prop where
  /-- The bytes are the low bits of the fields, filled up with zeros. -/
  spelled : ∃ padding < 8, ofBytes (run calls).finish =
    ofFields (fieldsOf calls) ++ List.replicate padding false
  bitLength : (run calls).bitLength = widthOf (fieldsOf calls)
  /-- A call for a field that is too wide fails and changes nothing; all others succeed. -/
  perform : ∀ call : Writer.Call, match call.tooWide? with
    | some count =>
        call.perform (run calls) = .error (.tooWide count) ∧ run (calls ++ [call]) = run calls
    | none => call.perform (run calls) = .ok (run (calls ++ [call]))
  /-- Wherever the writer stands, bytes are written like fields of eight bits. -/
  bytes : ∀ data, (Call.bytes data).leave (run calls) =
    run (calls ++ data.map fun byte => Call.field byte.toUInt64 8)
  /-- Byte by byte, every call returns the same, and the same is written. -/
  byteByByte : ∃ writer, runBytes? calls {} = some (calls.map Call.outcome, writer) ∧
    writer.finish = (run calls).finish ∧ writer.bitLength = (run calls).bitLength
  /-- Read with the widths that they were written with, the fields come back. -/
  readBack : (Reader.readAll ((fieldsOf calls).map Prod.snd)).run' { rest := (run calls).finish } =
    .ok ((fieldsOf calls).map fun field => (field.1 % 2 ^ field.2).toNat)
  /-- So does each of them where it stands, as the number itself if that fits the field. -/
  readBackAt : ∀ before value count after, fieldsOf calls = before ++ (value, count) :: after →
    let reader := Reader.after (run calls).finish (widthOf before)
    let next := Reader.after (run calls).finish (widthOf before + count)
    reader.read count = .ok ((value % 2 ^ count).toNat, next) ∧
      (0 < count → -2 ^ (count - 1) ≤ value → value < 2 ^ (count - 1) →
        reader.readSigned count = .ok (value, next))

/-- What a reader at a position of its data reads. -/
structure Reader.Cuts (data : Bytes) (position : Nat) : Prop where
  /-- A call that succeeds goes on by its width, and one that fails stays. -/
  leave : ∀ call : Reader.Call, ∃ next ≤ data.length * 8,
    call.leave (after data position) = after data next ∧
      (next = position + call.width ∧
          (∃ value, call.perform (after data position) = .ok (value, after data next)) ∨
        next = position ∧ ∃ cause, call.perform (after data position) = .error cause)
  /-- Byte by byte, every call reads the same and leaves the same position. -/
  byteByByte : ∀ call : Reader.Call, call.perform? ⟨data, position⟩ =
    match call.perform (after data position) with
    | .ok (value, _) => some (.ok value, ⟨data, position + call.width⟩)
    | .error cause => some (.error cause, ⟨data, position⟩)
  /-- Two fields are the two parts of the field of both. -/
  read_add : ∀ first second, first + second ≤ maxFieldBits →
    match (after data position).read (first + second) with
    | .ok (value, next) =>
        (after data position).read first =
            .ok (value / 2 ^ second, after data (position + first)) ∧
          (after data (position + first)).read second = .ok (value % 2 ^ second, next)
    | .error _ => ∀ high middle, (after data position).read first = .ok (high, middle) →
        ∃ cause, middle.read second = .error cause

theorem Writer.narrow_of_mem_fieldsOf (calls : List Writer.Call) :
    ∀ field ∈ fieldsOf calls, field.2 ≤ maxFieldBits := by
  intro field member
  obtain ⟨call, _, written⟩ := List.mem_flatMap.1 member
  cases call with
  | field value count =>
      by_cases narrow : count ≤ maxFieldBits
      · simp only [Call.fields, if_pos narrow, List.mem_singleton] at written
        rw [written]
        exact narrow
      · simp [Call.fields, narrow] at written
  | signed value count =>
      by_cases narrow : count ≤ maxFieldBits
      · simp only [Call.fields, if_pos narrow, List.mem_singleton] at written
        rw [written]
        exact narrow
      · simp [Call.fields, narrow] at written
  | bytes data =>
      obtain ⟨byte, _, rfl⟩ := List.mem_map.1 written
      exact (by decide : 8 ≤ maxFieldBits)

/-- The writer and the reader work on one string of bits. -/
theorem one_string_of_bits :
    (∀ calls, Writer.Spelled calls) ∧
      (∀ data calls, ∃ position ≤ data.length * 8,
        Reader.run data calls = Reader.after data position) ∧
      ∀ data position, position ≤ data.length * 8 → Reader.Cuts data position := by
  refine ⟨fun calls => ?_, Reader.exists_run_eq_after, fun data position inside => ?_⟩
  · obtain ⟨padding, short, spelled⟩ := Writer.ofBytes_finish_run calls
    have narrow := Writer.narrow_of_mem_fieldsOf calls
    exact {
      spelled := ⟨padding, short, spelled⟩
      bitLength := by
        rw [← Writer.length_bits, Writer.bits_run, length_ofFields]
      perform := by
        intro call
        have performed := Writer.perform_eq call (Writer.run calls)
        rw [Writer.run_append]
        cases wide : call.tooWide? with
        | some count =>
            rw [wide] at performed
            refine ⟨performed, ?_⟩
            change call.leave (Writer.run calls) = Writer.run calls
            rw [Writer.Call.leave, performed]
        | none =>
            rw [wide] at performed
            exact performed
      bytes := fun data => by rw [Writer.leave_bytes, Writer.run_append]
      byteByByte := ⟨_, Writer.runBytes?_of calls .empty, ByteWriter.finish_of _,
        ByteWriter.bitLength_of _⟩
      readBack := by
        have read := Reader.readAll_of_ofFields [] narrow spelled
        rw [show widthOf [] = 0 from rfl, Reader.after_zero] at read
        exact congrArg (fun outcome => Prod.fst <$> outcome) read
      readBackAt := by
        intro before value count after written
        have fits : count ≤ maxFieldBits :=
          narrow (value, count) (by rw [written]; simp)
        rw [written] at spelled
        exact ⟨Reader.read_of_ofFields fits spelled, fun positive low high =>
          Reader.readSigned_of_ofFields fits positive low high spelled⟩ }
  · exact {
      leave := Reader.leave_after inside
      byteByByte := Reader.perform?_eq inside
      read_add := fun _ _ => Reader.read_add inside }

/-- Calls of all kinds, one of them for a field that is too wide. -/
def mixedCalls : List Writer.Call :=
  [.field 5 3, .field 7 65, .signed (-3) 4, .bytes [0x41]]

theorem one_string_of_mixed_calls :
    (Writer.run mixedCalls).finish = [0xBA, 0x82] ∧ Writer.Spelled mixedCalls ∧
      5 ≤ ([0xAA] : Bytes).length * 8 ∧ Reader.Cuts [0xAA] 5 :=
  ⟨by decide, one_string_of_bits.1 mixedCalls, by decide,
    one_string_of_bits.2.2 [0xAA] 5 (by decide)⟩

end Bits
end Spead
