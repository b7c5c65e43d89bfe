import Spead.Group.Update
import Spead.Proofs.Bits
import Spead.Proofs.Descriptor
import Spead.Proofs.Shape

/-!
Values as they travel.

The bytes of a value are as many as its elements ask for, so that a value of fixed size is found
at the end of the value field of its pointer. The order of one-byte elements, which a receiver is
not told, does not matter to it.
-/

namespace Spead

/-! ## Descriptors that differ in the order of single bytes -/

theorem Bytes.length_le_of_mem_chunks
    {size count : Nat} {bytes chunk : Bytes} (member : chunk ∈ chunks size count bytes) :
    chunk.length ≤ size := by
  obtain ⟨place, inside, rfl⟩ := List.mem_iff_getElem.1 member
  have within : place < count := by rwa [length_chunks] at inside
  have found : (chunks size count bytes)[place]? = _ := getElem?_chunks bytes within
  rw [List.getElem?_eq_getElem inside, Option.some_inj] at found
  rw [found]
  exact List.length_take_le size _

namespace Value

/-- A single byte is read alike in both orders. -/
theorem decodeWord_canonical
    {type : ElementType} {bytes : Bytes} (short : bytes.length ≤ type.size) :
    decodeWord type.canonical bytes = decodeWord type bytes := by
  have kind : type.canonical.kind = type.kind := congrArg Element.kind type.toElement_canonical
  by_cases single : type.size = 1
  · have same : bytes.reverse = bytes := by
      rw [single] at short
      match bytes, short with
      | [], _ => rfl
      | [byte], _ => rfl
    unfold decodeWord
    rw [kind, same]
    cases type.canonical.order <;> cases type.order <;> rfl
  · rw [ElementType.canonical, if_neg single]

theorem variableLength_canonical (descriptor : Descriptor) (length : Nat) :
    variableLength descriptor.canonical length = variableLength descriptor length := by
  simp only [variableLength, Descriptor.unitBits_canonical]
  rfl

theorem shapeOf_canonical (descriptor : Descriptor) (length : Nat) :
    shapeOf descriptor.canonical length = shapeOf descriptor length := by
  simp only [shapeOf, variableLength_canonical]
  rfl

theorem decode_canonical (descriptor : Descriptor) (bytes : Bytes) :
    decode descriptor.canonical bytes = decode descriptor bytes := by
  have countFor (shape : List Nat) :
      descriptor.canonical.countFor shape = descriptor.countFor shape :=
    rfl
  unfold decode
  simp only [shapeOf_canonical, Descriptor.bitsFor_canonical, countFor]
  cases encoding : descriptor.encoding with
  | records fields =>
      have same : descriptor.canonical.encoding = .records fields := by
        simp [Descriptor.canonical, Encoding.canonical, encoding]
      simp only [same]
      rfl
  | elements type order =>
      have same : descriptor.canonical.encoding = .elements type.canonical order := by
        simp [Descriptor.canonical, Encoding.canonical, encoding]
      have element := type.toElement_canonical
      have words (count : Nat) :
          (Bytes.chunks type.size count bytes).map (decodeWord type.canonical) =
            (Bytes.chunks type.size count bytes).map (decodeWord type) := by
        apply List.map_congr_left
        intro chunk member
        exact decodeWord_canonical (Bytes.length_le_of_mem_chunks member)
      simp only [same, element, words]
      rfl

/-! ## Values that have been read -/

/-- Each result is that of its item, in some state. -/
theorem forall₂_of_mapM
    {item result state cause : Type} {step : item → StateT state (Except cause) result}
    {items : List item} {first last : state} {results : List result}
    (stepped : (items.mapM step).run first = .ok (results, last)) :
    List.Forall₂
      (fun entry value => ∃ before after, (step entry).run before = .ok (value, after))
      items results := by
  induction items generalizing first results with
  | nil =>
      cases stepped
      exact .nil
  | cons item rest inductionHypothesis =>
      rw [List.mapM_cons, StateT.run_bind, Except.bind_eq_ok_iff] at stepped
      obtain ⟨⟨head, middle⟩, headStepped, others⟩ := stepped
      rw [StateT.run_bind, Except.bind_eq_ok_iff] at others
      obtain ⟨⟨tail, final⟩, tailStepped, done⟩ := others
      cases done
      exact .cons ⟨first, middle, headStepped⟩ (inductionHypothesis tailStepped)

theorem length_of_decodeRecords
    {fields : List Field} {count : Nat} {bytes : Bytes} {rows : List (List Scalar)}
    (decoded : decodeRecords fields count bytes = .ok rows) :
    rows.length = count := by
  unfold decodeRecords at decoded
  obtain ⟨⟨results, last⟩, stepped, rfl⟩ := Except.map_eq_ok_iff.1 decoded
  rw [← (forall₂_of_mapM stepped).length_eq, List.length_range]

theorem countFor_eq_ok_iff {descriptor : Descriptor} {dimensions : List Nat} {count : Nat} :
    descriptor.countFor dimensions = .ok count ↔ Shape.elementCount dimensions = some count := by
  unfold Descriptor.countFor
  cases Shape.elementCount dimensions with
  | none => simp
  | some found => simp

theorem bitsFor_eq_ok_iff {descriptor : Descriptor} {count bits : Nat} :
    descriptor.bitsFor count = .ok bits ↔
      count * descriptor.encoding.bits < wordLimit ∧
        bits = count * descriptor.encoding.bits := by
  unfold Descriptor.bitsFor
  by_cases small : count * descriptor.encoding.bits < wordLimit
  · simp [small, eq_comm]
  · simp [small]

/-- What is known of a value that has been read. -/
structure Read (descriptor : Descriptor) (bytes : Bytes) (value : Value) (bits : Nat) : Prop where
  shape : shapeOf descriptor bytes.length = .ok value.shape
  counted : descriptor.countFor value.shape = .ok value.content.count
  sized : descriptor.bitsFor value.content.count = .ok bits
  enough : Descriptor.bytesFor bits ≤ bytes.length

theorem decode_eq_ok
    {descriptor : Descriptor} {bytes : Bytes} {value : Value}
    (decoded : decode descriptor bytes = .ok value) :
    ∃ bits, Read descriptor bytes value bits := by
  unfold decode at decoded
  obtain ⟨shape, ofShape, decoded⟩ := Except.bind_eq_ok_iff.1 decoded
  obtain ⟨count, counted, decoded⟩ := Except.bind_eq_ok_iff.1 decoded
  obtain ⟨bits, sized, decoded⟩ := Except.bind_eq_ok_iff.1 decoded
  rw [liftM_eq_ok_iff] at ofShape counted sized
  obtain ⟨enough, decoded⟩ := Except.guard_eq_ok_iff.1 decoded
  have volume := Shape.elementCount_eq_some (countFor_eq_ok_iff.1 counted)
  have built : value.shape = shape ∧ value.content.count = count := by
    cases encoding : descriptor.encoding with
    | elements type order =>
        simp only [encoding] at decoded
        cases decoded
        refine ⟨rfl, ?_⟩
        simp only [Content.count, ElementArray.ofWords, List.length_map]
        unfold memoryOrder
        split
        · simp
        · split
          · simp [volume]
          · simp
    | records fields =>
        simp only [encoding] at decoded
        obtain ⟨rows, ofRows, decoded⟩ := Except.bind_eq_ok_iff.1 decoded
        rw [liftM_eq_ok_iff] at ofRows
        cases decoded
        exact ⟨rfl, length_of_decodeRecords ofRows⟩
  obtain ⟨rfl, rfl⟩ := built
  exact ⟨bits, ofShape, counted, sized, Nat.le_of_not_lt enough⟩

/-! ## Values that are written -/

@[simp] theorem length_encodeWord (type : ElementType) (word : Nat) :
    (encodeWord type word).length = type.size := by
  unfold encodeWord
  split
  · exact Bytes.length_littleEndian _ _
  · exact Bytes.length_bigEndian _ _

theorem length_sendingOrder
    {shape : List Nat} {words : List Nat} (counted : words.length = Shape.volume shape)
    (order : ElementOrder) :
    (sendingOrder order shape words).length = Shape.volume shape := by
  unfold sendingOrder
  split
  · exact counted
  · split
    · simp
    · exact counted

theorem bitLength_encodeRecord
    {descriptor : Descriptor} {fields : List Field} {writer next : Bits.Writer}
    {record : List Scalar} (written : encodeRecord descriptor fields writer record = .ok next) :
    next.bitLength = writer.bitLength + (fields.map Field.bits).sum := by
  unfold encodeRecord at written
  obtain ⟨sameLength, written⟩ := Except.guard_eq_ok_iff.1 written
  rw [not_not] at sameLength
  have sized (writer : Bits.Writer) (entry : Field × Scalar) (next : Bits.Writer)
      (stepped :
        (do
          let word ← fieldWord descriptor entry.1 entry.2
          writer.write word entry.1.bits : Except Error Bits.Writer) = .ok next) :
      next.bitLength = writer.bitLength + entry.1.bits := by
    obtain ⟨word, _, moved⟩ := Except.bind_eq_ok_iff.1 stepped
    rw [liftM_eq_ok_iff] at moved
    exact Bits.Writer.bitLength_write moved
  have total := Bits.Writer.bitLength_foldlM sized written
  have widths : (fields.zip record).map (fun entry => entry.1.bits) = fields.map Field.bits := by
    have firsts : (fields.zip record).map Prod.fst = fields := List.map_fst_zip (by omega)
    conv_rhs => rw [← firsts, List.map_map]
    rfl
  rw [total, widths]

/-- The bytes of a value are those that its elements fill. -/
theorem encode_length
    {descriptor : Descriptor} {value : Value} {bytes : Bytes}
    (encoded : value.encode descriptor = .ok bytes)
    (counted : Shape.elementCount value.shape = some value.content.count) :
    bytes.length = Descriptor.bytesFor (value.content.count * descriptor.encoding.bits) := by
  have volume := Shape.elementCount_eq_some counted
  unfold encode at encoded
  obtain ⟨_, _, encoded⟩ := Except.bind_eq_ok_iff.1 encoded
  cases encoding : descriptor.encoding with
  | elements type order =>
      cases content : value.content with
      | records rows =>
          simp only [encoding, content] at encoded
          cases encoded
      | elements array =>
          simp only [encoding, content] at encoded
          obtain ⟨_, encoded⟩ := Except.guard_eq_ok_iff.1 encoded
          cases encoded
          rw [content] at volume
          have sent := length_sendingOrder volume order
          simp only [List.length_flatMap, length_encodeWord, List.map_const', sent,
            List.sum_replicate_nat, Encoding.bits, volume, Descriptor.bytesFor]
          rw [← Nat.mul_assoc]
          omega
  | records fields =>
      cases content : value.content with
      | elements array =>
          simp only [encoding, content] at encoded
          cases encoded
      | records rows =>
          simp only [encoding, content] at encoded
          obtain ⟨writer, written, encoded⟩ := Except.bind_eq_ok_iff.1 encoded
          cases encoded
          have total :=
            Bits.Writer.bitLength_foldlM (fun _ _ _ => bitLength_encodeRecord) written
          rw [List.map_const', List.sum_replicate_nat, Bits.Writer.bitLength_empty,
            Nat.zero_add] at total
          rw [Bits.Writer.length_finish, total]
          rfl

/-! ## Values that travel -/

/-- The value is read back from its bytes. -/
def RoundTrips (descriptor : Descriptor) (value : Value) : Prop :=
  ∃ bytes, value.encode descriptor = .ok bytes ∧ decode descriptor bytes = .ok value

theorem Read.fixedSize?
    {descriptor : Descriptor} {bytes : Bytes} {value : Value} {bits : Nat}
    (read : Read descriptor bytes value bits) (fixed : descriptor.isVariable = false) :
    descriptor.fixedSize? = some (Descriptor.bytesFor bits) := by
  have shape : value.shape = Shape.fixedDimensions descriptor.shape := by
    have read := read.shape
    unfold shapeOf at read
    rw [fixed] at read
    exact (Except.ok.inj read).symm
  have unit : descriptor.unitBits = .ok bits := by
    unfold Descriptor.unitBits
    rw [Except.bind_eq_ok_iff, ← shape]
    exact ⟨_, read.counted, read.sized⟩
  unfold Descriptor.fixedSize?
  rw [fixed, unit]
  rfl

theorem decodeImmediate_canonical (descriptor : Descriptor) (field : Bytes) :
    decodeImmediate descriptor.canonical field = decodeImmediate descriptor field := by
  have fixedSize : descriptor.canonical.fixedSize? = descriptor.fixedSize? := by
    unfold Descriptor.fixedSize?
    rw [Descriptor.unitBits_canonical]
    rfl
  unfold decodeImmediate
  simp only [fixedSize, decode_canonical]
  rfl

theorem readValue_canonical (descriptor : Descriptor) (received : ReceivedItem) :
    Group.readValue descriptor.canonical received = Group.readValue descriptor received := by
  unfold Group.readValue
  rw [decodeImmediate_canonical, decode_canonical]

section Travel

variable {descriptor : Descriptor} {bytes : Bytes}

/-- Bytes of the size that the descriptor asks for stand at the end of the value field. -/
theorem decodeImmediate_immediateBytes
    (sized : descriptor.fixedSize? = some bytes.length) {flavour : Flavour}
    (short : bytes.length ≤ flavour.addressBytes) :
    decodeImmediate descriptor (flavour.immediateBytes (Bytes.toNat bytes)) =
      decode descriptor bytes := by
  -- The field begins with zeros, and the bytes follow to its end.
  have field : (flavour.immediateBytes (Bytes.toNat bytes)).length = flavour.addressBytes :=
    Bytes.length_bigEndian _ _
  have tail :
      (flavour.immediateBytes (Bytes.toNat bytes)).drop (flavour.addressBytes - bytes.length) =
        bytes := by
    rw [Flavour.immediateBytes, Bytes.bigEndian_toNat_of_le short]
    apply List.drop_left'
    exact List.length_replicate
  unfold decodeImmediate
  simp only [sized, field, if_pos short, tail]

/-- Whether bytes travel in a pointer or in the payload, the same is read from them. -/
theorem readValue_arrival_eq_decode
    (sized : descriptor.isVariable = false → descriptor.fixedSize? = some bytes.length)
    (flavour : Flavour) (id : Nat) :
    Group.readValue descriptor
        (Heap.arrival flavour ⟨id, .bytes bytes !descriptor.isVariable⟩) =
      decode descriptor bytes := by
  unfold Heap.arrival
  dsimp only
  split
  · next immediate =>
      rw [Bool.and_eq_true, Bool.not_eq_true'] at immediate
      obtain ⟨fixed, fits⟩ := immediate
      simp only [Group.readValue, if_true]
      exact decodeImmediate_immediateBytes (sized fixed)
        (Flavour.le_addressBytes_of_fitsImmediate fits)
  · simp [Group.readValue]

theorem readValue_arrival
    {value : Value} (encoded : value.encode descriptor = .ok bytes)
    (decoded : decode descriptor bytes = .ok value) (flavour : Flavour) (id : Nat) :
    Group.readValue descriptor.canonical
      (Heap.arrival flavour ⟨id, .bytes bytes !descriptor.isVariable⟩) = .ok value := by
  rw [readValue_canonical, readValue_arrival_eq_decode, decoded]
  intro fixed
  obtain ⟨bits, read⟩ := decode_eq_ok decoded
  rw [read.fixedSize? fixed, encode_length encoded (countFor_eq_ok_iff.1 read.counted),
    ← (bitsFor_eq_ok_iff.1 read.sized).2]

end Travel

end Value
end Spead
