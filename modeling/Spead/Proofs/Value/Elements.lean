import Spead.Proofs.ElementOrder
import Spead.Proofs.Value

/-!
Arrays of whole-byte elements read back from their bytes.

A descriptor decides which arrays it describes and which bytes they are. Only where there are no
elements at all, a variable dimension leaves no trace in the bytes.
-/

namespace Spead

/-! ## Single elements -/

theorem Element.wordBound_eq {element : Element} (number : element.kind ≠ .bool) :
    element.wordBound = 256 ^ element.size := by
  unfold wordBound
  split
  · next truth => exact absurd truth number
  · rfl

theorem Element.wordBound_of_bool {element : Element} (truth : element.kind = .bool) :
    element.wordBound = 2 := by
  unfold wordBound
  rw [truth]

theorem Element.wordBound_le (element : Element) : element.wordBound ≤ 256 ^ element.size := by
  by_cases truth : element.kind = .bool
  · have one := (ElementKind.size_of_supports element.supported).1
    calc element.wordBound = 2 := wordBound_of_bool truth
      _ ≤ 256 ^ 1 := by decide
      _ ≤ 256 ^ element.size := Nat.pow_le_pow_right (by decide) one
  · exact Nat.le_of_eq (wordBound_eq truth)

namespace Value

section Words

variable {type : ElementType}

/-- The number that bytes spell in the given order. -/
def orderedNat (order : ByteOrder) (bytes : Bytes) : Nat :=
  match order with
  | .little => Bytes.toNat bytes.reverse
  | .big => Bytes.toNat bytes

theorem orderedNat_lt (order : ByteOrder) (bytes : Bytes) :
    orderedNat order bytes < 256 ^ bytes.length := by
  cases order with
  | big => exact Bytes.toNat_lt bytes
  | little =>
      have small := Bytes.toNat_lt bytes.reverse
      rwa [List.length_reverse] at small

theorem orderedNat_encodeWord {word : Nat} (fits : word < 256 ^ type.size) :
    orderedNat type.order (encodeWord type word) = word := by
  unfold encodeWord
  cases type.order with
  | little => exact (Bytes.toNat_reverse_littleEndian _ _).trans (Nat.mod_eq_of_lt fits)
  | big => exact Bytes.toNat_bigEndian_of_lt fits

theorem encodeWord_orderedNat {bytes : Bytes} (sized : bytes.length = type.size) :
    encodeWord type (orderedNat type.order bytes) = bytes := by
  unfold encodeWord
  rw [← sized]
  cases type.order with
  | big => exact Bytes.bigEndian_toNat bytes
  | little =>
      have reversed := Bytes.bigEndian_toNat bytes.reverse
      rw [Bytes.bigEndian, List.length_reverse] at reversed
      exact List.reverse_injective reversed

theorem decodeWord_of_bool (truth : type.kind = .bool) (bytes : Bytes) :
    decodeWord type bytes = min (orderedNat type.order bytes) 1 := by
  unfold decodeWord
  rw [truth]
  rfl

theorem decodeWord_of_ne_bool (number : type.kind ≠ .bool) (bytes : Bytes) :
    decodeWord type bytes = orderedNat type.order bytes := by
  unfold decodeWord
  cases kind : type.kind with
  | bool => exact absurd kind number
  | int => rfl
  | uint => rfl
  | float => rfl

theorem decodeWord_encodeWord {word : Nat} (small : word < type.wordBound) :
    decodeWord type (encodeWord type word) = word := by
  have number := orderedNat_encodeWord (Nat.lt_of_lt_of_le small type.wordBound_le)
  by_cases truth : type.kind = .bool
  · rw [Element.wordBound_of_bool truth] at small
    rw [decodeWord_of_bool truth, number]
    omega
  · rw [decodeWord_of_ne_bool truth, number]

/-- Numbers, unlike truth values, are written as they were read. -/
theorem encodeWord_decodeWord
    {bytes : Bytes} (number : type.kind ≠ .bool) (sized : bytes.length = type.size) :
    encodeWord type (decodeWord type bytes) = bytes := by
  rw [decodeWord_of_ne_bool number, encodeWord_orderedNat sized]

theorem decodeWord_lt {bytes : Bytes} (sized : bytes.length = type.size) :
    decodeWord type bytes < type.wordBound := by
  by_cases truth : type.kind = .bool
  · rw [Element.wordBound_of_bool truth, decodeWord_of_bool truth]
    omega
  · rw [Element.wordBound_eq truth, decodeWord_of_ne_bool truth, ← sized]
    exact orderedNat_lt type.order bytes

end Words

theorem ofWords_eq
    {element : Element} {words : List Nat} (small : ∀ word ∈ words, word < element.wordBound) :
    ElementArray.ofWords element words = ⟨element, words, small⟩ := by
  have same : words.map (· % element.wordBound) = words := by
    have each : ∀ word ∈ words, word % element.wordBound = word :=
      fun word member => Nat.mod_eq_of_lt (small word member)
    rw [List.map_congr_left each, List.map_id']
  simp only [ElementArray.ofWords, same]

/-! ## What is written and read -/

/-- The shape of an array counts its elements, as `make` sees to. -/
def Counted (value : Value) : Prop :=
  Shape.elementCount value.shape = some value.content.count

theorem checkShape_eq_ok_iff {descriptor : Descriptor} {value : Value} :
    checkShape descriptor value = .ok () ↔
      Shape.admits descriptor.shape value.shape = true := by
  unfold checkShape
  by_cases admitted : Shape.admits descriptor.shape value.shape = true
  · simp [admitted]
  · simp [admitted]

section Elements

variable {descriptor : Descriptor} {type : ElementType} {order : ElementOrder}

theorem encode_eq_ok_iff
    (encoding : descriptor.encoding = .elements type order) {value : Value} {bytes : Bytes} :
    value.encode descriptor = .ok bytes ↔
      Shape.admits descriptor.shape value.shape = true ∧
        ∃ array, value.content = .elements array ∧ array.element = type.toElement ∧
          bytes = (sendingOrder order value.shape array.words).flatMap (encodeWord type) := by
  unfold encode
  rw [Except.bind_eq_ok_iff]
  simp only [liftM_eq_ok_iff, encoding]
  cases content : value.content with
  | records rows =>
      constructor
      · rintro ⟨_, _, ⟨⟩⟩
      · rintro ⟨_, _, ⟨⟩, _⟩
  | elements array =>
      simp only [Except.guard_eq_ok_iff, not_not]
      constructor
      · rintro ⟨_, admitted, element, ⟨⟩⟩
        exact ⟨checkShape_eq_ok_iff.1 admitted, array, rfl, element, rfl⟩
      · rintro ⟨admitted, _, ⟨⟩, element, rfl⟩
        exact ⟨(), checkShape_eq_ok_iff.2 admitted, element, rfl⟩

/-- The words of the first elements in some bytes, in the order in which they were sent. -/
def sentWords (type : ElementType) (count : Nat) (bytes : Bytes) : List Nat :=
  (Bytes.chunks type.size count bytes).map (decodeWord type)

theorem length_sentWords (type : ElementType) (count : Nat) (bytes : Bytes) :
    (sentWords type count bytes).length = count := by
  rw [sentWords, List.length_map, Bytes.length_chunks]

theorem bytesFor_mul (count size : Nat) : Descriptor.bytesFor (count * (size * 8)) = count * size := by
  rw [Descriptor.bytesFor, ← Nat.mul_assoc]
  omega

theorem decode_eq_ok_iff
    (encoding : descriptor.encoding = .elements type order) {value : Value} {bytes : Bytes} :
    decode descriptor bytes = .ok value ↔
      ∃ shape count, shapeOf descriptor bytes.length = .ok shape ∧
        Shape.elementCount shape = some count ∧ count * (type.size * 8) < wordLimit ∧
        count * type.size ≤ bytes.length ∧
        value = ⟨shape, .elements
          (.ofWords type.toElement (memoryOrder order shape (sentWords type count bytes)))⟩ := by
  unfold decode
  simp only [Except.bind_eq_ok_iff, liftM_eq_ok_iff, Except.guard_eq_ok_iff, encoding,
    countFor_eq_ok_iff, bitsFor_eq_ok_iff, Encoding.bits, Nat.not_lt]
  constructor
  · rintro ⟨shape, ofShape, count, counted, _, ⟨small, rfl⟩, enough, ⟨⟩⟩
    rw [bytesFor_mul] at enough
    exact ⟨shape, count, ofShape, counted, small, enough, rfl⟩
  · rintro ⟨shape, count, ofShape, counted, small, enough, rfl⟩
    refine ⟨shape, ofShape, count, counted, _, ⟨small, rfl⟩, ?_, rfl⟩
    rwa [bytesFor_mul]

theorem encodedLength_eq_ok
    {value : Value} (admitted : Shape.admits descriptor.shape value.shape = true)
    (counted : value.Counted)
    (small : value.content.count * descriptor.encoding.bits < wordLimit) :
    encodedLength descriptor value =
      .ok (Descriptor.bytesFor (value.content.count * descriptor.encoding.bits)) := by
  unfold encodedLength
  simp only [Except.bind_eq_ok_iff]
  exact ⟨(), checkShape_eq_ok_iff.2 admitted, _, countFor_eq_ok_iff.2 counted, _,
    bitsFor_eq_ok_iff.2 ⟨small, rfl⟩, rfl⟩

/-! ## Reading what was written -/

theorem sentWords_encoded
    {words : List Nat} (small : ∀ word ∈ words, word < type.wordBound) (behind : Bytes) :
    sentWords type words.length (words.flatMap (encodeWord type) ++ behind) = words := by
  have sized : ∀ block ∈ words.map (encodeWord type), block.length = type.size := by
    intro block member
    obtain ⟨word, _, rfl⟩ := List.mem_map.1 member
    exact length_encodeWord type word
  have cut := Bytes.chunks_flatten_append (words.map (encodeWord type)) sized behind
  have each : ∀ word ∈ words, (decodeWord type ∘ encodeWord type) word = word :=
    fun word member => decodeWord_encodeWord (small word member)
  rw [List.length_map, ← List.flatMap_def] at cut
  rw [sentWords, cut, List.map_map, List.map_congr_left each, List.map_id']

/-- If bytes are taken to have the shape of the value that they begin with, it is read. -/
theorem decode_append_of_encode
    (encoding : descriptor.encoding = .elements type order) {value : Value} {bytes : Bytes}
    (counted : value.Counted)
    (small : value.content.count * descriptor.encoding.bits < wordLimit)
    (encoded : value.encode descriptor = .ok bytes) (behind : Bytes)
    (ofShape : shapeOf descriptor (bytes ++ behind).length = .ok value.shape) :
    decode descriptor (bytes ++ behind) = .ok value := by
  have written := encode_length encoded counted
  obtain ⟨admitted, array, content, element, rfl⟩ := (encode_eq_ok_iff encoding).1 encoded
  rcases value with ⟨shape, _⟩
  cases content
  rcases array with ⟨_, words, words_lt⟩
  cases element
  have volume : words.length = Shape.volume shape := Shape.elementCount_eq_some counted
  have sent := length_sendingOrder volume order
  rw [← volume] at sent
  have sent_lt : ∀ word ∈ sendingOrder order shape words, word < type.wordBound := by
    intro word member
    rcases eq_zero_or_mem_of_mem_sendingOrder member with rfl | held
    · exact type.wordBound_pos
    · exact words_lt word held
  rw [encoding] at small written
  refine (decode_eq_ok_iff encoding).2
    ⟨shape, words.length, ofShape, counted, small, ?_, ?_⟩
  · rw [List.length_append, written, Encoding.bits, bytesFor_mul]
    exact Nat.le_add_right _ _
  · have read := sentWords_encoded sent_lt behind
    rw [sent] at read
    rw [read, memoryOrder_sendingOrder volume, ofWords_eq words_lt]

theorem decode_of_shapeOf
    (encoding : descriptor.encoding = .elements type order) {value : Value} {bytes : Bytes}
    (counted : value.Counted)
    (small : value.content.count * descriptor.encoding.bits < wordLimit)
    (encoded : value.encode descriptor = .ok bytes)
    (ofShape : shapeOf descriptor bytes.length = .ok value.shape) :
    decode descriptor bytes = .ok value := by
  have read := decode_append_of_encode encoding counted small encoded []
  rw [List.append_nil] at read
  exact read ofShape

/-! ## Shapes from numbers of bytes -/

theorem variableCount_eq_zero_iff :
    Shape.variableCount descriptor.shape = 0 ↔ descriptor.isVariable = false := by
  rw [Shape.variableCount, List.countP_eq_zero, Descriptor.isVariable, List.any_eq_false]

theorem variableCount_eq_one
    (single : Shape.variableCount descriptor.shape ≤ 1) (isVariable : descriptor.isVariable = true) :
    Shape.variableCount descriptor.shape = 1 := by
  have positive : Shape.variableCount descriptor.shape ≠ 0 := by
    rw [Ne, variableCount_eq_zero_iff, isVariable]
    decide
  omega

theorem shapeOf_of_fixed (fixed : descriptor.isVariable = false) (length : Nat) :
    shapeOf descriptor length = .ok (Shape.fixedDimensions descriptor.shape) := by
  unfold shapeOf
  rw [fixed]
  rfl

theorem shapeOf_of_variable
    (isVariable : descriptor.isVariable = true) {length dimension : Nat}
    (found : variableLength descriptor length = .ok dimension) :
    shapeOf descriptor length = .ok (Shape.fill dimension descriptor.shape) := by
  unfold shapeOf
  rw [isVariable, found]
  rfl

theorem exists_of_shapeOf
    {length : Nat} {shape : List Nat} (ofShape : shapeOf descriptor length = .ok shape) :
    ∃ dimension, shape = Shape.fill dimension descriptor.shape := by
  cases isVariable : descriptor.isVariable with
  | false =>
      rw [shapeOf_of_fixed isVariable] at ofShape
      cases ofShape
      exact ⟨0, (Shape.fill_of_fixed (variableCount_eq_zero_iff.2 isVariable) 0).symm⟩
  | true =>
      unfold shapeOf at ofShape
      rw [isVariable] at ofShape
      obtain ⟨dimension, _, ⟨⟩⟩ := Except.bind_eq_ok_iff.1 ofShape
      exact ⟨dimension, rfl⟩

section VariableLength

variable {count : Nat} (encoding : descriptor.encoding = .elements type order)
  (counted : Shape.elementCount (Shape.fixedDimensions descriptor.shape) = some count)
  (small : count * descriptor.encoding.bits < wordLimit)

include encoding counted small

theorem unitBits_eq_ok : descriptor.unitBits = .ok (count * (type.size * 8)) := by
  unfold Descriptor.unitBits
  rw [Except.bind_eq_ok_iff]
  refine ⟨count, countFor_eq_ok_iff.2 counted, bitsFor_eq_ok_iff.2 ⟨small, ?_⟩⟩
  rw [encoding, Encoding.bits]

theorem variableLength_of_empty (empty : count = 0) (length : Nat) :
    variableLength descriptor length = .ok 0 := by
  have unit := unitBits_eq_ok encoding counted small
  unfold variableLength
  rw [unit, empty, Nat.zero_mul]
  rfl

/-- The length is the number of units of the fixed dimensions. -/
theorem variableLength_mul (inhabited : count ≠ 0) (dimension : Nat) :
    variableLength descriptor (dimension * count * type.size) = .ok dimension := by
  have unit := unitBits_eq_ok encoding counted small
  have size := (ElementKind.size_of_supports type.supported).1
  have bytes : 0 < count * type.size := Nat.mul_pos (Nat.pos_of_ne_zero inhabited) size
  rw [← Nat.mul_assoc] at unit
  have whole : count * type.size * 8 % 8 = 0 := Nat.mul_mod_left _ _
  have perUnit : count * type.size * 8 / 8 = count * type.size :=
    Nat.mul_div_cancel _ (by decide)
  unfold variableLength
  rw [unit, Except.bind_eq_ok_iff]
  refine ⟨_, rfl, ?_⟩
  rw [if_neg (by omega), if_pos whole, perUnit, Nat.mul_assoc, if_pos (Nat.mul_mod_left _ _),
    Nat.mul_div_cancel _ bytes]
  rfl

end VariableLength

/-! ## Whole values -/

/-- The value as it is read back: among no elements, a variable dimension is taken to be zero. -/
def readBack (descriptor : Descriptor) (value : Value) : Value :=
  if descriptor.isVariable = true ∧ some 0 ∈ descriptor.shape then
    ⟨Shape.fill 0 descriptor.shape, value.content⟩
  else
    value

/-- Without elements, values of all shapes that the descriptor admits are written alike. -/
theorem encode_of_empty
    (encoding : descriptor.encoding = .elements type order) {value : Value} {bytes : Bytes}
    (encoded : value.encode descriptor = .ok bytes) (counted : value.Counted)
    (none : value.content.count = 0) {shape : List Nat}
    (admitted : Shape.admits descriptor.shape shape = true) (empty : Shape.volume shape = 0) :
    encode descriptor ⟨shape, value.content⟩ = .ok bytes := by
  obtain ⟨_, array, content, element, rfl⟩ := (encode_eq_ok_iff encoding).1 encoded
  refine (encode_eq_ok_iff encoding).2 ⟨admitted, array, content, element, ?_⟩
  have sent {shape : List Nat} (counted : array.words.length = Shape.volume shape)
      (empty : Shape.volume shape = 0) : sendingOrder order shape array.words = [] := by
    apply List.eq_nil_of_length_eq_zero
    rw [length_sendingOrder counted, empty]
  have volume := Shape.elementCount_eq_some counted
  rw [content] at none volume
  change array.words.length = 0 at none
  change array.words.length = Shape.volume value.shape at volume
  rw [sent volume (volume ▸ none), sent (none.trans empty.symm) empty]

theorem decode_of_encode
    (checked : descriptor.check = .ok ()) (encoding : descriptor.encoding = .elements type order)
    {value : Value} {bytes : Bytes} (counted : value.Counted)
    (small : value.content.count * descriptor.encoding.bits < wordLimit)
    (encoded : value.encode descriptor = .ok bytes) :
    decode descriptor bytes = .ok (value.readBack descriptor) := by
  obtain ⟨_, single, _, bits, sized⟩ := Descriptor.check_eq_ok_iff.1 checked
  obtain ⟨fixedCount, ofFixed, sized⟩ := Except.bind_eq_ok_iff.1 sized
  rw [countFor_eq_ok_iff] at ofFixed
  have unitSmall := (bitsFor_eq_ok_iff.1 sized).1
  have fixedVolume := Shape.elementCount_eq_some ofFixed
  have admitted := ((encode_eq_ok_iff encoding).1 encoded).1
  have volume := Shape.elementCount_eq_some counted
  have written := encode_length encoded counted
  obtain ⟨dimension, filled⟩ := Shape.exists_eq_fill single admitted
  rw [encoding, Encoding.bits, bytesFor_mul, volume] at written
  unfold readBack
  by_cases lost : descriptor.isVariable = true ∧ some 0 ∈ descriptor.shape
  · rw [if_pos lost]
    have one := variableCount_eq_one single lost.1
    have none : fixedCount = 0 := by
      rw [fixedVolume]
      exact Shape.volume_fixedDimensions_eq_zero_iff.2 lost.2
    have empty : Shape.volume (Shape.fill 0 descriptor.shape) = 0 := by
      rw [Shape.volume_fill one, Nat.zero_mul]
    have noElements : value.content.count = 0 := by
      rw [volume, filled, Shape.volume_fill one, ← fixedVolume, none, Nat.mul_zero]
    have countedBack : Counted ⟨Shape.fill 0 descriptor.shape, value.content⟩ := by
      obtain ⟨count, found⟩ := Shape.exists_elementCount_fill_zero ofFixed
      have zero := Shape.elementCount_eq_some found
      rw [Counted, found, zero, empty, noElements]
    apply decode_of_shapeOf encoding countedBack small
    · exact encode_of_empty encoding encoded counted noElements (Shape.admits_fill _ _) empty
    · exact shapeOf_of_variable lost.1 (variableLength_of_empty encoding ofFixed unitSmall none _)
  · rw [if_neg lost]
    apply decode_of_shapeOf encoding counted small encoded
    cases isVariable : descriptor.isVariable with
    | false =>
        rw [shapeOf_of_fixed isVariable, filled,
          Shape.fill_of_fixed (variableCount_eq_zero_iff.2 isVariable)]
    | true =>
        have one := variableCount_eq_one single isVariable
        have inhabited : fixedCount ≠ 0 := by
          intro none
          apply lost
          rw [fixedVolume] at none
          exact ⟨isVariable, Shape.volume_fixedDimensions_eq_zero_iff.1 none⟩
        rw [filled, Shape.volume_fill one, ← fixedVolume] at written
        rw [written, filled]
        exact shapeOf_of_variable isVariable
          (variableLength_mul encoding ofFixed unitSmall inhabited dimension)

/-- Only where a fixed dimension is zero, something is lost of a value. -/
theorem roundTrips_of_elements
    (checked : descriptor.check = .ok ()) (encoding : descriptor.encoding = .elements type order)
    (inhabited : some 0 ∉ descriptor.shape) {value : Value} {bytes : Bytes}
    (counted : value.Counted)
    (small : value.content.count * descriptor.encoding.bits < wordLimit)
    (encoded : value.encode descriptor = .ok bytes) : value.RoundTrips descriptor := by
  have decoded := decode_of_encode checked encoding counted small encoded
  rw [readBack, if_neg fun empty => inhabited empty.2] at decoded
  exact ⟨bytes, encoded, decoded⟩

/-- Numbers are written back as the bytes that they were read from. -/
theorem encode_of_decode
    (encoding : descriptor.encoding = .elements type order) (number : type.kind ≠ .bool)
    {value : Value} {bytes : Bytes} (decoded : decode descriptor bytes = .ok value) :
    ∃ length, encodedLength descriptor value = .ok length ∧
      value.encode descriptor = .ok (bytes.take length) := by
  obtain ⟨bits, read⟩ := decode_eq_ok decoded
  obtain ⟨dimension, filled⟩ := exists_of_shapeOf read.shape
  have admitted : Shape.admits descriptor.shape value.shape = true := by
    rw [filled]
    exact Shape.admits_fill _ _
  have wholeCount : value.Counted := countFor_eq_ok_iff.1 read.counted
  have length := encodedLength_eq_ok admitted wholeCount (bitsFor_eq_ok_iff.1 read.sized).1
  refine ⟨_, length, ?_⟩
  obtain ⟨shape, count, _, counted, _, enough, rfl⟩ := (decode_eq_ok_iff encoding).1 decoded
  have sameCount := Option.some_inj.1 (wholeCount.symm.trans counted)
  rw [sameCount, encoding, Encoding.bits, bytesFor_mul]
  have volume : (sentWords type count bytes).length = Shape.volume shape := by
    rw [length_sentWords]
    exact Shape.elementCount_eq_some counted
  have sized := Bytes.length_of_mem_chunks enough
  have small : ∀ word ∈ memoryOrder order shape (sentWords type count bytes),
      word < type.wordBound := by
    intro word member
    rw [memoryOrder_eq] at member
    rcases eq_zero_or_mem_of_mem_sendingOrder member with rfl | sent
    · exact type.wordBound_pos
    · obtain ⟨chunk, cut, rfl⟩ := List.mem_map.1 sent
      exact decodeWord_lt (sized chunk cut)
  have back : ∀ chunk ∈ Bytes.chunks type.size count bytes,
      (encodeWord type ∘ decodeWord type) chunk = chunk :=
    fun chunk cut => encodeWord_decodeWord number (sized chunk cut)
  refine (encode_eq_ok_iff encoding).2 ⟨admitted, _, rfl, rfl, ?_⟩
  rw [ofWords_eq small, sendingOrder_memoryOrder volume, sentWords, List.flatMap_def,
    List.map_map, List.map_congr_left back, List.map_id', Bytes.flatten_chunks]

/-- Arrays of whole-byte elements are read back from their bytes, and bytes from which numbers can
be read are their bytes. -/
theorem decode_encode_and_encode_decode
    (checked : descriptor.check = .ok ()) (encoding : descriptor.encoding = .elements type order) :
    (∀ value bytes, value.Counted →
      value.content.count * descriptor.encoding.bits < wordLimit →
      value.encode descriptor = .ok bytes →
        encodedLength descriptor value = .ok bytes.length ∧
          decode descriptor bytes = .ok (value.readBack descriptor) ∧
          (descriptor.isVariable = false →
            ∀ behind, decode descriptor (bytes ++ behind) = .ok value)) ∧
      ∀ value bytes, decode descriptor bytes = .ok value → type.kind ≠ .bool →
        ∃ length, encodedLength descriptor value = .ok length ∧
          value.encode descriptor = .ok (bytes.take length) := by
  constructor
  · intro value bytes counted small encoded
    obtain ⟨_, single, _⟩ := Descriptor.check_eq_ok_iff.1 checked
    have admitted := ((encode_eq_ok_iff encoding).1 encoded).1
    refine ⟨?_, decode_of_encode checked encoding counted small encoded, ?_⟩
    · rw [encode_length encoded counted]
      exact encodedLength_eq_ok admitted counted small
    · intro fixed behind
      apply decode_append_of_encode encoding counted small encoded behind
      obtain ⟨dimension, filled⟩ := Shape.exists_eq_fill single admitted
      rw [shapeOf_of_fixed fixed, filled,
        Shape.fill_of_fixed (variableCount_eq_zero_iff.2 fixed)]
  · intro value bytes decoded number
    exact encode_of_decode encoding number decoded

end Elements

/-- Two rows of any length, sent column by column. -/
theorem decode_encode_and_encode_decode_columns :
    let type : ElementType := { kind := .int, size := 2, order := .big }
    let descriptor : Descriptor :=
      ⟨0x1000, "rows", "", [some 2, none], .elements type .columnMajor⟩
    let value : Value := ⟨[2, 3], .elements (.ofWords type.toElement [1, 2, 3, 4, 5, 6])⟩
    let bytes : Bytes := [0, 1, 0, 4, 0, 2, 0, 5, 0, 3, 0, 6]
    encodedLength descriptor value = .ok 12 ∧ decode descriptor bytes = .ok value ∧
      ∃ length, encodedLength descriptor value = .ok length ∧
        value.encode descriptor = .ok (bytes.take length) := by
  intro type descriptor value bytes
  have checked : descriptor.check = .ok () := by decide +kernel
  have encoded : value.encode descriptor = .ok bytes := by decide +kernel
  obtain ⟨there, back⟩ := decode_encode_and_encode_decode checked rfl
  obtain ⟨length, decoded, _⟩ := there value bytes rfl (by decide) encoded
  exact ⟨length, decoded, back value bytes decoded (by decide)⟩

end Value
end Spead
