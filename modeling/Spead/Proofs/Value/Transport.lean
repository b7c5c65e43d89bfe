import Spead.Proofs.Heap.Resolving
import Spead.Proofs.Value.Records

/-!
Values in pointers and in the payload.

A value of fixed size that is short enough travels in its pointer, and every other value in the
payload. The sender goes by the bytes that it has, by the shape of the value, or by the descriptor,
and the receiver by the descriptor alone: all of them come to the same size, so the receiver reads
what it would read from the bytes themselves.
-/

namespace Spead
namespace Value

/-! ## Reading from enough bytes -/

theorem takes_decodeField (field : Field) :
    Bits.Reader.Takes (decodeField field) field.bits := by
  intro reader enough
  have positive := field.bits_pos
  rw [Bits.Reader.length_bits, Bits.Reader.remaining] at enough
  have read : reader.read field.bits =
      .ok (Bits.toNat (reader.bits.take field.bits), reader.skip field.bits) :=
    Bits.Reader.read_eq_ok (by omega) (FieldKind.le_of_supports field.supported)
  refine ⟨field.scalarOf (Bits.toNat (reader.bits.take field.bits)), reader.skip field.bits, ?_,
    reader.bits_skip field.bits⟩
  rw [decodeField_eq, read]
  rfl

theorem exists_decodeRecords
    {fields : List Field} {count : Nat} {bytes : Bytes}
    (enough : count * (fields.map Field.bits).sum ≤ bytes.length * 8) :
    ∃ rows, decodeRecords fields count bytes = .ok rows := by
  have record : Bits.Reader.Takes (fields.mapM decodeField) (fields.map Field.bits).sum :=
    .mapM takes_decodeField fields
  have all := Bits.Reader.Takes.mapM (fun _ : Nat => record) (List.range count)
  rw [List.map_const', List.length_range, List.sum_replicate_nat] at all
  have room : count * (fields.map Field.bits).sum ≤
      (Bits.Reader.bits { rest := bytes }).length := by
    rw [Bits.Reader.length_bits]
    exact enough
  obtain ⟨rows, next, read, _⟩ := all _ room
  exact ⟨rows, congrArg (Except.map Prod.fst) read⟩

section Travel

variable {descriptor : Descriptor} {bytes : Bytes}

/-- Whatever the bytes are, a value is read if there are enough of them for its shape. -/
theorem exists_decode
    {shape : List Nat} {count : Nat} (ofShape : shapeOf descriptor bytes.length = .ok shape)
    (counted : Shape.elementCount shape = some count)
    (small : count * descriptor.encoding.bits < wordLimit)
    (enough : Descriptor.bytesFor (count * descriptor.encoding.bits) ≤ bytes.length) :
    ∃ value, decode descriptor bytes = .ok value := by
  cases encoding : descriptor.encoding with
  | elements type order =>
      rw [encoding, Encoding.bits] at small enough
      rw [bytesFor_mul] at enough
      exact ⟨_, (decode_eq_ok_iff encoding).2
        ⟨shape, count, ofShape, counted, small, enough, rfl⟩⟩
  | records fields =>
      have sizedBits : descriptor.encoding.bits = (fields.map Field.bits).sum := by
        rw [encoding]
        rfl
      have room : count * (fields.map Field.bits).sum ≤
          (bytes.take (Descriptor.bytesFor (count * descriptor.encoding.bits))).length * 8 := by
        rw [List.length_take_of_le enough, Descriptor.bytesFor, sizedBits]
        omega
      obtain ⟨rows, read⟩ := exists_decodeRecords room
      refine ⟨⟨shape, .records rows⟩, ?_⟩
      unfold decode
      simp only [Except.bind_eq_ok_iff, liftM_eq_ok_iff, Except.guard_eq_ok_iff, encoding,
        countFor_eq_ok_iff, bitsFor_eq_ok_iff]
      rw [encoding] at small enough read
      exact ⟨shape, ofShape, count, counted, _, ⟨small, rfl⟩, Nat.not_lt.2 enough, rows, read, rfl⟩

/-! ## Sizes of values that are written -/

theorem admits_of_encode
    {value : Value} (encoded : value.encode descriptor = .ok bytes) :
    Shape.admits descriptor.shape value.shape = true := by
  unfold encode at encoded
  obtain ⟨_, checked, _⟩ := Except.bind_eq_ok_iff.1 encoded
  exact checkShape_eq_ok_iff.1 (liftM_eq_ok_iff.1 checked)

section Written

variable {value : Value} (checked : descriptor.check = .ok ()) (counted : value.Counted)
  (small : value.content.count * descriptor.encoding.bits < wordLimit)
  (encoded : value.encode descriptor = .ok bytes)

include counted small encoded

/-- The shape of a value tells how many bytes it takes. -/
theorem encodedLength_of_encode : encodedLength descriptor value = .ok bytes.length := by
  rw [encode_length encoded counted]
  exact encodedLength_eq_ok (admits_of_encode encoded) counted small

/-- A value goes into its pointer by its bytes as it does by its shape. -/
theorem immediateFits_of_encode (flavour : Flavour) :
    immediateFits flavour descriptor value =
      (!descriptor.isVariable && flavour.fitsImmediate bytes.length) := by
  unfold immediateFits
  rw [encodedLength_of_encode counted small encoded]

include checked

/-- The descriptor tells how many bytes a value of fixed size takes. -/
theorem fixedSize?_of_encode (fixed : descriptor.isVariable = false) :
    descriptor.fixedSize? = some bytes.length := by
  obtain ⟨_, single, _⟩ := Descriptor.check_eq_ok_iff.1 checked
  obtain ⟨dimension, filled⟩ := Shape.exists_eq_fill single (admits_of_encode encoded)
  rw [Shape.fill_of_fixed (variableCount_eq_zero_iff.2 fixed)] at filled
  have unit : descriptor.unitBits = .ok (value.content.count * descriptor.encoding.bits) := by
    refine unitBits_eq_ok_iff.2 ⟨_, ?_, small, rfl⟩
    rw [← filled]
    exact counted
  unfold Descriptor.fixedSize?
  rw [fixed, unit, encode_length encoded counted]
  rfl

/-- What has been written is read, unless the bits of its last byte are more than a number of 64
bits can count. -/
theorem exists_decode_of_encode
    (short : descriptor.isVariable = true → bytes.length * 8 < wordLimit) :
    ∃ decoded, decode descriptor bytes = .ok decoded := by
  obtain ⟨_, single, _, unit, ofUnit⟩ := Descriptor.check_eq_ok_iff.1 checked
  obtain ⟨dimension, filled⟩ := Shape.exists_eq_fill single (admits_of_encode encoded)
  have written := encode_length encoded counted
  cases isVariable : descriptor.isVariable with
  | false =>
      rw [Shape.fill_of_fixed (variableCount_eq_zero_iff.2 isVariable)] at filled
      rw [Counted, filled] at counted
      exact exists_decode (shapeOf_of_fixed isVariable _) counted small (Nat.le_of_eq written.symm)
  | true =>
      have one := variableCount_eq_one single isVariable
      obtain ⟨count, ofFixed, unitSmall, rfl⟩ := unitBits_eq_ok_iff.1 ofUnit
      have perStep := Shape.elementCount_eq_some ofFixed
      have total := Shape.elementCount_eq_some counted
      rw [filled, Shape.volume_fill one, ← perStep] at total
      rw [total, Nat.mul_assoc] at written small
      -- The dimension that is read takes no more bits than there are in the bytes.
      obtain ⟨length, ofLength, room, nonzero⟩ :
          ∃ length, variableLength descriptor bytes.length = .ok length ∧
            length * (count * descriptor.encoding.bits) ≤ bytes.length * 8 ∧
            (length ≠ 0 → count * descriptor.encoding.bits ≠ 0) := by
        by_cases empty : count * descriptor.encoding.bits = 0
        · refine ⟨0, ?_, by simp, by simp⟩
          rw [variableLength, ofUnit, empty]
          rfl
        · exact ⟨_, variableLength_eq_ok written (Nat.pos_of_ne_zero empty) ofUnit,
            readLength_mul_le written, fun _ => empty⟩
      have bitsSmall := Nat.lt_of_le_of_lt room (short isVariable)
      rw [← Nat.mul_assoc] at room bitsSmall
      refine exists_decode (shapeOf_of_variable isVariable ofLength)
        (Shape.elementCount_fill one ofFixed ?small ?nonzero) bitsSmall ?enough
      case small =>
        by_cases none : length = 0
        · rw [none, Nat.zero_mul]
          decide
        · have bits_pos : 0 < descriptor.encoding.bits :=
            Nat.pos_of_ne_zero (Nat.mul_ne_zero_iff.1 (nonzero none)).2
          exact Nat.lt_of_le_of_lt (Nat.le_mul_of_pos_right _ bits_pos) bitsSmall
      case nonzero =>
        intro some
        rw [← Shape.volume_fixedDimensions_eq_zero_iff, ← perStep]
        exact (Nat.mul_ne_zero_iff.1 (nonzero some)).1
      case enough =>
        rw [Descriptor.bytesFor]
        omega

end Written

end Travel

end Value

/-! ## Items among others -/

namespace Heap

variable {heap : Heap} {pointers : List UInt64} {payload : Bytes} {before after : List HeapItem}
  {item : HeapItem}

/-- Every item of a heap has its pointer at its own place in the table. -/
theorem LaidOut.exists_pointer
    (laidOut : heap.LaidOut pointers payload) (split : heap.items = before ++ item :: after) :
    ∃ word address, pointers[before.length]? = some word ∧
      heap.flavour.decodePointer word = (place heap.flavour address item).1 := by
  have length : (placeAll heap.flavour 0 before).length = before.length := by
    have ids := congrArg List.length (ids_placeAll heap.flavour 0 before)
    rwa [List.length_map, List.length_map] at ids
  have placed := laidOut.decode
  rw [Heap.placed, split, placeAll_append, placeAll, List.map_append, List.map_cons] at placed
  have found := congrArg (fun table => table[before.length]?) placed
  rw [List.getElem?_append_right (by simp [length]), List.length_map, length, Nat.sub_self,
    List.getElem?_cons_zero, List.getElem?_map, Option.map_eq_some_iff] at found
  obtain ⟨word, atPlace, same⟩ := found
  exact ⟨word, _, atPlace, same⟩

/-- Every item of a heap arrives behind those in front of it, if these are not null items. -/
theorem receivedItems_split
    (split : heap.items = before ++ item :: after) (named : item.id ≠ ItemId.null) :
    ∃ front back, heap.receivedItems = front ++ arrival heap.flavour item :: back ∧
      front.map ReceivedItem.id =
        (before.map HeapItem.id).filter fun id => id ≠ ItemId.null := by
  let arrived (items : List HeapItem) : List ReceivedItem :=
    (items.map (arrival heap.flavour)).filter fun received => received.id ≠ ItemId.null
  refine ⟨arrived before, arrived after, ?_, ?_⟩
  · rw [receivedItems, split, List.map_append, List.map_cons, List.filter_append,
      List.filter_cons_of_pos]
    rw [id_arrival]
    exact decide_eq_true named
  · simp only [arrived, List.filter_map, List.map_map]
    have ids (item : HeapItem) :
        (ReceivedItem.id ∘ arrival heap.flavour) item = item.id := id_arrival heap.flavour item
    rw [List.map_congr_left fun item _ => ids item]
    congr 2
    funext item
    simp [id_arrival]

end Heap

namespace Value

/-- A value is read as it is from its bytes, whether it has travelled in its pointer or in the
payload of a heap; it travels in its pointer if its shape says that it fits. -/
theorem travels_alike
    {descriptor : Descriptor} (checked : descriptor.check = .ok ()) {value : Value}
    (counted : value.Counted)
    (small : value.content.count * descriptor.encoding.bits < wordLimit) {bytes : Bytes}
    (encoded : value.encode descriptor = .ok bytes) :
    encodedLength descriptor value = .ok bytes.length ∧
      ((descriptor.isVariable = true → bytes.length * 8 < wordLimit) →
        ∃ decoded, decode descriptor bytes = .ok decoded) ∧
      ∀ (heap : Heap) before after pointers payload,
        heap.items =
            before ++ ⟨descriptor.id, .bytes bytes !descriptor.isVariable⟩ :: after →
        heap.layout = .ok (pointers, payload) →
          (∃ word, pointers[before.length]? = some word ∧
            (heap.flavour.decodePointer word).id = descriptor.id ∧
            (heap.flavour.decodePointer word).immediate =
              immediateFits heap.flavour descriptor value) ∧
          ∀ count, ∃ received front item back,
            ReceivedHeap.resolve count heap.flavour pointers payload = .ok received ∧
              received.items = front ++ item :: back ∧
              front.map ReceivedItem.id =
                (before.map HeapItem.id).filter (fun id => id ≠ ItemId.null) ∧
              item.id = descriptor.id ∧
              item.immediate = immediateFits heap.flavour descriptor value ∧
              Group.readValue descriptor item = decode descriptor bytes := by
  refine ⟨encodedLength_of_encode counted small encoded,
    exists_decode_of_encode checked counted small encoded, ?_⟩
  intro heap before after pointers payload split layout
  have laidOut := Heap.laidOut_of_layout layout
  have named : descriptor.id ≠ ItemId.null := by
    have user := (Descriptor.check_eq_ok_iff.1 checked).1
    have : ItemId.null < ItemId.firstUser := by decide
    omega
  rw [immediateFits_of_encode counted small encoded]
  constructor
  · obtain ⟨word, address, atPlace, same⟩ := laidOut.exists_pointer split
    refine ⟨word, atPlace, ?_, ?_⟩
    · rw [same, Heap.id_place]
    · rw [same, Heap.immediate_place_bytes]
  · intro count
    obtain ⟨front, back, arrived, ids⟩ := Heap.receivedItems_split split named
    refine ⟨⟨count, heap.flavour, heap.receivedItems⟩, front, _, back, ?_, arrived, ids, ?_, ?_, ?_⟩
    · unfold ReceivedHeap.resolve
      rw [laidOut.items]
      rfl
    · exact Heap.id_arrival _ _
    · exact Heap.immediate_arrival_bytes _ _ _ _
    · exact readValue_arrival_eq_decode (fixedSize?_of_encode checked counted small encoded) _ _

/-- Three records of four bits travel in their pointer, behind six bytes in the payload. -/
theorem travels_alike_records_of_four_bits :
    let descriptor : Descriptor :=
      ⟨0x1000, "flags", "", [some 3], .records [{ kind := .uint, bits := 3 },
        { kind := .bool, bits := 1 }]⟩
    let value : Value :=
      ⟨[3], .records [[.uint 5, .bool true], [.uint 0, .bool false], [.uint 7, .bool true]]⟩
    let heap : Heap :=
      ⟨1, .standard,
        [⟨0x1001, .bytes [1, 2, 3, 4, 5, 6] true⟩, ⟨0x1000, .bytes [0xb0, 0xf0] true⟩]⟩
    descriptor.check = .ok () ∧ value.encode descriptor = .ok [0xb0, 0xf0] ∧
      heap.layout = .ok ([0x0010010000000000, 0x801000000000b0f0], [1, 2, 3, 4, 5, 6]) ∧
      immediateFits .standard descriptor value = true ∧
      ∃ received item,
        ReceivedHeap.resolve 1 .standard [0x0010010000000000, 0x801000000000b0f0]
            [1, 2, 3, 4, 5, 6] = .ok received ∧
          item ∈ received.items ∧ item.id = 0x1000 ∧ item.immediate = true ∧
          Group.readValue descriptor item = .ok value := by
  intro descriptor value heap
  have checked : descriptor.check = .ok () := by decide +kernel
  have encoded : value.encode descriptor = .ok [0xb0, 0xf0] := by decide +kernel
  have layout :
      heap.layout = .ok ([0x0010010000000000, 0x801000000000b0f0], [1, 2, 3, 4, 5, 6]) := by
    decide +kernel
  have fits : immediateFits .standard descriptor value = true := by decide +kernel
  have read : decode descriptor [0xb0, 0xf0] = .ok value := by decide +kernel
  have counted : value.Counted := rfl
  obtain ⟨_, _, inHeaps⟩ := travels_alike checked counted (by decide) encoded
  obtain ⟨_, arrives⟩ := inHeaps heap [_] [] _ _ rfl layout
  obtain ⟨received, front, item, back, resolved, items, _, id, immediate, same⟩ := arrives 1
  exact ⟨checked, encoded, layout, fits, received, item, resolved, by simp [items], id,
    immediate.trans fits, same.trans read⟩

end Value
end Spead
