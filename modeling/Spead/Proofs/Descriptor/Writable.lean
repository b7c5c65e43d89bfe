import Spead.Proofs.Descriptor

/-!
Descriptors that can be written.

A flavour bounds the id of a descriptor, its dimensions and the payload that all its fields make
up. Within these bounds nothing else stands in the way.
-/

namespace Spead

theorem FieldKind.le_of_supports
    {kind : FieldKind} {bits : Nat} (supported : kind.supports bits = true) : bits ≤ 64 := by
  cases kind <;> simp [supports] at supported <;> omega

namespace Descriptor

/-- Bytes that tell how elements are laid out, by a format or by an array header. -/
def layoutSize (flavour : Flavour) (descriptor : Descriptor) : Nat :=
  match descriptor.encoding with
  | .records fields => fields.length * flavour.formatFieldBytes
  | .elements type order =>
      let header : ArrayHeader := ⟨declaredType flavour.compat type, order, descriptor.shape⟩
      (Bytes.ofText header.render).length

def fieldsSize (flavour : Flavour) (descriptor : Descriptor) : Nat :=
  (Bytes.ofText descriptor.name).length + (Bytes.ofText descriptor.description).length +
    descriptor.shape.length * flavour.shapeFieldBytes + descriptor.layoutSize flavour

/-- All numbers of the descriptor, and the bytes of its fields, are within what the flavour can
represent. -/
structure Writable (flavour : Flavour) (descriptor : Descriptor) : Prop where
  id : descriptor.id ≤ flavour.maxAddress
  dimensions : ∀ dimension ∈ descriptor.shape, ∀ length ∈ dimension,
    length < 256 ^ (flavour.shapeFieldBytes - 1)
  fieldsSize : descriptor.fieldsSize flavour ≤ flavour.maxAddress

section Writable

variable {flavour : Flavour}

/-! ## Entries -/

theorem exists_formatEntry (flavour : Flavour) (field : Field) :
    ∃ entry, formatEntry flavour field = .ok entry := by
  have small : field.bits < 256 ^ (flavour.formatFieldBytes - 1) := by
    have wide := (formatFieldBytes_bounds flavour).1
    calc field.bits ≤ 64 := FieldKind.le_of_supports field.supported
      _ < 256 ^ 1 := by decide
      _ ≤ 256 ^ (flavour.formatFieldBytes - 1) := Nat.pow_le_pow_right (by decide) (by omega)
  refine ⟨_, Except.bind_eq_ok_iff.2 ⟨_, numberField_eq_ok_iff.2 ⟨small, rfl⟩, rfl⟩⟩

theorem exists_shapeEntry_iff {dimension : Dimension} :
    (∃ entry, shapeEntry flavour dimension = .ok entry) ↔
      ∀ length ∈ dimension, length < 256 ^ (flavour.shapeFieldBytes - 1) := by
  have succeeds_iff :
      (∃ entry, shapeEntry flavour dimension = .ok entry) ↔
        dimension.getD 0 < 256 ^ (flavour.shapeFieldBytes - 1) := by
    unfold shapeEntry
    constructor
    · rintro ⟨entry, written⟩
      obtain ⟨bytes, number, _⟩ := Except.bind_eq_ok_iff.1 written
      exact (numberField_eq_ok_iff.1 number).1
    · intro small
      exact ⟨_, Except.bind_eq_ok_iff.2 ⟨_, numberField_eq_ok_iff.2 ⟨small, rfl⟩, rfl⟩⟩
  rw [succeeds_iff]
  cases dimension with
  | none => simp
  | some length => simp

theorem exists_formatWritten (flavour : Flavour) (encoding : Encoding) :
    ∃ entries, FormatWritten flavour encoding entries := by
  cases encoding with
  | records fields =>
      exact exists_mapM_eq_ok_iff.2 fun field _ => exists_formatEntry flavour field
  | elements type order => exact ⟨[], rfl⟩

/-! ## The payload -/

/-- Pointers to parts are encoded as long as their payload ends within the addresses. -/
theorem exists_pointTo
    {parts : List (Nat × Bytes)} {address : Nat}
    (named : ∀ part ∈ parts, part.1 ≤ flavour.maxId)
    (fits : address + (parts.flatMap Prod.snd).length ≤ flavour.maxAddress) :
    ∃ pointers, pointTo flavour address parts = .ok pointers ∧
      pointers.length = parts.length := by
  induction parts generalizing address with
  | nil => exact ⟨[], rfl, rfl⟩
  | cons part rest inductionHypothesis =>
      rcases part with ⟨id, data⟩
      rw [List.forall_mem_cons] at named
      rw [List.flatMap_cons, List.length_append, ← Nat.add_assoc] at fits
      obtain ⟨pointers, pointed, length⟩ := inductionHypothesis named.2 fits
      have encoded :
          flavour.encodeAddress id address =
            .ok (Pointer.toWord flavour.addressBits ⟨id, false, address⟩) :=
        Flavour.encodePointer_of_le named.1 (by simp only; omega) _
      refine ⟨Pointer.toWord flavour.addressBits ⟨id, false, address⟩ :: pointers, ?_, ?_⟩
      · rw [pointTo, encoded, pointed]
        rfl
      · rw [List.length_cons, List.length_cons, length]

theorem length_flatMap_wireParts
    {descriptor : Descriptor} {formatEntries shapeEntries : List Bytes}
    (formatWritten : FormatWritten flavour descriptor.encoding formatEntries)
    (shapeWritten : descriptor.shape.mapM (shapeEntry flavour) = .ok shapeEntries) :
    ((descriptor.wireParts flavour formatEntries shapeEntries).flatMap Prod.snd).length =
      descriptor.fieldsSize flavour := by
  have shape := length_flatten_of_sized (length_of_shapeEntries shapeWritten)
  rw [← (mapM_eq_ok_iff.1 shapeWritten).length_eq] at shape
  cases encoding : descriptor.encoding with
  | records fields =>
      rw [encoding] at formatWritten
      have format := length_flatten_of_sized (length_of_formatEntries formatWritten)
      rw [← (mapM_eq_ok_iff.1 formatWritten).length_eq] at format
      simp only [wireParts, headerPart, fieldsSize, layoutSize, encoding, List.flatMap_cons,
        List.flatMap_nil, List.length_append, List.length_nil, shape, format]
      omega
  | elements type order =>
      rw [encoding] at formatWritten
      cases formatWritten
      simp only [wireParts, headerPart, fieldsSize, layoutSize, encoding, List.flatMap_cons,
        List.flatMap_nil, List.length_append, List.length_nil, shape, List.flatten_nil]
      omega

theorem length_wireParts_le
    (flavour : Flavour) (descriptor : Descriptor) (formatEntries shapeEntries : List Bytes) :
    (descriptor.wireParts flavour formatEntries shapeEntries).length ≤ 5 := by
  unfold wireParts headerPart
  cases descriptor.encoding <;> simp

/-! ## Whole descriptors -/

theorem exists_serialize
    {descriptor : Descriptor} (writable : descriptor.Writable flavour) :
    ∃ bytes, descriptor.serialize flavour = .ok bytes := by
  obtain ⟨formatEntries, formatWritten⟩ := exists_formatWritten flavour descriptor.encoding
  obtain ⟨shapeEntries, shapeWritten⟩ :=
    exists_mapM_eq_ok_iff.2 fun dimension member =>
      exists_shapeEntry_iff.2 (writable.dimensions dimension member)
  have size := length_flatMap_wireParts formatWritten shapeWritten
  have named : ∀ part ∈ descriptor.wireParts flavour formatEntries shapeEntries,
      part.1 ≤ flavour.maxId := by
    intro part member
    have last := (id_wireParts flavour descriptor _ _ part member).2
    exact Nat.le_trans last (flavour.le_maxId (by decide))
  have fits : 0 + ((descriptor.wireParts flavour formatEntries shapeEntries).flatMap
      Prod.snd).length ≤ flavour.maxAddress := by
    rw [Nat.zero_add, size]
    exact writable.fieldsSize
  obtain ⟨pointers, pointed, length⟩ := exists_pointTo named fits
  have pointerCount : PacketItem.all.length + (pointers.length + 1) ≤ Packet.maxPointers := by
    have parts := length_wireParts_le flavour descriptor formatEntries shapeEntries
    rw [length]
    simp only [PacketItem.all, Packet.maxPointers, List.length_cons, List.length_nil]
    omega
  refine ⟨_, serialize_eq_ok_iff.2 ⟨_, pointers, ?_, writable.id, pointed, rfl, ?_⟩⟩
  · exact payloadParts_eq_ok_iff.2 ⟨_, _, formatWritten, shapeWritten, rfl⟩
  · constructor
    case payloadLength => rfl
    case pointerCount => exact pointerCount
    case heapCount => exact flavour.maxAddress_pos
    case heapLength =>
      rw [Nat.zero_add] at fits
      exact fits
    case payloadOffset => exact Nat.zero_le _

theorem writable_of_serialize
    {descriptor : Descriptor} {bytes : Bytes}
    (written : descriptor.serialize flavour = .ok bytes) : descriptor.Writable flavour := by
  obtain ⟨parts, pointers, ofParts, idFits, _, _, fit⟩ := serialize_eq_ok_iff.1 written
  obtain ⟨formatEntries, shapeEntries, formatWritten, shapeWritten, rfl⟩ :=
    payloadParts_eq_ok_iff.1 ofParts
  constructor
  case id => exact idFits
  case dimensions =>
    intro dimension member
    exact exists_shapeEntry_iff.1 (exists_mapM_eq_ok_iff.1 ⟨_, shapeWritten⟩ dimension member)
  case fieldsSize =>
    rw [← length_flatMap_wireParts formatWritten shapeWritten]
    exact fit.heapLength

/-- A descriptor that applications can have is written exactly if it is writable, and then it is
read back as it was, but for the order of one-byte elements. -/
theorem serialize_iff_writable_and_parse
    (flavour : Flavour) {descriptor : Descriptor} (checked : descriptor.check = .ok ()) :
    ((∃ bytes, descriptor.serialize flavour = .ok bytes) ↔ descriptor.Writable flavour) ∧
      ∀ bytes, descriptor.serialize flavour = .ok bytes →
        parse flavour.compat bytes = .ok descriptor.canonical := by
  refine ⟨⟨?_, exists_serialize⟩, fun bytes written => parse_serialize checked written⟩
  rintro ⟨bytes, written⟩
  exact writable_of_serialize written

/-- Single bytes, declared as big-endian to a peer that swaps byte orders. -/
theorem serialize_iff_writable_and_parse_single_bytes :
    let flavour : Flavour := { compat := .legacy }
    let type : ElementType := { kind := .uint, size := 1, order := .big }
    let descriptor (order : ByteOrder) : Descriptor :=
      ⟨0x1000, "gain", "μs", [some 3, none], .elements (type.withOrder order) .columnMajor⟩
    ∃ bytes, (descriptor .big).serialize flavour = .ok bytes ∧
      parse .legacy bytes = .ok (descriptor .little) := by
  intro flavour type descriptor
  have checked : (descriptor .big).check = .ok () := by decide +kernel
  obtain ⟨written_iff, parsed⟩ := serialize_iff_writable_and_parse flavour checked
  have writable : (descriptor .big).Writable flavour := by
    constructor
    case id => decide +kernel
    case dimensions => decide +kernel
    case fieldsSize => decide +kernel
  obtain ⟨bytes, written⟩ := written_iff.2 writable
  exact ⟨bytes, written, parsed bytes written⟩

end Writable

end Descriptor
end Spead
