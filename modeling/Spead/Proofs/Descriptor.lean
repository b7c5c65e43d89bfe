import Spead.Descriptor.Wire
import Spead.Proofs.ArrayHeader
import Spead.Proofs.Except
import Spead.Proofs.Heap.Resolving
import Spead.Proofs.Packet

/-!
Descriptors read back from their bytes.

A descriptor comes back as it was written, for every flavour; only the order of one-byte elements,
which the wire does not tell, becomes little-endian.
-/

namespace Spead

/-! ## Canonical descriptors -/

/-- The encoding with the order of single bytes left out of account. -/
def Encoding.canonical : Encoding → Encoding
  | .elements type order => .elements type.canonical order
  | .records fields => .records fields

theorem Encoding.bits_canonical (encoding : Encoding) : encoding.canonical.bits = encoding.bits := by
  cases encoding with
  | elements type order =>
      have size : type.canonical.size = type.size :=
        congrArg Element.size type.toElement_canonical
      simp only [canonical, bits, size]
  | records fields => rfl

theorem Encoding.canonical_eq_records_iff (encoding : Encoding) (fields : List Field) :
    encoding.canonical = .records fields ↔ encoding = .records fields := by
  cases encoding with
  | elements type order => simp [canonical]
  | records others => rfl

namespace Descriptor

/-- The descriptor with the order of single bytes left out of account. -/
def canonical (descriptor : Descriptor) : Descriptor :=
  { descriptor with encoding := descriptor.encoding.canonical }

theorem bitsFor_canonical (descriptor : Descriptor) (count : Nat) :
    descriptor.canonical.bitsFor count = descriptor.bitsFor count := by
  simp only [bitsFor, canonical, Encoding.bits_canonical]

theorem unitBits_canonical (descriptor : Descriptor) :
    descriptor.canonical.unitBits = descriptor.unitBits := by
  simp only [unitBits, bitsFor_canonical]
  rfl

theorem check_canonical (descriptor : Descriptor) :
    descriptor.canonical.check = descriptor.check := by
  unfold check
  simp only [unitBits_canonical]
  simp only [canonical, Encoding.canonical_eq_records_iff]

theorem check_eq_ok_iff {descriptor : Descriptor} :
    descriptor.check = .ok () ↔
      ItemId.firstUser ≤ descriptor.id ∧ Shape.variableCount descriptor.shape ≤ 1 ∧
        descriptor.encoding ≠ .records [] ∧ ∃ bits, descriptor.unitBits = .ok bits := by
  unfold check
  simp only [Except.guard_eq_ok_iff, Except.bind_eq_ok_iff, liftM_eq_ok_iff, Nat.not_lt]
  constructor
  · rintro ⟨user, single, format, bits, sized, _⟩
    exact ⟨user, single, format, bits, sized⟩
  · rintro ⟨user, single, format, bits, sized⟩
    exact ⟨user, single, format, bits, sized, rfl⟩

/-! ## Numbers of a field -/

theorem numberField_eq_ok_iff
    {field : WireField} {width value : Nat} {bytes : Bytes} :
    numberField field width value = .ok bytes ↔
      value < 256 ^ width ∧ bytes = Bytes.bigEndian width value := by
  unfold numberField
  by_cases small : value < 256 ^ width
  · simp [small, eq_comm]
  · simp [small]

theorem pow_lt_wordLimit {width : Nat} (narrow : width ≤ 7) : 256 ^ width < wordLimit := by
  have := Nat.pow_le_pow_right (n := 256) (by decide) narrow
  have : 256 ^ 7 < wordLimit := by decide
  omega

theorem readNumber_bigEndian
    {width value : Nat} (narrow : width ≤ 7) (small : value < 256 ^ width) :
    readNumber (Bytes.bigEndian width value) = value := by
  have := pow_lt_wordLimit narrow
  rw [readNumber, Bytes.toNat_bigEndian_of_lt small, Nat.mod_eq_of_lt (by omega)]

section Widths

variable (flavour : Flavour)

theorem addressBytes_bounds : 1 ≤ flavour.addressBytes ∧ flavour.addressBytes ≤ 7 := by
  have := flavour.addressBits_pos
  have := flavour.addressBits_lt
  have := flavour.addressBits_bytes
  unfold Flavour.addressBytes
  omega

theorem formatFieldBytes_bounds : 2 ≤ flavour.formatFieldBytes ∧ flavour.formatFieldBytes ≤ 8 := by
  have := addressBytes_bounds flavour
  unfold Flavour.formatFieldBytes
  split
  · omega
  · omega

theorem shapeFieldBytes_bounds : 2 ≤ flavour.shapeFieldBytes ∧ flavour.shapeFieldBytes ≤ 8 := by
  have := addressBytes_bounds flavour
  unfold Flavour.shapeFieldBytes
  split
  · omega
  · omega

end Widths

/-! ## Formats and shapes -/

section Entries

variable {flavour : Flavour}

theorem Field.make_code (field : Field) : Field.make field.kind.code field.bits = .ok field := by
  have kind : FieldKind.ofCode? field.kind.code = some field.kind := by
    cases field.kind <;> decide
  unfold Field.make Field.of?
  simp [kind, field.supported]

theorem ofNat_toNat_code (kind : FieldKind) :
    Char.ofNat (Bytes.toNat [UInt8.ofNat kind.code.toNat]) = kind.code := by
  cases kind <;> decide

theorem readFormatEntry_of_formatEntry
    {field : Field} {entry : Bytes} (written : formatEntry flavour field = .ok entry) :
    entry.length = flavour.formatFieldBytes ∧ readFormatEntry entry = .ok field := by
  obtain ⟨wide, narrow⟩ := formatFieldBytes_bounds flavour
  unfold formatEntry at written
  obtain ⟨bytes, number, rest⟩ := Except.bind_eq_ok_iff.1 written
  obtain ⟨small, rfl⟩ := numberField_eq_ok_iff.1 number
  cases rest
  constructor
  · rw [List.length_cons, Bytes.length_bigEndian]
    omega
  · have bits := readNumber_bigEndian (by omega) small
    simp only [readFormatEntry, List.take_succ_cons, List.take_zero, List.drop_succ_cons,
      List.drop_zero, ofNat_toNat_code, bits, Field.make_code]

theorem variableTag_ne_zero (flavour : Flavour) : flavour.variableTag ≠ 0 := by
  unfold Flavour.variableTag
  split <;> decide

theorem readShapeEntry_of_shapeEntry
    {dimension : Dimension} {entry : Bytes} (written : shapeEntry flavour dimension = .ok entry) :
    entry.length = flavour.shapeFieldBytes ∧ readShapeEntry flavour entry = dimension ∧
      ∀ length ∈ dimension, length < wordLimit := by
  obtain ⟨wide, narrow⟩ := shapeFieldBytes_bounds flavour
  have marked := variableTag_ne_zero flavour
  unfold shapeEntry at written
  obtain ⟨bytes, number, rest⟩ := Except.bind_eq_ok_iff.1 written
  obtain ⟨small, rfl⟩ := numberField_eq_ok_iff.1 number
  cases rest
  have width : flavour.shapeFieldBytes - 1 ≤ 7 := by omega
  refine ⟨?_, ?_, ?_⟩
  · rw [List.length_cons, Bytes.length_bigEndian]
    omega
  · cases dimension with
    | none => simp [readShapeEntry, marked]
    | some length =>
        have number := readNumber_bigEndian width small
        simp only [Option.getD_some] at number
        simp [readShapeEntry, number]
  · rintro length rfl
    have := pow_lt_wordLimit width
    rw [Option.getD_some] at small
    omega

theorem length_flatten_of_sized
    {width : Nat} {entries : List Bytes} (sized : ∀ entry ∈ entries, entry.length = width) :
    entries.flatten.length = entries.length * width := by
  rw [List.length_flatten, List.map_congr_left sized]
  simp

/-- Entries of one width are cut out of their sequence. -/
theorem wholeChunks_flatten
    {width : Nat} (positive : 0 < width) {entries : List Bytes}
    (sized : ∀ entry ∈ entries, entry.length = width) :
    Bytes.wholeChunks width entries.flatten = entries := by
  have cut := Bytes.chunks_flatten_append entries sized []
  rw [List.append_nil] at cut
  rw [Bytes.wholeChunks, length_flatten_of_sized sized, Nat.mul_div_cancel _ positive, cut]

theorem length_of_formatEntries
    {fields : List Field} {entries : List Bytes}
    (written : fields.mapM (formatEntry flavour) = .ok entries) :
    ∀ entry ∈ entries, entry.length = flavour.formatFieldBytes := by
  intro entry member
  obtain ⟨field, _, wrote⟩ := exists_of_forall₂_right (mapM_eq_ok_iff.1 written) member
  exact (readFormatEntry_of_formatEntry wrote).1

theorem length_of_shapeEntries
    {shape : List Dimension} {entries : List Bytes}
    (written : shape.mapM (shapeEntry flavour) = .ok entries) :
    ∀ entry ∈ entries, entry.length = flavour.shapeFieldBytes := by
  intro entry member
  obtain ⟨dimension, _, wrote⟩ := exists_of_forall₂_right (mapM_eq_ok_iff.1 written) member
  exact (readShapeEntry_of_shapeEntry wrote).1

theorem mapM_readFormatEntry
    {fields : List Field} {entries : List Bytes}
    (written : fields.mapM (formatEntry flavour) = .ok entries) :
    (Bytes.wholeChunks flavour.formatFieldBytes entries.flatten).mapM readFormatEntry =
      .ok fields := by
  have sized := length_of_formatEntries written
  rw [mapM_eq_ok_iff] at written
  have positive := (formatFieldBytes_bounds flavour).1
  rw [wholeChunks_flatten (by omega) sized, mapM_eq_ok_iff]
  apply List.Forall₂.flip
  exact written.imp fun field entry wrote => (readFormatEntry_of_formatEntry wrote).2

theorem map_readShapeEntry
    {shape : List Dimension} {entries : List Bytes}
    (written : shape.mapM (shapeEntry flavour) = .ok entries) :
    (Bytes.wholeChunks flavour.shapeFieldBytes entries.flatten).map (readShapeEntry flavour) =
      shape := by
  have sized := length_of_shapeEntries written
  rw [mapM_eq_ok_iff] at written
  have positive := (shapeFieldBytes_bounds flavour).1
  rw [wholeChunks_flatten (by omega) sized]
  have same := map_eq_map_of_forall₂ written fun dimension entry wrote =>
    (readShapeEntry_of_shapeEntry wrote).2.1
  exact same.trans (List.map_id shape)

/-- Dimensions that can be written are numbers of 64 bits. -/
theorem small_of_shapeEntries
    {shape : List Dimension} {entries : List Bytes}
    (written : shape.mapM (shapeEntry flavour) = .ok entries) :
    ∀ dimension ∈ shape, ∀ length ∈ dimension, length < wordLimit := by
  intro dimension member
  obtain ⟨entry, _, wrote⟩ := exists_of_forall₂_left (mapM_eq_ok_iff.1 written) member
  exact (readShapeEntry_of_shapeEntry wrote).2.2

end Entries

/-! ## The heap that carries a descriptor -/

def carrier (flavour : Flavour) (id : Nat) (parts : List (Nat × Bytes)) : Heap where
  count := 1
  flavour := flavour
  items :=
    ⟨ItemId.descriptorId, .inline id⟩ :: parts.map fun (part, data) => ⟨part, .bytes data false⟩

section Carrier

variable {flavour : Flavour}

theorem pointTo_eq_ok
    {parts : List (Nat × Bytes)} {address : Nat} {pointers : List UInt64}
    (pointed : pointTo flavour address parts = .ok pointers) :
    let placed :=
      Heap.placeAll flavour address (parts.map fun (part, data) => ⟨part, .bytes data false⟩)
    (∀ entry ∈ placed, entry.1.id ≤ flavour.maxId ∧ entry.1.value ≤ flavour.maxAddress) ∧
      pointers = placed.map (fun entry => entry.1.toWord flavour.addressBits) ∧
      parts.flatMap Prod.snd = placed.flatMap Prod.snd := by
  induction parts generalizing address pointers with
  | nil =>
      cases pointed
      simp [Heap.placeAll]
  | cons part rest inductionHypothesis =>
      rcases part with ⟨part, data⟩
      unfold pointTo at pointed
      obtain ⟨pointer, encoding, others⟩ := Except.bind_eq_ok_iff.1 pointed
      obtain ⟨more, pointedMore, final⟩ := Except.bind_eq_ok_iff.1 others
      cases final
      obtain ⟨idFits, valueFits, rfl, _⟩ := Flavour.encodePointer_eq_ok encoding
      obtain ⟨fits, words, payload⟩ := inductionHypothesis pointedMore
      have first :
          Heap.place flavour address ⟨part, .bytes data false⟩ = (⟨part, false, address⟩, data) :=
        rfl
      simp only [List.map_cons, Heap.placeAll, first, List.flatMap_cons]
      refine ⟨?_, ?_, ?_⟩
      · intro entry member
        rcases List.mem_cons.1 member with rfl | later
        · exact ⟨idFits, valueFits⟩
        · exact fits entry later
      · rw [words]
      · rw [payload]

def carrierPacket (flavour : Flavour) (pointers : List UInt64) (payload : Bytes) : Packet where
  heapCount := 1
  heapLength := payload.length
  payloadOffset := 0
  payloadLength := payload.length
  addressBits := flavour.addressBits
  pointers := pointers
  payload := payload

theorem serialize_eq_ok_iff {descriptor : Descriptor} {bytes : Bytes} :
    descriptor.serialize flavour = .ok bytes ↔
      ∃ parts pointers, descriptor.payloadParts flavour = .ok parts ∧
        descriptor.id ≤ flavour.maxAddress ∧ pointTo flavour 0 parts = .ok pointers ∧
        let packet :=
          carrierPacket flavour
            (Pointer.toWord flavour.addressBits ⟨ItemId.descriptorId, true, descriptor.id⟩ ::
              pointers)
            (parts.flatMap Prod.snd)
        bytes = packet.toBytes ∧ packet.Fit flavour := by
  have named : ItemId.descriptorId ≤ flavour.maxId := flavour.le_maxId (by decide)
  unfold serialize
  simp only [Except.bind_eq_ok_iff, liftM_eq_ok_iff]
  constructor
  · rintro ⟨parts, ofParts, id, encoding, pointers, pointed, written⟩
    obtain ⟨_, idFits, rfl, _⟩ := Flavour.encodePointer_eq_ok encoding
    exact ⟨parts, pointers, ofParts, idFits, pointed, (Packet.serialize_eq_ok_iff rfl).1 written⟩
  · rintro ⟨parts, pointers, ofParts, idFits, pointed, written⟩
    refine ⟨parts, ofParts, _, Flavour.encodePointer_of_le named idFits _, pointers, pointed, ?_⟩
    exact (Packet.serialize_eq_ok_iff rfl).2 written

/-- A descriptor is written as the only packet of the heap of its parts. -/
theorem serialize_eq_ok
    {descriptor : Descriptor} {bytes : Bytes}
    (written : descriptor.serialize flavour = .ok bytes) :
    ∃ parts pointers payload, descriptor.payloadParts flavour = .ok parts ∧
      descriptor.id ≤ flavour.maxAddress ∧
      (carrier flavour descriptor.id parts).LaidOut pointers payload ∧
      bytes = (carrierPacket flavour pointers payload).toBytes ∧
      payload.length ≤ flavour.maxAddress ∧
      PacketItem.all.length + pointers.length ≤ Packet.maxPointers := by
  obtain ⟨parts, pointers, ofParts, idFits, pointed, sameBytes, fit⟩ :=
    serialize_eq_ok_iff.1 written
  have named : ItemId.descriptorId ≤ flavour.maxId := flavour.le_maxId (by decide)
  obtain ⟨fits, words, payload⟩ := pointTo_eq_ok pointed
  refine ⟨parts, _, _, ofParts, idFits, ?_, sameBytes, fit.heapLength, fit.pointerCount⟩
  constructor
  case fits =>
    intro entry member
    rcases List.mem_cons.1 member with rfl | later
    · exact ⟨named, idFits⟩
    · exact fits entry later
  case pointers =>
    rw [words]
    rfl
  case payload =>
    rw [payload]
    rfl

/-- Parts of a descriptor have ids of their own, so that their packet can be read. -/
theorem sendable_carrierPacket
    {id : Nat} {parts : List (Nat × Bytes)} {pointers : List UInt64} {payload : Bytes}
    (named : ∀ part ∈ parts, ItemId.descriptorName ≤ part.1)
    (laidOut : (carrier flavour id parts).LaidOut pointers payload)
    (heapLength : payload.length ≤ flavour.maxAddress)
    (pointerCount : PacketItem.all.length + pointers.length ≤ Packet.maxPointers) :
    (carrierPacket flavour pointers payload).Sendable flavour := by
  have avoids : (carrier flavour id parts).AvoidsPacketItems := by
    intro item member
    rcases List.mem_cons.1 member with rfl | later
    · simp [ItemId.descriptorId, ItemId.payloadLength]
    · obtain ⟨part, ofParts, rfl⟩ := List.mem_map.1 later
      have := named part ofParts
      simp only [ItemId.descriptorName, ItemId.payloadLength] at this ⊢
      omega
  constructor
  case addressBits => rfl
  case payloadLength => rfl
  case inside => simp [carrierPacket]
  case heapCount =>
    have := Nat.pow_le_pow_right (n := 2) (by decide) flavour.addressBits_pos
    simp only [carrierPacket, Flavour.maxAddress]
    omega
  case heapLength => exact heapLength
  case pointerCount => exact pointerCount
  case foreign => exact laidOut.foreign avoids

/-- The part with the text of an array header, for whole-byte elements. -/
def headerPart (flavour : Flavour) (descriptor : Descriptor) : List (Nat × Bytes) :=
  match descriptor.encoding with
  | .records _ => []
  | .elements type order =>
      [(ItemId.descriptorType,
        Bytes.ofText
          (ArrayHeader.render ⟨declaredType flavour.compat type, order, descriptor.shape⟩))]

/-- All parts of a descriptor that go into the payload, from what has been written of its format
and its shape. -/
def wireParts
    (flavour : Flavour) (descriptor : Descriptor) (formatEntries shapeEntries : List Bytes) :
    List (Nat × Bytes) :=
  (ItemId.descriptorName, Bytes.ofText descriptor.name) ::
    (ItemId.descriptorDescription, Bytes.ofText descriptor.description) ::
    (ItemId.descriptorFormat, formatEntries.flatten) ::
    (ItemId.descriptorShape, shapeEntries.flatten) :: descriptor.headerPart flavour

/-- The ids of the parts lie between those of the name and of the element type. -/
theorem id_wireParts
    (flavour : Flavour) (descriptor : Descriptor) (formatEntries shapeEntries : List Bytes) :
    ∀ part ∈ descriptor.wireParts flavour formatEntries shapeEntries,
      ItemId.descriptorName ≤ part.1 ∧ part.1 ≤ ItemId.descriptorType := by
  have named : ∀ id ∈ (descriptor.wireParts flavour formatEntries shapeEntries).map Prod.fst,
      ItemId.descriptorName ≤ id ∧ id ≤ ItemId.descriptorType := by
    unfold wireParts headerPart
    cases descriptor.encoding with
    | records fields => simp only [List.map_cons, List.map_nil]; decide
    | elements type order => simp only [List.map_cons, List.map_nil]; decide
  intro part member
  exact named part.1 (List.mem_map_of_mem member)

/-- The entries of the format of a descriptor have been written; whole-byte elements have none. -/
def FormatWritten (flavour : Flavour) : Encoding → (entries : List Bytes) → Prop
  | .records fields, entries => fields.mapM (formatEntry flavour) = .ok entries
  | .elements .., entries => entries = []

theorem payloadParts_eq_ok_iff {descriptor : Descriptor} {parts : List (Nat × Bytes)} :
    descriptor.payloadParts flavour = .ok parts ↔
      ∃ formatEntries shapeEntries, FormatWritten flavour descriptor.encoding formatEntries ∧
        descriptor.shape.mapM (shapeEntry flavour) = .ok shapeEntries ∧
        parts = descriptor.wireParts flavour formatEntries shapeEntries := by
  unfold payloadParts
  cases encoding : descriptor.encoding with
  | records fields =>
      simp only [Except.bind_eq_ok_iff, Except.map_eq_ok_iff]
      constructor
      · rintro ⟨_, ⟨formatEntries, ofFormat, rfl⟩, _, ⟨shapeEntries, ofShape, rfl⟩, final⟩
        cases final
        refine ⟨formatEntries, shapeEntries, ofFormat, ofShape, ?_⟩
        simp [wireParts, headerPart, encoding]
      · rintro ⟨formatEntries, shapeEntries, ofFormat, ofShape, rfl⟩
        refine ⟨_, ⟨formatEntries, ofFormat, rfl⟩, _, ⟨shapeEntries, ofShape, rfl⟩, ?_⟩
        simp [wireParts, headerPart, encoding, pure, Except.pure]
  | elements type order =>
      simp only [Except.bind_eq_ok_iff, Except.map_eq_ok_iff]
      constructor
      · rintro ⟨_, ofFormat, _, ⟨shapeEntries, ofShape, rfl⟩, final⟩
        cases ofFormat
        cases final
        refine ⟨[], shapeEntries, rfl, ofShape, ?_⟩
        simp [wireParts, headerPart, encoding]
      · rintro ⟨formatEntries, shapeEntries, ofFormat, ofShape, rfl⟩
        cases ofFormat
        refine ⟨[], rfl, _, ⟨shapeEntries, ofShape, rfl⟩, ?_⟩
        simp [wireParts, headerPart, encoding, pure, Except.pure]

/-- The parts of a descriptor as a receiver finds them. -/
theorem receivedItems_carrier
    {descriptor : Descriptor} {parts : List (Nat × Bytes)}
    (named : ∀ part ∈ parts, ItemId.descriptorName ≤ part.1) :
    (carrier flavour descriptor.id parts).receivedItems =
      ⟨ItemId.descriptorId, true, flavour.immediateBytes descriptor.id⟩ ::
        parts.map fun (part, data) => ⟨part, false, data⟩ := by
  have arrivals :
      (carrier flavour descriptor.id parts).items.map (Heap.arrival flavour) =
        ⟨ItemId.descriptorId, true, flavour.immediateBytes descriptor.id⟩ ::
          parts.map fun (part, data) => ⟨part, false, data⟩ := by
    simp [carrier, Heap.arrival, Function.comp_def]
  change List.filter _ ((carrier flavour descriptor.id parts).items.map (Heap.arrival flavour)) = _
  rw [arrivals, List.filter_eq_self]
  intro item member
  rcases List.mem_cons.1 member with rfl | later
  · simp [ItemId.descriptorId, ItemId.null]
  · obtain ⟨part, ofParts, rfl⟩ := List.mem_map.1 later
    have := named part ofParts
    have foreign : part.1 ≠ ItemId.null := by
      simp only [ItemId.descriptorName, ItemId.null] at this ⊢
      omega
    simpa using foreign

end Carrier

/-! ## Drafts -/

theorem declaredType_canonical (compat : Compat) (type : ElementType) :
    declaredType compat (declaredType compat type).canonical = type.canonical := by
  unfold declaredType
  split
  · by_cases single : type.size = 1
    · simp [ElementType.swapped, ElementType.canonical, ElementType.withOrder, single]
    · have twice : type.order.swapped.swapped = type.order := by
        cases type.order <;> rfl
      simp [ElementType.swapped, ElementType.canonical, ElementType.withOrder, single, twice]
  · rfl

theorem make_eq_ok
    {id : Nat} {name description : String} {shape : List Dimension} {encoding : Encoding}
    (checked : check ⟨id, name, description, shape, encoding⟩ = .ok ()) :
    make id name description shape encoding =
      .ok ⟨id, name, description, shape, encoding⟩ := by
  simp only [make, checked, bind, Except.bind]
  rfl

section Drafts

variable {flavour : Flavour}

theorem readNumber_immediateBytes {id : Nat} (fits : id ≤ flavour.maxAddress) :
    readNumber (flavour.immediateBytes id) = id := by
  have narrow := (addressBytes_bounds flavour).2
  have small : id < 256 ^ flavour.addressBytes := by
    rw [flavour.pow_addressBytes]
    exact flavour.maxAddress_lt fits
  exact readNumber_bigEndian narrow small

/-- The parts of a descriptor of records make up its draft. -/
theorem draft_eq_ok
    {descriptor : Descriptor} {formatEntries shapeEntries : List Bytes}
    (fits : descriptor.id ≤ flavour.maxAddress)
    (formatWritten : FormatWritten flavour descriptor.encoding formatEntries)
    (shapeWritten : descriptor.shape.mapM (shapeEntry flavour) = .ok shapeEntries) :
    ∃ draft,
      (⟨ItemId.descriptorId, true, flavour.immediateBytes descriptor.id⟩ ::
        (descriptor.wireParts flavour formatEntries shapeEntries).map fun (part, data) =>
          ⟨part, false, data⟩).foldlM (Draft.add flavour) {} = .ok draft ∧
      draft.id = some descriptor.id ∧ draft.name = descriptor.name ∧
      draft.description = descriptor.description ∧ draft.shape = descriptor.shape ∧
      (match descriptor.encoding with
        | .records fields => draft.header = none ∧ draft.format = fields
        | .elements type order =>
            draft.header =
              some (ArrayHeader.render
                ⟨declaredType flavour.compat type, order, descriptor.shape⟩)) := by
  have id := readNumber_immediateBytes fits
  have shape := map_readShapeEntry shapeWritten
  cases encoding : descriptor.encoding with
  | records fields =>
      rw [encoding] at formatWritten
      have format := mapM_readFormatEntry formatWritten
      refine ⟨⟨some descriptor.id, descriptor.name, descriptor.description, fields,
        descriptor.shape, none⟩, ?_, rfl, rfl, rfl, rfl, rfl, rfl⟩
      simp [wireParts, headerPart, encoding, Draft.add, id, shape, format, readText,
        Bytes.toText?_ofText, ItemId.descriptorId, ItemId.descriptorName,
        ItemId.descriptorDescription, ItemId.descriptorFormat, ItemId.descriptorShape, bind,
        Except.bind, pure, Except.pure]
  | elements type order =>
      rw [encoding] at formatWritten
      have positive := (formatFieldBytes_bounds flavour).1
      have format :
          (Bytes.wholeChunks flavour.formatFieldBytes formatEntries.flatten).mapM
            readFormatEntry = .ok [] := by
        rw [show formatEntries = [] from formatWritten, wholeChunks_flatten (by omega) (by simp)]
        rfl
      refine ⟨⟨some descriptor.id, descriptor.name, descriptor.description, [],
        descriptor.shape, some _⟩, ?_, rfl, rfl, rfl, rfl, rfl⟩
      simp [wireParts, headerPart, encoding, Draft.add, id, shape, format, readText,
        Bytes.toText?_ofText, ItemId.descriptorId, ItemId.descriptorName,
        ItemId.descriptorDescription, ItemId.descriptorFormat, ItemId.descriptorShape,
        ItemId.descriptorType, bind, Except.bind, pure, Except.pure]

/-- A descriptor is read back from its bytes. -/
theorem parse_serialize
    {descriptor : Descriptor} {bytes : Bytes} (checked : descriptor.check = .ok ())
    (written : descriptor.serialize flavour = .ok bytes) :
    parse flavour.compat bytes = .ok descriptor.canonical := by
  obtain ⟨parts, pointers, payload, ofParts, idFits, laidOut, rfl, heapLength, pointerCount⟩ :=
    serialize_eq_ok written
  obtain ⟨formatEntries, shapeEntries, formatWritten, shapeWritten, rfl⟩ :=
    payloadParts_eq_ok_iff.1 ofParts
  have named : ∀ part ∈ descriptor.wireParts flavour formatEntries shapeEntries,
      ItemId.descriptorName ≤ part.1 :=
    fun part member => (id_wireParts flavour descriptor _ _ part member).1
  have sendable := sendable_carrierPacket named laidOut heapLength pointerCount
  have parsed := Packet.parse_toBytes_append sendable []
  rw [List.append_nil] at parsed
  have items := laidOut.items 1
  rw [receivedItems_carrier named] at items
  obtain ⟨draft, drafted, id, name, description, shape, rest⟩ :=
    draft_eq_ok idFits formatWritten shapeWritten
  have small := small_of_shapeEntries shapeWritten
  have made :
      make descriptor.id descriptor.name descriptor.description descriptor.shape
        descriptor.encoding.canonical = .ok descriptor.canonical :=
    make_eq_ok (check_canonical descriptor ▸ checked)
  have finished : draft.finish flavour.compat = .ok descriptor.canonical := by
    unfold Draft.finish
    cases encoding : descriptor.encoding with
    | records fields =>
        simp only [encoding, Encoding.canonical] at rest made
        simp only [id, name, description, shape, rest, made]
    | elements type order =>
        simp only [encoding, Encoding.canonical] at rest made
        have header :
            ArrayHeader.parse
              (ArrayHeader.render ⟨declaredType flavour.compat type, order, descriptor.shape⟩) =
              .ok (ArrayHeader.canonical
                ⟨declaredType flavour.compat type, order, descriptor.shape⟩) :=
          ArrayHeader.parse_render small
        simp only [id, name, description, rest]
        rw [Except.bind_eq_ok_iff]
        refine ⟨_, liftM_eq_ok_iff.2 header, ?_⟩
        simp only [ArrayHeader.canonical, declaredType_canonical]
        exact made
  -- The bytes are one packet, which is resolved, drafted and finished in turn.
  have whole :
      ¬ ((carrierPacket flavour pointers payload).payloadOffset ≠ 0 ||
        (carrierPacket flavour pointers payload).payloadLength ≠
          (carrierPacket flavour pointers payload).heapLength) = true := by
    simp [carrierPacket]
  unfold parse
  rw [Except.bind_eq_ok_iff]
  refine ⟨_, liftM_eq_ok_iff.2 parsed, Except.guard_eq_ok_iff.2 ⟨whole, ?_⟩⟩
  rw [Except.bind_eq_ok_iff]
  refine ⟨flavour, liftM_eq_ok_iff.2 flavour.of_addressBits, ?_⟩
  rw [Except.bind_eq_ok_iff]
  refine ⟨_, liftM_eq_ok_iff.2 items, ?_⟩
  rw [Except.bind_eq_ok_iff]
  exact ⟨draft, liftM_eq_ok_iff.2 drafted, finished⟩

end Drafts

/-! ## What a receiver accepts -/

theorem check_of_make
    {id : Nat} {name description : String} {shape : List Dimension} {encoding : Encoding}
    {descriptor : Descriptor} (made : make id name description shape encoding = .ok descriptor) :
    descriptor.check = .ok () := by
  obtain ⟨_, checked, equal⟩ := Except.bind_eq_ok_iff.1 made
  cases equal
  exact checked

/-- What is read as a descriptor has been checked, whatever the bytes are. -/
theorem check_of_parse
    {compat : Compat} {bytes : Bytes} {descriptor : Descriptor}
    (parsed : parse compat bytes = .ok descriptor) : descriptor.check = .ok () := by
  unfold parse at parsed
  obtain ⟨_, _, parsed⟩ := Except.bind_eq_ok_iff.1 parsed
  obtain ⟨_, parsed⟩ := Except.guard_eq_ok_iff.1 parsed
  obtain ⟨_, _, parsed⟩ := Except.bind_eq_ok_iff.1 parsed
  obtain ⟨_, _, parsed⟩ := Except.bind_eq_ok_iff.1 parsed
  obtain ⟨draft, _, finished⟩ := Except.bind_eq_ok_iff.1 parsed
  unfold Draft.finish at finished
  cases id : draft.id with
  | none =>
      rw [id] at finished
      cases finished
  | some id' =>
      simp only [id] at finished
      split at finished
      · obtain ⟨_, _, made⟩ := Except.bind_eq_ok_iff.1 finished
        exact check_of_make made
      · exact check_of_make finished

end Descriptor
end Spead
