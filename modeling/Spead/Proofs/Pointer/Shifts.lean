import Mathlib.Algebra.Group.Defs
import Spead.Proofs.Bits.ByteByByte
import Spead.Proofs.MachineWords

/-!
Item pointers by shifts and masks.

There are three places where the fields of a pointer are told apart or joined: the flavour, which
does both for the items of a heap, the header of a packet, which joins them for the items about the
packet itself, and the search for the end of the stream, which tells them apart with masks of its
own. Here each of them is written with the shifts and masks of machine words, where a shift by too
many bits breaks. No shift breaks for a flavour, and all three have the same pointers.
-/

namespace Spead

/-! ## Words -/

/-- The largest word of `count` bits: one less than the bit above them. -/
def Bits.largest? (count : Nat) : Option UInt64 := do
  let next ← Bits.shiftLeft? 1 count
  if 1 ≤ next then some (next - 1) else none

theorem Bits.largest?_eq {count : Nat} (short : count < 64) :
    Bits.largest? count = some (Bits.lowMask count) := by
  have next : Bits.shiftLeft? 1 count = some (1 <<< UInt64.ofNat count) := if_pos short
  have positive : (1 : UInt64) ≤ 1 <<< UInt64.ofNat count := by
    rw [UInt64.le_iff_toNat_le, Bits.toNat_one_shiftLeft short]
    exact Nat.two_pow_pos count
  rw [largest?, next, Option.bind_eq_bind, Option.bind_some, if_pos positive, lowMask,
    if_neg (Nat.not_le.2 short)]

namespace Pointer

/-- Join the fields of a pointer, each shifted to where it belongs. -/
def join? (addressBits : Nat) (immediate : Bool) (id value : UInt64) : Option UInt64 := do
  let field ← Bits.shiftLeft? id addressBits
  if immediate then do
    let flag ← Bits.shiftLeft? 1 63
    return flag ||| field ||| value
  else
    return field ||| value

/-- An id that fits leaves the flag alone. -/
theorem join?_eq
    {addressBits : Nat} (narrow : addressBits < 64) (immediate : Bool) {id : UInt64}
    (fits : id.toNat < 2 ^ (63 - addressBits)) (value : UInt64) :
    join? addressBits immediate id value =
      some (toWord addressBits ⟨id.toNat, immediate, value.toNat⟩) := by
  have field : id.toNat * 2 ^ addressBits < 2 ^ 63 := by
    have bound := Nat.mul_lt_mul_of_pos_right fits (Nat.two_pow_pos addressBits)
    rwa [← Nat.pow_add, Nat.sub_add_cancel (Nat.le_of_lt_succ narrow)] at bound
  have flag : Bits.shiftLeft? 1 63 = some (.ofNat (2 ^ 63)) := rfl
  rw [join?, Bits.shiftLeft?_eq id narrow, flag]
  cases immediate with
  | false =>
      simp only [Option.bind_eq_bind, Option.bind_some, Bool.false_eq_true, if_false, toWord,
        Bool.toNat_false, Nat.zero_mul, Nat.zero_add, UInt64.ofNat_or, UInt64.ofNat_toNat]
      rfl
  | true =>
      have joined : 1 * immediateFlag + id.toNat * 2 ^ addressBits =
          2 ^ 63 ||| id.toNat * 2 ^ addressBits := by
        have parts := Nat.two_pow_add_eq_or_of_lt field 1
        rwa [Nat.mul_one, ← Nat.one_mul (2 ^ 63)] at parts
      simp only [Option.bind_eq_bind, Option.bind_some, if_true, toWord, Bool.toNat_true, joined,
        UInt64.ofNat_or, UInt64.ofNat_toNat]
      rfl

end Pointer

/-- The flag is the top bit of a word. -/
theorem top_bit_eq (word : UInt64) :
    (UInt64.ofNat (word.toNat / 2 ^ 63) == 1) = decide (immediateFlag ≤ word.toNat) := by
  have bound := word.toNat_lt
  have one : (1 : UInt64).toNat = 1 := rfl
  rw [Bool.eq_iff_iff, beq_iff_eq, decide_eq_true_iff, ← UInt64.toNat_inj, UInt64.toNat_ofNat',
    Nat.mod_eq_of_lt ((Nat.div_le_self _ _).trans_lt bound), one, immediateFlag]
  omega

namespace Flavour

/-! ## Pointers of a heap -/

def encode (flavour : Flavour) (pointer : Pointer) : Except PacketError UInt64 :=
  if pointer.immediate then
    flavour.encodeImmediate pointer.id pointer.value
  else
    flavour.encodeAddress pointer.id pointer.value

def encodeByShifts?
    (flavour : Flavour) (valueField : WireField) (immediate : Bool) (id value : UInt64) :
    ExceptT PacketError Option UInt64 := do
  let idBits ← difference? 63 flavour.addressBits
  let maxId ← Bits.largest? idBits
  if maxId < id then
    throw (.fieldOverflow .itemId id.toNat idBits)
  let maxAddress ← Bits.largest? flavour.addressBits
  if maxAddress < value then
    throw (.fieldOverflow valueField value.toNat flavour.addressBits)
  Pointer.join? flavour.addressBits immediate id value

def decodeByShifts? (flavour : Flavour) (word : UInt64) : Option Pointer := do
  let high ← Bits.shiftRight? word flavour.addressBits
  let idBits ← difference? 63 flavour.addressBits
  let maxId ← Bits.largest? idBits
  let flag ← Bits.shiftRight? word 63
  let maxAddress ← Bits.largest? flavour.addressBits
  return ⟨(high &&& maxId).toNat, flag == 1, (word &&& maxAddress).toNat⟩

variable (flavour : Flavour)

theorem idBits?_eq : difference? 63 flavour.addressBits = some flavour.idBits :=
  difference?_of_le (Nat.le_of_lt_succ flavour.addressBits_lt)

theorem largest?_idBits : Bits.largest? flavour.idBits = some (Bits.lowMask flavour.idBits) := by
  apply Bits.largest?_eq
  rw [idBits]
  omega

theorem lowMask_idBits_lt (id : UInt64) :
    Bits.lowMask flavour.idBits < id ↔ flavour.maxId < id.toNat := by
  have narrow : flavour.idBits ≤ 64 := by
    rw [idBits]
    omega
  rw [UInt64.lt_iff_toNat_lt, Bits.toNat_lowMask narrow, maxId]

theorem lowMask_addressBits_lt (value : UInt64) :
    Bits.lowMask flavour.addressBits < value ↔ flavour.maxAddress < value.toNat := by
  rw [UInt64.lt_iff_toNat_lt, Bits.toNat_lowMask (Nat.le_of_lt flavour.addressBits_lt), maxAddress]

theorem yields_encodeByShifts?
    (valueField : WireField) (immediate : Bool) (id value : UInt64) :
    Yields (flavour.encodeByShifts? valueField immediate id value)
      (flavour.encodePointer valueField ⟨id.toNat, immediate, value.toNat⟩) := by
  have narrow := flavour.addressBits_lt
  unfold encodePointer
  refine .step flavour.idBits?_eq ?_
  refine .step flavour.largest?_idBits ?_
  by_cases wideId : flavour.maxId < id.toNat
  · rw [if_pos wideId, if_pos ((flavour.lowMask_idBits_lt id).2 wideId)]
    exact yields_throw _
  rw [if_neg wideId, if_neg (mt (flavour.lowMask_idBits_lt id).1 wideId)]
  refine .step (Bits.largest?_eq narrow) ?_
  by_cases wideValue : flavour.maxAddress < value.toNat
  · rw [if_pos wideValue, if_pos ((flavour.lowMask_addressBits_lt value).2 wideValue)]
    exact yields_throw _
  rw [if_neg wideValue, if_neg (mt (flavour.lowMask_addressBits_lt value).1 wideValue),
    Pointer.join?_eq narrow immediate (flavour.maxId_lt (Nat.not_lt.1 wideId)) value]
  exact yields_pure _

theorem decodeByShifts?_eq (word : UInt64) :
    flavour.decodeByShifts? word = some (flavour.decodePointer word) := by
  have narrow := flavour.addressBits_lt
  have high : word.toNat / 2 ^ flavour.addressBits < 2 ^ 64 :=
    (Nat.div_le_self _ _).trans_lt word.toNat_lt
  have idField : (UInt64.ofNat (word.toNat / 2 ^ flavour.addressBits) &&&
      Bits.lowMask flavour.idBits).toNat =
        word.toNat % immediateFlag / 2 ^ flavour.addressBits := by
    have short : flavour.idBits ≤ 64 := by
      rw [idBits]
      omega
    rw [Bits.toNat_and_lowMask _ short, UInt64.toNat_ofNat', Nat.mod_eq_of_lt high,
      Pointer.immediateFlag_eq narrow, Nat.mod_mul_right_div_self, idBits]
  rw [decodeByShifts?, Bits.shiftRight?_eq word narrow, flavour.idBits?_eq]
  simp only [Option.bind_eq_bind, Option.bind_some, flavour.largest?_idBits,
    Bits.shiftRight?_eq word (show 63 < 64 by decide), Bits.largest?_eq narrow, idField,
    Bits.toNat_and_lowMask word (Nat.le_of_lt narrow), top_bit_eq]
  rfl

theorem encode_eq (pointer : Pointer) :
    flavour.encode pointer =
      flavour.encodePointer (if pointer.immediate then .immediateValue else .heapAddress)
        pointer := by
  rcases pointer with ⟨id, immediate, value⟩
  cases immediate <;> rfl

/-- What is encoded is decoded, and every word is the one of what it is decoded to. -/
theorem encode_eq_ok_iff {pointer : Pointer} {word : UInt64} :
    flavour.encode pointer = .ok word ↔ flavour.decodePointer word = pointer := by
  rw [encode_eq]
  constructor
  · intro encoded
    exact (encodePointer_eq_ok encoded).2.2.2
  · rintro rfl
    have fits := Pointer.fits_ofWord flavour.addressBits_lt word
    have idFits : (flavour.decodePointer word).id ≤ flavour.maxId := Nat.le_sub_one_of_lt fits.id_lt
    have valueFits : (flavour.decodePointer word).value ≤ flavour.maxAddress :=
      Nat.le_sub_one_of_lt fits.value_lt
    rw [encodePointer_of_le idFits valueFits]
    exact congrArg Except.ok (Pointer.toWord_ofWord flavour.addressBits_lt word)

theorem exists_encode_iff {pointer : Pointer} :
    (∃ word, flavour.encode pointer = .ok word) ↔
      pointer.id ≤ flavour.maxId ∧ pointer.value ≤ flavour.maxAddress := by
  rw [encode_eq]
  constructor
  · rintro ⟨word, encoded⟩
    obtain ⟨idFits, valueFits, _⟩ := encodePointer_eq_ok encoded
    exact ⟨idFits, valueFits⟩
  · rintro ⟨idFits, valueFits⟩
    exact ⟨_, encodePointer_of_le idFits valueFits _⟩

end Flavour

namespace Packet

/-! ## Items about the packet itself -/

/-- The word of an item about the packet, as it is put into the header. -/
def ownWord? (addressBits : Nat) (item : PacketItem) (value : UInt64) : Option UInt64 :=
  Pointer.join? addressBits true (.ofNat item.id) value

theorem ownWord?_eq (flavour : Flavour) (item : PacketItem) (value : UInt64) :
    ownWord? flavour.addressBits item value =
      some (Pointer.toWord flavour.addressBits ⟨item.id, true, value.toNat⟩) := by
  have same : (UInt64.ofNat item.id).toNat = item.id := by
    cases item <;> rfl
  have fits : (UInt64.ofNat item.id).toNat < 2 ^ (63 - flavour.addressBits) := by
    rw [same]
    exact itemId_lt flavour item
  rw [ownWord?, Pointer.join?_eq flavour.addressBits_lt true fits, same]

theorem encodeImmediate_id
    (flavour : Flavour) (item : PacketItem) {value : Nat} (fits : value ≤ flavour.maxAddress) :
    flavour.encodeImmediate item.id value =
      .ok (Pointer.toWord flavour.addressBits ⟨item.id, true, value⟩) := by
  have idFits : item.id ≤ flavour.maxId := Nat.le_sub_one_of_lt (itemId_lt flavour item)
  unfold Flavour.encodeImmediate
  exact Flavour.encodePointer_of_le idFits fits _

def ownWords (packet : Packet) : List UInt64 :=
  PacketItem.all.map fun item =>
    Pointer.toWord packet.addressBits ⟨item.id, true, packet.itemValue item⟩

/-- They stand behind the first bytes of a packet. -/
theorem take_drop_toBytes (packet : Packet) :
    (packet.toBytes.drop headerSize).take (packet.ownWords.length * pointerSize) =
      packet.ownWords.flatMap wordBytes := by
  have sized : (packet.ownWords.flatMap wordBytes).length =
      packet.ownWords.length * pointerSize := by
    rw [List.flatMap_def, length_flatten_wordBytes]
  have behind : packet.toBytes.drop headerSize =
      packet.ownWords.flatMap wordBytes ++
        (packet.pointers.flatMap wordBytes ++ packet.payload) := by
    rw [← List.append_assoc, ← List.flatMap_append]
    rfl
  rw [behind, ← sized, List.take_left]

/-! ## The end of the stream -/

/-- Whether a word tells that the stream ends, with one mask for the flag and one for the value. -/
def marksStop? (addressBits : Nat) (mask word : UInt64) : Option Bool := do
  let flagBit ← Bits.shiftLeft? 1 63
  let id ← Bits.shiftRight? (word &&& ~~~flagBit) addressBits
  let flag ← Bits.shiftRight? word 63
  return flag == 1 && id == .ofNat ItemId.streamControl &&
    word &&& mask == .ofNat StreamControl.stop

/-- Whether a pointer tells that the stream ends, as `carriesStop` finds it. -/
def carriesStopByShifts? (packet : Packet) : Option Bool := do
  let mask ← Bits.largest? packet.addressBits
  packet.pointers.anyM (marksStop? packet.addressBits mask)

theorem marksStop?_eq {addressBits : Nat} (narrow : addressBits < 64) (word : UInt64) :
    marksStop? addressBits (Bits.lowMask addressBits) word =
      some (decide (Pointer.ofWord addressBits word =
        ⟨ItemId.streamControl, true, StreamControl.stop⟩)) := by
  have flagBit : Bits.shiftLeft? 1 63 = some (.ofNat (2 ^ 63)) := rfl
  have others : ~~~(UInt64.ofNat (2 ^ 63)) = Bits.lowMask 63 := rfl
  have low : (word &&& Bits.lowMask 63).toNat = word.toNat % immediateFlag :=
    Bits.toNat_and_lowMask word (by decide)
  have small : word.toNat % immediateFlag / 2 ^ addressBits < 2 ^ 64 :=
    ((Nat.div_le_self _ _).trans (Nat.mod_le _ _)).trans_lt word.toNat_lt
  have idField : UInt64.ofNat (word.toNat % immediateFlag / 2 ^ addressBits) =
      .ofNat ItemId.streamControl ↔
        word.toNat % immediateFlag / 2 ^ addressBits = ItemId.streamControl := by
    rw [← UInt64.toNat_inj, UInt64.toNat_ofNat', Nat.mod_eq_of_lt small]
    rfl
  have valueField : word &&& Bits.lowMask addressBits = .ofNat StreamControl.stop ↔
      word.toNat % 2 ^ addressBits = StreamControl.stop := by
    rw [← UInt64.toNat_inj, Bits.toNat_and_lowMask word (Nat.le_of_lt narrow)]
    rfl
  rw [marksStop?, flagBit, Option.bind_eq_bind, Option.bind_some, others,
    Bits.shiftRight?_eq _ narrow, Bits.shiftRight?_eq word (by decide), low]
  simp only [Option.bind_some, Option.pure_def, top_bit_eq, Option.some_inj]
  rw [Bool.eq_iff_iff, Bool.and_eq_true, Bool.and_eq_true, beq_iff_eq, beq_iff_eq, idField,
    valueField, decide_eq_true_iff, decide_eq_true_iff, Pointer.ofWord, Pointer.mk.injEq,
    decide_eq_true_iff, and_assoc, and_left_comm]

theorem carriesStopByShifts?_eq {packet : Packet} (narrow : packet.addressBits < 64) :
    packet.carriesStopByShifts? = some packet.carriesStop := by
  rw [carriesStopByShifts?, Bits.largest?_eq narrow, Option.bind_eq_bind, Option.bind_some]
  exact anyM_eq_some_any fun word _ => marksStop?_eq narrow word

end Packet

namespace Flavour

/-! ## Main result -/

/-- All that puts pointers together or takes them apart has the same words for them. -/
structure PointersAgree (flavour : Flavour) : Prop where
  /-- Every word is encoded from the pointer that it is decoded to, and from no other. -/
  encode_iff : ∀ (pointer : Pointer) (word : UInt64),
    flavour.encode pointer = .ok word ↔ flavour.decodePointer word = pointer
  encodes_iff : ∀ pointer : Pointer, (∃ word, flavour.encode pointer = .ok word) ↔
    pointer.id ≤ flavour.maxId ∧ pointer.value ≤ flavour.maxAddress
  /-- With shifts and masks the flavour comes to the same words, pointers and errors. -/
  immediate : ∀ id value : UInt64,
    Yields (flavour.encodeByShifts? .immediateValue true id value)
      (flavour.encodeImmediate id.toNat value.toNat)
  address : ∀ id value : UInt64,
    Yields (flavour.encodeByShifts? .heapAddress false id value)
      (flavour.encodeAddress id.toNat value.toNat)
  decode : ∀ word, flavour.decodeByShifts? word = some (flavour.decodePointer word)
  /-- So does the header for what a packet says about itself. -/
  own : ∀ (item : PacketItem) (value : UInt64), value.toNat ≤ flavour.maxAddress →
    ∃ word, Packet.ownWord? flavour.addressBits item value = some word ∧
      flavour.encodeImmediate item.id value.toNat = .ok word
  header : ∀ packet : Packet, packet.addressBits = flavour.addressBits →
    (∀ item, packet.itemValue item ≤ flavour.maxAddress) →
    ∃ words : List UInt64,
      PacketItem.all.mapM (fun item => flavour.encodeImmediate item.id (packet.itemValue item)) =
        .ok words ∧
      (packet.toBytes.drop Packet.headerSize).take (words.length * Packet.pointerSize) =
        words.flatMap Packet.wordBytes
  /-- And so does the search for the end of the stream. -/
  stop : ∀ packet : Packet, packet.addressBits = flavour.addressBits →
    packet.carriesStopByShifts? = some packet.carriesStop ∧
      (packet.carriesStop = true ↔ ∃ word ∈ packet.pointers,
        flavour.decodePointer word = ⟨ItemId.streamControl, true, StreamControl.stop⟩)

theorem pointers_agree (flavour : Flavour) : flavour.PointersAgree where
  encode_iff _ _ := flavour.encode_eq_ok_iff
  encodes_iff _ := flavour.exists_encode_iff
  immediate := flavour.yields_encodeByShifts? .immediateValue true
  address := flavour.yields_encodeByShifts? .heapAddress false
  decode := flavour.decodeByShifts?_eq
  own item value fits :=
    ⟨_, Packet.ownWord?_eq flavour item value, Packet.encodeImmediate_id flavour item fits⟩
  header packet width fits := by
    refine ⟨packet.ownWords, ?_, packet.take_drop_toBytes⟩
    rw [Packet.ownWords, width]
    apply mapM_eq_ok_iff.2
    apply List.forall₂_map_right_iff.2
    apply List.forall₂_same.2
    intro item _
    exact Packet.encodeImmediate_id flavour item (fits item)
  stop packet width := by
    have narrow : packet.addressBits < 64 := by
      rw [width]
      exact flavour.addressBits_lt
    refine ⟨Packet.carriesStopByShifts?_eq narrow, ?_⟩
    simp only [Packet.carriesStop, List.any_eq_true, decide_eq_true_iff, width]
    rfl

end Flavour
end Spead
