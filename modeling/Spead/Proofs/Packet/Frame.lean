import Spead.Packet.Wire
import Spead.Proofs.Bytes
import Spead.Proofs.Except
import Spead.Proofs.Pointer

/-!
Headers with the pointer tables that they count.

Bytes from which a packet can be read begin with a frame. Of what stands behind the frame, only the
payload of the packet matters to it.
-/

namespace Spead
namespace Packet

/-! ## Words as bytes -/

theorem ofNat_toNat_wordBytes (word : UInt64) :
    UInt64.ofNat (Bytes.toNat (wordBytes word)) = word := by
  rw [wordBytes, Bytes.toNat_bigEndian_of_lt, UInt64.ofNat_toNat]
  exact word.toNat_lt

theorem wordBytes_ofNat_toNat {block : Bytes} (sized : block.length = pointerSize) :
    wordBytes (UInt64.ofNat (Bytes.toNat block)) = block := by
  have small : Bytes.toNat block < 2 ^ 64 := by
    have bound := Bytes.toNat_lt block
    rwa [sized] at bound
  rw [wordBytes, UInt64.toNat_ofNat', Nat.mod_eq_of_lt small, ← sized]
  exact Bytes.bigEndian_toNat block

/-- The words of a table are cut out of what they were joined to. -/
theorem words_of_chunks (words : List UInt64) (behind : Bytes) :
    (Bytes.chunks pointerSize words.length ((words.map wordBytes).flatten ++ behind)).map
      (fun chunk => UInt64.ofNat (Bytes.toNat chunk)) = words := by
  have sized : ∀ block ∈ words.map wordBytes, block.length = pointerSize := by
    intro block member
    obtain ⟨word, _, rfl⟩ := List.mem_map.1 member
    exact Bytes.length_bigEndian pointerSize word.toNat
  have cut := Bytes.chunks_flatten_append (words.map wordBytes) sized behind
  rw [List.length_map] at cut
  rw [cut, List.map_map]
  simp only [Function.comp_def, ofNat_toNat_wordBytes, List.map_id']

theorem length_flatten_wordBytes (words : List UInt64) :
    (words.map wordBytes).flatten.length = words.length * pointerSize := by
  induction words with
  | nil => rfl
  | cons word rest inductionHypothesis =>
      rw [List.map_cons, List.flatten_cons, List.length_append, inductionHypothesis,
        List.length_cons, wordBytes, Bytes.length_bigEndian]
      ring

/-- Bytes that are long enough are words with something behind them. -/
theorem exists_words {count : Nat} {bytes : Bytes} (long : count * pointerSize ≤ bytes.length) :
    ∃ words : List UInt64, words.length = count ∧
      bytes = (words.map wordBytes).flatten ++ bytes.drop (count * pointerSize) := by
  have sized := Bytes.length_of_mem_chunks long
  refine ⟨(Bytes.chunks pointerSize count bytes).map fun block =>
    UInt64.ofNat (Bytes.toNat block), ?_, ?_⟩
  · rw [List.length_map, Bytes.length_chunks]
  · have back : ∀ block ∈ Bytes.chunks pointerSize count bytes,
        (wordBytes ∘ fun block => UInt64.ofNat (Bytes.toNat block)) block = block :=
      fun block member => wordBytes_ofNat_toNat (sized block member)
    rw [List.map_map, List.map_congr_left back, List.map_id', Bytes.flatten_chunks,
      List.take_append_drop]

/-! ## Widths -/

theorem readWidths_of_flavour (flavour : Flavour) :
    readWidths (8 - flavour.addressBits / 8) (flavour.addressBits / 8) = .ok flavour.plain := by
  have narrow := flavour.addressBits_lt
  have whole : flavour.addressBits / 8 * 8 = flavour.addressBits := by
    have := flavour.addressBits_bytes
    omega
  have sum : 8 - flavour.addressBits / 8 + flavour.addressBits / 8 = 8 := by omega
  rw [readWidths, whole, flavour.of_addressBits_none]
  simp only [sum, if_true]

theorem readWidths_eq_ok
    {idBytes addressBytes : Nat} {flavour : Flavour}
    (read : readWidths idBytes addressBytes = .ok flavour) :
    idBytes = 8 - flavour.addressBits / 8 ∧ addressBytes = flavour.addressBits / 8 := by
  unfold readWidths at read
  cases ofWidth : Flavour.of (addressBytes * 8) .none with
  | error cause =>
      rw [ofWidth] at read
      cases read
  | ok found =>
      simp only [ofWidth] at read
      split at read
      · next sum =>
          cases read
          have bits := Flavour.addressBits_of ofWidth
          omega
      · cases read

theorem toNat_ofNat_of_le {value : Nat} (small : value ≤ 8) :
    (UInt8.ofNat value).toNat = value := by
  rw [UInt8.toNat_ofNat']
  omega

/-! ## Frames -/

/-- A header with the table that it counts. Two bytes of a header are not looked at. -/
structure Frame where
  flavour : Flavour
  fifth : UInt8
  sixth : UInt8
  words : List UInt64
  counted : words.length ≤ maxPointers

namespace Frame

def bytes (frame : Frame) (behind : Bytes) : Bytes :=
  packetMagic :: packetVersion :: UInt8.ofNat (8 - frame.flavour.addressBits / 8) ::
    UInt8.ofNat (frame.flavour.addressBits / 8) :: frame.fifth :: frame.sixth ::
    UInt8.ofNat (frame.words.length / 256) :: UInt8.ofNat frame.words.length ::
    ((frame.words.map wordBytes).flatten ++ behind)

def size (frame : Frame) : Nat :=
  headerSize + frame.words.length * pointerSize

theorem length_bytes (frame : Frame) (behind : Bytes) :
    (frame.bytes behind).length = frame.size + behind.length := by
  simp only [bytes, size, List.length_cons, List.length_append, length_flatten_wordBytes,
    headerSize]
  omega

theorem bytes_append (frame : Frame) (front behind : Bytes) :
    frame.bytes (front ++ behind) = frame.bytes front ++ behind := by
  simp [bytes]

theorem toNat_count (frame : Frame) :
    Bytes.toNat [UInt8.ofNat (frame.words.length / 256), UInt8.ofNat frame.words.length] =
      frame.words.length := by
  have bound := frame.counted
  rw [maxPointers] at bound
  have small : frame.words.length < 256 ^ 2 := by omega
  exact Bytes.toNat_bigEndian_of_lt small

theorem parse_bytes (frame : Frame) (behind : Bytes) :
    parse (frame.bytes behind) =
      (ofTable frame.flavour frame.words behind).map fun packet =>
        (packet, frame.size + packet.payloadLength) := by
  have narrow := frame.flavour.addressBits_lt
  have idBytes :
      (UInt8.ofNat (8 - frame.flavour.addressBits / 8)).toNat =
        8 - frame.flavour.addressBits / 8 :=
    toNat_ofNat_of_le (by omega)
  have addressBytes :
      (UInt8.ofNat (frame.flavour.addressBits / 8)).toNat = frame.flavour.addressBits / 8 :=
    toNat_ofNat_of_le (by omega)
  have long :
      ¬ ((frame.words.map wordBytes).flatten ++ behind).length <
        frame.words.length * pointerSize := by
    rw [List.length_append, length_flatten_wordBytes]
    omega
  have compatless :
      ofTable frame.flavour.plain frame.words behind =
        ofTable frame.flavour frame.words behind :=
    rfl
  simp only [bytes, parse]
  simp only [ne_eq, not_true_eq_false, if_false, bind, Except.bind, pure, Except.pure,
    frame.toNat_count, idBytes, addressBytes, readWidths_of_flavour, if_neg long, words_of_chunks,
    List.drop_left' (length_flatten_wordBytes frame.words), compatless]
  cases ofTable frame.flavour frame.words behind with
  | error cause => rfl
  | ok packet => rfl

/-- Bytes from which a packet is read are a frame with what stands behind it. -/
theorem exists_of_parse
    {bytes : Bytes} {packet : Packet} {used : Nat} (parsed : parse bytes = .ok (packet, used)) :
    ∃ (frame : Frame) (behind : Bytes), bytes = frame.bytes behind := by
  unfold parse at parsed
  split at parsed
  · next magic version idBytes addressBytes fifth sixth high low rest =>
      obtain ⟨isMagic, parsed⟩ := Except.guard_eq_ok_iff.1 parsed
      obtain ⟨isVersion, parsed⟩ := Except.guard_eq_ok_iff.1 parsed
      obtain ⟨flavour, widths, parsed⟩ := Except.bind_eq_ok_iff.1 parsed
      obtain ⟨long, _⟩ := Except.guard_eq_ok_iff.1 parsed
      rw [not_not] at isMagic isVersion
      subst isMagic
      subst isVersion
      obtain ⟨ofIds, ofAddresses⟩ := readWidths_eq_ok widths
      obtain ⟨words, length, split⟩ := exists_words (Nat.le_of_not_lt long)
      have counted : words.length < 256 ^ 2 := by
        rw [length]
        exact Bytes.toNat_lt [high, low]
      have count : [high, low] = Bytes.bigEndian 2 words.length := by
        rw [length]
        exact (Bytes.bigEndian_toNat [high, low]).symm
      have countBytes :
          [high, low] = [UInt8.ofNat (words.length / 256), UInt8.ofNat words.length] := count
      simp only [List.cons.injEq, and_true] at countBytes
      refine ⟨⟨flavour, fifth, sixth, words, by rw [maxPointers]; omega⟩,
        rest.drop (Bytes.toNat [high, low] * pointerSize), ?_⟩
      rw [bytes, ← countBytes.1, ← countBytes.2, ← split, ← ofIds, ← ofAddresses,
        UInt8.ofNat_toNat, UInt8.ofNat_toNat]
  · cases parsed

end Frame
end Packet
end Spead
