import Spead.Proofs.Descriptor.Writable
import Spead.Proofs.Heap.Tiling
import Spead.Proofs.MachineWords

/-!
Descriptors that are accepted on machine words.

The dimensions of a shape are multiplied with care, but the widths of the fields of a record are
just added up. A descriptor that is read from bytes cannot make this sum break: its fields lie in
one packet, whose payload is told apart by addresses of at most 56 bits.
-/

namespace Spead

/-! ## Checking on machine words -/

/-- A computation of one domain of errors that may break, as one with errors of any domain. -/
def widen
    {domain result : Type} [Coe domain Error] (checked : ExceptT domain Option result) :
    ExceptT Error Option result :=
  .mk (checked.run.map liftM)

theorem Yields.widen
    {domain result : Type} [Coe domain Error] {checked : ExceptT domain Option result}
    {outcome : Except domain result} (yields : Yields checked outcome) :
    Yields (widen checked) (liftM outcome : Except Error result) :=
  congrArg (Option.map liftM) yields

/-- Bits that one element or record takes; the widths of fields are added up one after the other. -/
def Encoding.bits? : Encoding → Option Nat
  | .elements type _ => word? (type.size * 8)
  | .records fields => sum? (fields.map Field.bits)

namespace Descriptor

def bitsFor? (descriptor : Descriptor) (count : Nat) : ExceptT CodecError Option Nat := do
  let bits ← descriptor.encoding.bits?
  if wordLimit ≤ count * bits then
    throw (.sizeOverflow descriptor.id)
  return count * bits

def unitBits? (descriptor : Descriptor) : ExceptT CodecError Option Nat := do
  let count ← ExceptT.mk (some (descriptor.countFor (Shape.fixedDimensions descriptor.shape)))
  descriptor.bitsFor? count

def check? (descriptor : Descriptor) : ExceptT Error Option Unit := do
  if descriptor.id < ItemId.firstUser then
    throw (ItemError.invalidId descriptor.id : Error)
  let variableCount := Shape.variableCount descriptor.shape
  if 1 < variableCount then
    throw (CodecError.variableDimensions variableCount : Error)
  if descriptor.encoding = .records [] then
    throw (CodecError.emptyFormat : Error)
  let _ ← widen descriptor.unitBits?

/-- Checking the descriptor does not break, and nothing is wrong with it. -/
def Accepted (descriptor : Descriptor) : Prop :=
  Yields descriptor.check? (.ok ())

end Descriptor

section Inversion

variable {cause start result : Type}

theorem yields_bind_ok_iff
    {first : ExceptT cause Option start} {next : start → ExceptT cause Option result}
    {final : result} :
    Yields (first >>= next) (.ok final) ↔
      ∃ middle, Yields first (.ok middle) ∧ Yields (next middle) (.ok final) := by
  unfold Yields
  rw [ExceptT.run_bind]
  cases ran : first.run with
  | none => simp
  | some outcome =>
      cases outcome with
      | error thrown =>
          constructor
          · rintro ⟨⟩
          · rintro ⟨_, ⟨⟩, _⟩
      | ok value => simp

theorem yields_guard_ok_iff
    {condition : Prop} [Decidable condition] {thrown : cause} {next : ExceptT cause Option result}
    {final : result} :
    Yields (if condition then (throw thrown >>= fun _ : PUnit => next) else next) (.ok final) ↔
      ¬ condition ∧ Yields next (.ok final) := by
  by_cases failed : condition
  · simp only [failed, if_true, not_true_eq_false, false_and, iff_false]
    rintro ⟨⟩
  · simp only [failed, if_false, not_false_eq_true, true_and]

theorem yields_liftM_option_iff {step : Option result} {final : result} :
    Yields (liftM step : ExceptT cause Option result) (.ok final) ↔ step = some final := by
  cases step with
  | none =>
      constructor
      · rintro ⟨⟩
      · rintro ⟨⟩
  | some value =>
      constructor
      · rintro ⟨⟩
        rfl
      · rintro ⟨⟩
        rfl

theorem yields_widen_ok_iff
    {domain : Type} [Coe domain Error] {checked : ExceptT domain Option result} {final : result} :
    Yields (widen checked) (.ok final) ↔ Yields checked (.ok final) := by
  constructor
  · intro yields
    obtain ⟨outcome, ran, succeeded⟩ := Option.map_eq_some_iff.1 yields
    rw [Yields, show checked.run = some outcome from ran, liftM_eq_ok_iff.1 succeeded]
  · exact Yields.widen

end Inversion

theorem Encoding.bits?_eq_some_iff {encoding : Encoding} {bits : Nat} :
    encoding.bits? = some bits ↔ bits = encoding.bits ∧ encoding.bits < wordLimit := by
  cases encoding with
  | elements type order =>
      simp only [bits?, word?, Encoding.bits, Option.ite_none_right_eq_some, Option.some_inj]
      rw [and_comm, eq_comm]
  | records fields => exact sum?_eq_some_iff

namespace Descriptor

variable {descriptor : Descriptor}

theorem yields_bitsFor? (small : descriptor.encoding.bits < wordLimit) (count : Nat) :
    Yields (descriptor.bitsFor? count) (descriptor.bitsFor count) := by
  refine .step (Encoding.bits?_eq_some_iff.2 ⟨rfl, small⟩) ?_
  unfold bitsFor
  by_cases fits : count * descriptor.encoding.bits < wordLimit
  · rw [if_neg (Nat.not_le.2 fits), if_pos fits]
    exact yields_pure _
  · rw [if_pos (Nat.not_lt.1 fits), if_neg fits]
    exact yields_throw _

theorem yields_unitBits? (small : descriptor.encoding.bits < wordLimit) :
    Yields descriptor.unitBits? descriptor.unitBits :=
  .bind (yields_mk _) fun count _ => yields_bitsFor? small count

theorem yields_check? (small : descriptor.encoding.bits < wordLimit) :
    Yields descriptor.check? descriptor.check := by
  unfold check? check
  refine .guard Iff.rfl fun _ => ?_
  refine .guard Iff.rfl fun _ => ?_
  refine .guard Iff.rfl fun _ => ?_
  refine .bind (yields_unitBits? small).widen fun _ _ => ?_
  exact yields_pure _

/-- A descriptor is accepted if it passes its check and the widths of its fields can be added
up. -/
theorem accepted_iff :
    descriptor.Accepted ↔
      descriptor.check = .ok () ∧ descriptor.encoding.bits < wordLimit := by
  constructor
  · intro accepted
    have small : descriptor.encoding.bits < wordLimit := by
      unfold Accepted check? unitBits? bitsFor? at accepted
      simp only [yields_guard_ok_iff, yields_bind_ok_iff, yields_widen_ok_iff,
        yields_liftM_option_iff, Encoding.bits?_eq_some_iff] at accepted
      obtain ⟨_, _, _, _, ⟨_, _, _, ⟨_, small⟩, _⟩, _⟩ := accepted
      exact small
    refine ⟨?_, small⟩
    have yields := yields_check? small
    rw [Accepted, Yields] at accepted
    rw [Yields, accepted, Option.some_inj] at yields
    exact yields.symm
  · rintro ⟨checked, small⟩
    have yields := yields_check? small
    rwa [checked] at yields

/-! ## Descriptors that are read -/

theorem bits_le_of_fields (fields : List Field) :
    (Encoding.records fields).bits ≤ fields.length * 64 := by
  have each : ∀ width ∈ fields.map Field.bits, width ≤ 64 := by
    intro width member
    obtain ⟨field, _, rfl⟩ := List.mem_map.1 member
    exact FieldKind.le_of_supports field.supported
  have total := List.sum_le_card_nsmul _ 64 each
  rwa [List.length_map, nsmul_eq_mul] at total

/-- Every field of a format takes two bytes or more. -/
theorem length_format_of_add
    {flavour : Flavour} {draft next : Draft} {item : ReceivedItem}
    (added : draft.add flavour item = .ok next) :
    2 * next.format.length ≤ 2 * draft.format.length + item.data.length := by
  unfold Draft.add at added
  split at added
  · cases added
    exact Nat.le_add_right _ _
  split at added
  · obtain ⟨_, _, ⟨⟩⟩ := Except.bind_eq_ok_iff.1 added
    exact Nat.le_add_right _ _
  split at added
  · obtain ⟨_, _, ⟨⟩⟩ := Except.bind_eq_ok_iff.1 added
    exact Nat.le_add_right _ _
  split at added
  · obtain ⟨fields, entries, ⟨⟩⟩ := Except.bind_eq_ok_iff.1 added
    have sized := (mapM_eq_ok_iff.1 entries).length_eq
    rw [Bytes.wholeChunks, Bytes.length_chunks] at sized
    have wide := (formatFieldBytes_bounds flavour).1
    have few : item.data.length / flavour.formatFieldBytes ≤ item.data.length / 2 :=
      Nat.div_le_div_left wide Nat.two_pos
    rw [List.length_append, ← sized]
    omega
  split at added
  · cases added
    exact Nat.le_add_right _ _
  split at added
  · obtain ⟨_, _, ⟨⟩⟩ := Except.bind_eq_ok_iff.1 added
    exact Nat.le_add_right _ _
  · cases added
    exact Nat.le_add_right _ _

theorem length_format_le
    {flavour : Flavour} {items : List ReceivedItem} {draft : Draft}
    (drafted : items.foldlM (Draft.add flavour) {} = .ok draft) :
    2 * draft.format.length ≤ (items.map fun item => item.data.length).sum := by
  refine foldlM_induction
    (fun (earlier : List ReceivedItem) (draft : Draft) =>
      2 * draft.format.length ≤ (earlier.map fun item => item.data.length).sum)
    ?_ ?_ drafted
  · intro earlier before kept item _ after added
    have step := length_format_of_add added
    rw [List.map_append, List.sum_append, List.map_singleton, List.sum_singleton]
    omega
  · exact Nat.le_refl 0

theorem bits_le_of_finish
    {compat : Compat} {draft : Draft} (finished : draft.finish compat = .ok descriptor) :
    descriptor.encoding.bits ≤ 64 + draft.format.length * 64 := by
  have encoding_of_make {id : Nat} {name description : String} {shape : List Dimension}
      {encoding : Encoding} (made : make id name description shape encoding = .ok descriptor) :
      descriptor.encoding = encoding := by
    obtain ⟨_, _, ⟨⟩⟩ := Except.bind_eq_ok_iff.1 made
    rfl
  unfold Draft.finish at finished
  cases id : draft.id with
  | none =>
      rw [id] at finished
      cases finished
  | some id' =>
      simp only [id] at finished
      split at finished
      · obtain ⟨header, _, made⟩ := Except.bind_eq_ok_iff.1 finished
        rw [encoding_of_make made, Encoding.bits]
        have size := (ElementKind.size_of_supports (declaredType compat header.type).supported).2
        omega
      · rw [encoding_of_make finished]
        exact (bits_le_of_fields _).trans (Nat.le_add_left _ _)

/-- Whatever the bytes and the deviations of the peer are, a descriptor that is read is
accepted. -/
theorem accepted_of_parse
    {compat : Compat} {bytes : Bytes} (parsed : parse compat bytes = .ok descriptor) :
    descriptor.Accepted := by
  refine accepted_iff.2 ⟨check_of_parse parsed, ?_⟩
  unfold parse at parsed
  obtain ⟨⟨packet, used⟩, ofBytes, parsed⟩ := Except.bind_eq_ok_iff.1 parsed
  obtain ⟨_, parsed⟩ := Except.guard_eq_ok_iff.1 parsed
  obtain ⟨flavour, _, parsed⟩ := Except.bind_eq_ok_iff.1 parsed
  obtain ⟨items, resolved, parsed⟩ := Except.bind_eq_ok_iff.1 parsed
  obtain ⟨draft, drafted, finished⟩ := Except.bind_eq_ok_iff.1 parsed
  rw [liftM_eq_ok_iff] at ofBytes resolved drafted
  have wellFormed := Packet.wellFormed_of_parse ofBytes
  have payload : packet.payload.length < 2 ^ 56 :=
    calc packet.payload.length ≤ packet.heapLength := by
          rw [wellFormed.payloadLength]
          exact (Nat.le_add_left _ _).trans wellFormed.inside
      _ < 2 ^ packet.addressBits := wellFormed.heapLength_lt
      _ ≤ 2 ^ 56 := Nat.pow_le_pow_right Nat.two_pos wellFormed.narrow
  have pointers : packet.pointers.length ≤ Packet.maxPointers := by
    obtain ⟨frame, _, _, read, _⟩ := Packet.exists_frame_of_parse ofBytes
    exact (Nat.le_add_left _ _).trans (read.length_pointers_le.trans frame.counted)
  have fields := Nat.mul_le_mul pointers (addressBytes_bounds flavour).2
  have total := (length_format_le drafted).trans (PointerTable.sum_length_data_le resolved)
  have bits := bits_le_of_finish finished
  unfold Packet.maxPointers at fields
  unfold wordLimit
  omega

end Descriptor
end Spead
