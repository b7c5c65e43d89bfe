import Spead.Proofs.Heap.Resolving
import Spead.Proofs.Packet.Codec
import Spead.Proofs.Reassembler.Block

/-!
The receive path on machine words.

The functions here do what those without a question mark do, but every sum has to be a word of 64
bits, no difference may be negative, every shift has to be by fewer bits than a word has, and every
slice has to lie within the bytes that it is taken from. A step for which this fails breaks, and
there is no result.
-/

namespace Spead

/-! ## Steps that may break -/

def word? (number : Nat) : Option Nat :=
  if number < wordLimit then some number else none

/-- The difference of two numbers, if it is not negative. -/
def difference? (left right : Nat) : Option Nat :=
  if right ≤ left then some (left - right) else none

def sum? (numbers : List Nat) : Option Nat :=
  numbers.foldlM (fun sum number => word? (sum + number)) 0

/-- The bytes from `start` up to `stop`, if they are all there. -/
def Bytes.slice? (bytes : Bytes) (start stop : Nat) : Option Bytes :=
  if start ≤ stop ∧ stop ≤ bytes.length then some ((bytes.take stop).drop start) else none

/-- Take a pointer apart. The shifts are by the width of an address and by the rest of the word. -/
def Pointer.ofWord? (addressBits : Nat) (word : UInt64) : Option Pointer :=
  if addressBits < 64 then some (ofWord addressBits word) else none

theorem word?_of_lt {number : Nat} (small : number < wordLimit) : word? number = some number :=
  if_pos small

theorem difference?_of_le {left right : Nat} (ordered : right ≤ left) :
    difference? left right = some (left - right) :=
  if_pos ordered

theorem foldlM_word?_of_lt
    (first : Nat) {numbers : List Nat} (small : first + numbers.sum < wordLimit) :
    numbers.foldlM (fun sum number => word? (sum + number)) first =
      some (first + numbers.sum) := by
  induction numbers generalizing first with
  | nil => rfl
  | cons number rest inductionHypothesis =>
      rw [List.sum_cons, ← Nat.add_assoc] at small ⊢
      rw [List.foldlM_cons, word?_of_lt (by omega)]
      exact inductionHypothesis _ small

theorem sum?_of_lt {numbers : List Nat} (small : numbers.sum < wordLimit) :
    sum? numbers = some numbers.sum := by
  have fromZero : 0 + numbers.sum < wordLimit := by
    rwa [Nat.zero_add]
  have added := foldlM_word?_of_lt 0 fromZero
  rwa [Nat.zero_add] at added

theorem foldlM_word?_eq_some
    {first total : Nat} {numbers : List Nat} (known : first < wordLimit)
    (added : numbers.foldlM (fun sum number => word? (sum + number)) first = some total) :
    total = first + numbers.sum ∧ total < wordLimit := by
  induction numbers generalizing first with
  | nil =>
      cases added
      exact ⟨rfl, known⟩
  | cons number rest inductionHypothesis =>
      rw [List.foldlM_cons, Option.bind_eq_bind, Option.bind_eq_some_iff] at added
      obtain ⟨next, one, others⟩ := added
      rw [word?, Option.ite_none_right_eq_some, Option.some_inj] at one
      obtain ⟨small, rfl⟩ := one
      rw [List.sum_cons, ← Nat.add_assoc]
      exact inductionHypothesis small others

theorem sum?_eq_some_iff {numbers : List Nat} {total : Nat} :
    sum? numbers = some total ↔ total = numbers.sum ∧ numbers.sum < wordLimit := by
  constructor
  · intro added
    have zero : 0 < wordLimit := Nat.two_pow_pos 64
    obtain ⟨same, small⟩ := foldlM_word?_eq_some zero added
    rw [Nat.zero_add] at same
    exact ⟨same, same ▸ small⟩
  · rintro ⟨rfl, small⟩
    exact sum?_of_lt small

theorem Bytes.slice?_of_le
    {bytes : Bytes} {start stop : Nat} (ordered : start ≤ stop) (inside : stop ≤ bytes.length) :
    bytes.slice? start stop = some ((bytes.take stop).drop start) :=
  if_pos ⟨ordered, inside⟩

/-- Steps none of which breaks. -/
theorem mapM_eq_some_map
    {item result : Type} {step : item → Option result} {move : item → result}
    {items : List item} (unbroken : ∀ item ∈ items, step item = some (move item)) :
    items.mapM step = some (items.map move) := by
  induction items with
  | nil => rfl
  | cons head tail inductionHypothesis =>
      rw [List.forall_mem_cons] at unbroken
      rw [List.mapM_cons, unbroken.1, inductionHypothesis unbroken.2]
      rfl

/-- Tests none of which breaks. -/
theorem anyM_eq_some_any
    {item : Type} {test : item → Option Bool} {holds : item → Bool} {items : List item}
    (unbroken : ∀ item ∈ items, test item = some (holds item)) :
    items.anyM test = some (items.any holds) := by
  induction items with
  | nil => rfl
  | cons head tail inductionHypothesis =>
      rw [List.forall_mem_cons] at unbroken
      rw [List.anyM, unbroken.1, List.any_cons]
      cases holds head with
      | true => rfl
      | false => exact inductionHypothesis unbroken.2

theorem Pointer.mapM_ofWord? {addressBits : Nat} (narrow : addressBits < 64) (words : List UInt64) :
    words.mapM (ofWord? addressBits) = some (words.map (ofWord addressBits)) :=
  mapM_eq_some_map fun _ _ => if_pos narrow

/-! ## Computations whose steps may break -/

section Unbroken

variable {cause start result : Type}

/-- A computation does not break, and it has the given outcome. -/
def Yields (checked : ExceptT cause Option result) (outcome : Except cause result) : Prop :=
  checked.run = some outcome

theorem yields_pure (value : result) :
    Yields (pure value : ExceptT cause Option result) (.ok value) :=
  rfl

theorem yields_throw (thrown : cause) :
    Yields (throw thrown : ExceptT cause Option result) (.error thrown) :=
  rfl

theorem yields_mk (outcome : Except cause result) : Yields (.mk (some outcome)) outcome :=
  rfl

theorem Yields.bind
    {first : ExceptT cause Option start} {outcome : Except cause start}
    {next : start → ExceptT cause Option result} {others : start → Except cause result}
    (yields : Yields first outcome)
    (continues : ∀ value, outcome = .ok value → Yields (next value) (others value)) :
    Yields (first >>= next) (outcome >>= others) := by
  unfold Yields at yields
  rw [Yields, ExceptT.run_bind, yields]
  cases outcome with
  | error thrown => rfl
  | ok value => exact continues value rfl

theorem Yields.bind_ok
    {first : ExceptT cause Option start} {value : start}
    {next : start → ExceptT cause Option result} {outcome : Except cause result}
    (yields : Yields first (.ok value)) (continues : Yields (next value) outcome) :
    Yields (first >>= next) outcome := by
  unfold Yields at yields
  rw [Yields, ExceptT.run_bind, yields]
  exact continues

theorem Yields.bind_error
    {first : ExceptT cause Option start} {thrown : cause} (yields : Yields first (.error thrown))
    (next : start → ExceptT cause Option result) :
    Yields (first >>= next) (.error thrown) := by
  unfold Yields at yields
  rw [Yields, ExceptT.run_bind, yields]
  rfl

theorem Yields.map
    {first : ExceptT cause Option start} {outcome : Except cause start}
    (yields : Yields first outcome) (change : start → result) :
    Yields (change <$> first) (outcome.map change) := by
  unfold Yields at yields
  rw [Yields, ExceptT.run_map, yields]
  rfl

/-- A step that does not break. -/
theorem Yields.step
    {step : Option start} {value : start} {next : start → ExceptT cause Option result}
    {outcome : Except cause result}
    (unbroken : step = some value) (continues : Yields (next value) outcome) :
    Yields ((liftM step : ExceptT cause Option start) >>= next) outcome := by
  rw [unbroken]
  exact continues

/-- A check that throws on both sides. -/
theorem Yields.guard
    {checked condition : Prop} [Decidable checked] [Decidable condition] {thrown : cause}
    {next : ExceptT cause Option result} {outcome : Except cause result}
    (same : checked ↔ condition) (continues : ¬ condition → Yields next outcome) :
    Yields (if checked then (throw thrown >>= fun _ : PUnit => next) else next)
      (if condition then (throw thrown >>= fun _ : PUnit => outcome) else outcome) := by
  by_cases holds : condition
  · rw [if_pos holds, if_pos (same.2 holds)]
    rfl
  · rw [if_neg holds, if_neg (mt same.1 holds)]
    exact continues holds

end Unbroken

/-! ## Packets -/

namespace Packet

/-- Read a packet as `ofTable` does, from bytes with a table that ends at `tableEnd`. -/
def ofTable? (flavour : Flavour) (words : List UInt64) (tableEnd : Nat) (bytes : Bytes) :
    ExceptT PacketError Option Packet := do
  let table ← (words.mapM (Pointer.ofWord? flavour.addressBits) : Option (List Pointer))
  let misplaced := table.find? fun pointer => isPacketItemId pointer.id && !pointer.immediate
  if let some pointer := misplaced then
    throw (.notImmediate pointer.id)
  let heapCount ← ExceptT.mk (some (findItem table .heapCount))
  let heapLength ← ExceptT.mk (some (findItem table .heapLength))
  let payloadOffset ← ExceptT.mk (some (findItem table .payloadOffset))
  let payloadLength ← ExceptT.mk (some (findItem table .payloadLength))
  let available ← difference? bytes.length tableEnd
  if available < payloadLength then
    throw (.payloadLengthMismatch payloadLength available)
  let stop ← word? (payloadOffset + payloadLength)
  if heapLength < stop then
    throw (.payloadOutOfRange payloadOffset payloadLength heapLength)
  let used ← word? (tableEnd + payloadLength)
  let payload ← bytes.slice? tableEnd used
  return {
    heapCount, heapLength, payloadOffset, payloadLength
    addressBits := flavour.addressBits
    pointers := words.filter fun word => !isPacketItemId (flavour.decodePointer word).id
    payload }

def parse? (bytes : Bytes) : ExceptT PacketError Option (Packet × Nat) :=
  match bytes with
  | magic :: version :: idBytes :: addressBytes :: _ :: _ :: high :: low :: _ => do
      if magic ≠ packetMagic then
        throw (.invalidMagic magic)
      if version ≠ packetVersion then
        throw (.invalidVersion version)
      let _ ← word? (idBytes.toNat + addressBytes.toNat)
      let flavour ← ExceptT.mk (some (readWidths idBytes.toNat addressBytes.toNat))
      let count := Bytes.toNat [high, low]
      let tableSize ← word? (count * pointerSize)
      let tableEnd ← word? (headerSize + tableSize)
      if bytes.length < tableEnd then
        throw (.tooShort tableEnd bytes.length)
      let table ← bytes.slice? headerSize tableEnd
      let words := (Bytes.chunks pointerSize count table).map fun chunk =>
        UInt64.ofNat (Bytes.toNat chunk)
      let packet ← ofTable? flavour words tableEnd bytes
      let used ← word? (tableEnd + packet.payloadLength)
      return (packet, used)
  | _ => throw (.tooShort headerSize bytes.length)

theorem yields_ofTable?
    (flavour : Flavour) (words : List UInt64) {front behind : Bytes}
    (short : 4 * front.length < wordLimit) :
    Yields (ofTable? flavour words front.length (front ++ behind))
      (ofTable flavour words behind) := by
  have available : difference? (front ++ behind).length front.length = some behind.length := by
    rw [difference?_of_le (by simp), List.length_append, Nat.add_sub_cancel_left]
  have decoded : words.mapM (Pointer.ofWord? flavour.addressBits) =
      some (words.map flavour.decodePointer) :=
    Pointer.mapM_ofWord? flavour.addressBits_lt words
  have limit := flavour.maxAddress_lt_wordLimit
  unfold ofTable? ofTable
  refine .step decoded ?_
  dsimp only
  generalize (words.map flavour.decodePointer).find? (fun pointer =>
    isPacketItemId pointer.id && !pointer.immediate) = misplaced
  cases misplaced with
  | some pointer => exact yields_throw _
  | none =>
      refine .bind (yields_mk _) fun heapCount _ => ?_
      refine .bind (yields_mk _) fun heapLength _ => ?_
      refine .bind (yields_mk _) fun payloadOffset foundOffset => ?_
      refine .bind (yields_mk _) fun payloadLength foundLength => ?_
      have offsetBound := findItem_le foundOffset
      have lengthBound := findItem_le foundLength
      refine .step available ?_
      refine .guard Iff.rfl fun long => ?_
      refine .step (word?_of_lt (by omega)) ?_
      refine .guard Iff.rfl fun inside => ?_
      refine .step (word?_of_lt (by omega)) ?_
      refine .step (Bytes.slice?_of_le (by omega) (by rw [List.length_append]; omega)) ?_
      have payload : ((front ++ behind).take (front.length + payloadLength)).drop front.length =
          behind.take payloadLength := by
        rw [List.take_length_add_append, List.drop_left]
      rw [payload]
      exact yields_pure _

theorem yields_parse? (bytes : Bytes) : Yields (parse? bytes) (parse bytes) := by
  match bytes with
  | [] | [_] | [_, _] | [_, _, _] | [_, _, _, _] | [_, _, _, _, _] | [_, _, _, _, _, _]
  | [_, _, _, _, _, _, _] => exact yields_throw _
  | magic :: version :: idBytes :: addressBytes :: fifth :: sixth :: high :: low :: rest =>
      unfold parse? parse
      have idBound := idBytes.toNat_lt
      have addressBound := addressBytes.toNat_lt
      have counted : Bytes.toNat [high, low] < 256 ^ 2 := Bytes.toNat_lt [high, low]
      refine .guard Iff.rfl fun _ => ?_
      refine .guard Iff.rfl fun _ => ?_
      refine .step (word?_of_lt (by unfold wordLimit; omega)) ?_
      refine .bind (yields_mk _) fun flavour _ => ?_
      generalize Bytes.toNat [high, low] = count at counted
      refine .step (word?_of_lt (by unfold wordLimit pointerSize; omega)) ?_
      refine .step (word?_of_lt (by unfold wordLimit pointerSize headerSize; omega)) ?_
      -- The header and the table are what stands in front of the payload.
      generalize header : [magic, version, idBytes, addressBytes, fifth, sixth, high, low] = front
      have whole : magic :: version :: idBytes :: addressBytes :: fifth :: sixth :: high :: low ::
          rest = front ++ rest := by
        rw [← header]
        rfl
      have sized : front.length = headerSize := by
        rw [← header]
        rfl
      have short : (front ++ rest).length < headerSize + count * pointerSize ↔
          rest.length < count * pointerSize := by
        rw [List.length_append, sized, Nat.add_lt_add_iff_left]
      rw [whole]
      refine .guard short fun long => ?_
      refine .step (Bytes.slice?_of_le (by omega) (by rw [List.length_append]; omega)) ?_
      have table : ((front ++ rest).take (headerSize + count * pointerSize)).drop headerSize =
          rest.take (count * pointerSize) := by
        rw [← sized, List.take_length_add_append, List.drop_left]
      have split : front ++ rest =
          (front ++ rest.take (count * pointerSize)) ++ rest.drop (count * pointerSize) := by
        rw [List.append_assoc, List.take_append_drop]
      have tableEnd : headerSize + count * pointerSize =
          (front ++ rest.take (count * pointerSize)).length := by
        rw [List.length_append, sized, List.length_take_of_le (Nat.not_lt.1 long)]
      rw [table, Bytes.chunks_take, split]
      have small : 4 * (headerSize + count * pointerSize) < wordLimit := by
        unfold headerSize pointerSize wordLimit
        omega
      rw [tableEnd] at small ⊢
      refine .bind (yields_ofTable? flavour _ small) fun packet read => ?_
      have lengthBound : packet.payloadLength ≤ flavour.maxAddress := by
        have read := ofTable_eq_ok_iff.1 read
        rw [read.payloadLength]
        exact read.itemValue_le .payloadLength
      have limit := flavour.maxAddress_lt_wordLimit
      refine .step (word?_of_lt (by omega)) ?_
      exact yields_pure _

def span? (packet : Packet) : Option Span := do
  let stop ← word? (packet.payloadOffset + packet.payloadLength)
  return ⟨packet.payloadOffset, stop⟩

def carriesStop? (packet : Packet) : Option Bool := do
  let table ← packet.pointers.mapM (Pointer.ofWord? packet.addressBits)
  return table.any fun pointer => pointer = ⟨ItemId.streamControl, true, StreamControl.stop⟩

theorem WellFormed.span?_eq {packet : Packet} (wellFormed : packet.WellFormed) :
    packet.span? = some packet.span := by
  have small : packet.payloadOffset + packet.payloadLength < wordLimit :=
    wellFormed.inside.trans_lt wellFormed.heapLength_lt_wordLimit
  rw [span?, word?_of_lt small]
  rfl

theorem WellFormed.carriesStop?_eq {packet : Packet} (wellFormed : packet.WellFormed) :
    packet.carriesStop? = some packet.carriesStop := by
  have narrow := wellFormed.narrow
  rw [carriesStop?, Pointer.mapM_ofWord? (by omega)]
  simp only [carriesStop, Option.bind_eq_bind, Option.bind_some, List.any_map]
  rfl

end Packet

/-! ## Coverages -/

namespace Coverage

def touches (left right : Span) : Bool :=
  left.start ≤ right.stop && right.start ≤ left.stop

/-- Cover `span`, with the number of its positions that were not covered. -/
def insert? (coverage : Coverage) (span : Span) : Option (Coverage × Nat) :=
  if span.isEmpty then
    some (coverage, 0)
  else do
    let overlap ← sum? ((coverage.spans.filter (touches span)).map span.overlap)
    let length ← difference? span.stop span.start
    let added ← difference? length overlap
    return (coverage.insert span, added)

def total? (coverage : Coverage) : Option Nat := do
  let lengths ← coverage.spans.mapM fun span => difference? span.stop span.start
  sum? lengths

theorem sum_overlap_filter (span : Span) (spans : List Span) :
    ((spans.filter (touches span)).map span.overlap).sum = (spans.map span.overlap).sum := by
  induction spans with
  | nil => rfl
  | cons head tail inductionHypothesis =>
      rw [List.filter_cons, List.map_cons, List.sum_cons, ← inductionHypothesis]
      split
      · rfl
      · next apart =>
          have none : span.overlap head = 0 := by
            simp only [touches, Bool.and_eq_true, decide_eq_true_eq] at apart
            unfold Span.overlap
            omega
          rw [none, Nat.zero_add]

theorem insert?_eq
    {coverage : Coverage} (canonical : Canonical coverage.spans) {span : Span}
    (small : span.stop < wordLimit) :
    coverage.insert? span = some (coverage.insert span, coverage.missing span) := by
  unfold insert?
  split
  · next empty =>
      rw [insert, if_pos empty, missing_of_isEmpty coverage empty]
  · next occupied =>
      simp only [Span.isEmpty, decide_eq_true_eq, not_le] at occupied
      have bound := sum_overlap_le canonical span
      have length : span.length = span.stop - span.start := rfl
      rw [sum?_of_lt (by rw [sum_overlap_filter]; omega), sum_overlap_filter,
        difference?_of_le occupied.le]
      simp only [Option.bind_eq_bind, Option.bind_some]
      rw [← length, difference?_of_le bound]
      rfl

theorem total?_eq
    {coverage : Coverage} {length : Nat} (canonical : Canonical coverage.spans)
    (below : ∀ position ∈ coverage, position < length) (small : length < wordLimit) :
    coverage.total? = some coverage.total := by
  have lengths :
      (coverage.spans.mapM fun span => difference? span.stop span.start) =
        some (coverage.spans.map Span.length) :=
    mapM_eq_some_map fun span member => difference?_of_le (canonical.occupied span member).le
  rw [total?, lengths]
  exact sum?_of_lt ((total_le canonical below).trans_lt small)

end Coverage

/-! ## Pointer tables -/

namespace PointerTable

def items? (flavour : Flavour) (payload : Bytes) :
    List Pointer → (ends : List Nat) → (found : List ReceivedItem) →
      Option (List ReceivedItem)
  | [], _, found => some found.reverse
  | pointer :: rest, ends, found =>
      if pointer.immediate then
        let item := ⟨pointer.id, true, flavour.immediateBytes pointer.value⟩
        items? flavour payload rest ends (item :: found)
      else do
        let stop ← ends.head?
        let data ← payload.slice? pointer.value stop
        items? flavour payload rest (ends.drop 1) (⟨pointer.id, false, data⟩ :: found)

def resolve? (heapCount : Nat) (flavour : Flavour) (pointers : List UInt64) (payload : Bytes) :
    ExceptT ReassemblyError Option (List ReceivedItem) := do
  let table ← (pointers.mapM (Pointer.ofWord? flavour.addressBits) : Option (List Pointer))
  let outside := table.find? fun pointer =>
    !pointer.immediate && payload.length < pointer.value
  match outside with
  | some pointer =>
      throw (.invalidItemPointer heapCount pointer.id pointer.value payload.length)
  | none =>
      let all ← items? flavour payload table (ends table payload.length) []
      return all.filter fun item => item.id ≠ ItemId.null

theorem items?_eq
    (flavour : Flavour) (payload : Bytes) {table : List Pointer} {ends : List Nat}
    (found : List ReceivedItem)
    (sliced : List.Forall₂ (Slices payload.length)
      ((table.filter fun pointer => !pointer.immediate).map Pointer.value) ends) :
    items? flavour payload table ends found =
      some (items flavour payload.toArray table ends found) := by
  induction table generalizing ends found with
  | nil => rfl
  | cons pointer rest inductionHypothesis =>
      cases direct : pointer.immediate with
      | true =>
          simp only [direct, List.filter_cons, Bool.not_true, Bool.false_eq_true, if_false]
            at sliced
          simp only [items?, items, direct, if_true]
          exact inductionHypothesis _ sliced
      | false =>
          simp only [direct, List.filter_cons, Bool.not_false, if_true, List.map_cons] at sliced
          cases sliced with
          | cons slice others =>
              simp only [items?, items, direct, Bool.false_eq_true, if_false, List.head?_cons,
                List.headD_cons, Option.bind_eq_bind, Option.bind_some, List.drop_one,
                List.tail_cons]
              have data (stop : Nat) : (payload.take stop).drop pointer.value =
                  (payload.toArray.extract pointer.value stop).toList := by
                rw [Array.toList_extract, List.extract_eq_take_drop, List.drop_take]
              rw [Bytes.slice?_of_le slice.1 slice.2, data]
              exact inductionHypothesis _ others

theorem yields_resolve?
    (heapCount : Nat) (flavour : Flavour) (pointers : List UInt64) (payload : Bytes) :
    Yields (resolve? heapCount flavour pointers payload)
      (resolve heapCount flavour pointers payload) := by
  have decoded : pointers.mapM (Pointer.ofWord? flavour.addressBits) =
      some (pointers.map flavour.decodePointer) :=
    Pointer.mapM_ofWord? flavour.addressBits_lt pointers
  unfold resolve? resolve
  refine .step decoded ?_
  dsimp only
  cases outside : (pointers.map flavour.decodePointer).find? fun pointer =>
    !pointer.immediate && payload.length < pointer.value with
  | some pointer => exact yields_throw _
  | none =>
      rw [List.find?_eq_none] at outside
      have inside : ∀ pointer ∈ pointers.map flavour.decodePointer, pointer.immediate = false →
          pointer.value ≤ payload.length := by
        intro pointer member direct
        simpa [direct] using outside pointer member
      have sliced := slices_ends (pointers.map flavour.decodePointer) inside
      refine .step (items?_eq flavour payload [] sliced) ?_
      exact yields_pure _

end PointerTable

/-! ## Heaps -/

/-- Copy a slice into a span of a buffer. The span has to be there, and as long as the slice. -/
def Buffer.copy? (buffer : Buffer) (span : Span) (slice : Bytes) : Option Buffer := do
  let room ← buffer.toBytes.slice? span.start span.stop
  if room.length = slice.length then
    some (buffer.write span.start slice)
  else
    none

namespace PartialHeap

/-- Add a packet to the heap, with the number of bytes that it has not received before. -/
def add? (heap : PartialHeap) (packet : Packet) :
    ExceptT ReassemblyError Option (PartialHeap × Nat) := do
  let span ← packet.span?
  match heap.objection? packet with
  | some cause => throw cause
  | none =>
      let payload ← heap.payload.copy? span packet.payload
      let marked ← packet.carriesStop?
      let (received, added) ← heap.received.insert? span
      return ({ heap with payload, received, endOfStream := heap.endOfStream || marked }, added)

def resolve? (heap : PartialHeap) (compat : Compat) :
    ExceptT ReassemblyError Option ReceivedHeap := do
  let flavour ← ExceptT.mk (some ((Flavour.of heap.addressBits compat).mapError fun cause =>
    .invalidHeap heap.count (.flavour cause)))
  let items ← PointerTable.resolve? heap.count flavour heap.pointers heap.payload.toBytes
  return ⟨heap.count, flavour, items⟩

section MadeOf

variable {heap : PartialHeap} {block : List Packet}

theorem copy?_eq
    (made : heap.MadeOf block) {packet : Packet} (accepted : heap.objection? packet = none) :
    heap.payload.copy? packet.span packet.payload =
      some (heap.payload.write packet.payloadOffset packet.payload) := by
  obtain ⟨sameLength, _, _, fits⟩ := (objection?_eq_none_iff heap packet).1 accepted
  have inside : packet.payloadOffset + packet.payloadLength ≤ heap.payload.toBytes.length := by
    rw [made.length, ← sameLength]
    exact fits.inside
  have room : ((heap.payload.toBytes.take packet.span.stop).drop packet.span.start).length =
      packet.payload.length := by
    rw [List.length_drop, List.length_take_of_le (i := packet.span.stop) inside, fits.length]
    exact Nat.add_sub_cancel_left _ _
  have slice : heap.payload.toBytes.slice? packet.span.start packet.span.stop =
      some ((heap.payload.toBytes.take packet.span.stop).drop packet.span.start) :=
    Bytes.slice?_of_le (Nat.le_add_right _ _) inside
  rw [Buffer.copy?, slice]
  exact if_pos room

theorem yields_add?
    (made : heap.MadeOf block) {packet : Packet} (wellFormed : packet.WellFormed) :
    Yields (heap.add? packet)
      (match heap.objection? packet with
        | some cause => .error cause
        | none => .ok (heap.add packet, heap.received.missing packet.span)) := by
  have small : packet.span.stop < wordLimit :=
    wellFormed.inside.trans_lt wellFormed.heapLength_lt_wordLimit
  refine .step wellFormed.span?_eq ?_
  cases accepted : heap.objection? packet with
  | some cause => exact yields_throw _
  | none =>
      refine .step (copy?_eq made accepted) ?_
      refine .step wellFormed.carriesStop?_eq ?_
      refine .step (Coverage.insert?_eq made.canonical small) ?_
      exact yields_pure _

theorem yields_resolve? (heap : PartialHeap) (compat : Compat) :
    Yields (heap.resolve? compat) (heap.resolve compat) := by
  unfold resolve? resolve
  cases Flavour.of heap.addressBits compat with
  | error cause => exact yields_throw _
  | ok flavour =>
      refine .bind (PointerTable.yields_resolve? _ _ _ _) fun items _ => ?_
      exact yields_pure _

/-- Slices of packets as they come out of bytes never lie outside of a heap. -/
theorem not_slice_of_objection?
    {packet : Packet} (wellFormed : packet.WellFormed) (count start stop : Nat) :
    heap.objection? packet ≠ some (.invalidHeap count (.slice start stop)) := by
  intro objection
  unfold objection? at objection
  split at objection
  · cases objection
  · next sameLength =>
      split at objection
      · cases objection
      split at objection
      · cases objection
      split at objection
      · next outside =>
          have inside := wellFormed.inside
          rw [not_not.1 sameLength] at inside
          rw [Bool.or_eq_true, decide_eq_true_eq, decide_eq_true_eq] at outside
          rcases outside with behind | mismatch
          · exact absurd inside (Nat.not_le.2 behind)
          · exact mismatch wellFormed.payloadLength
      · cases objection

/-- Why a complete heap is not handed out. -/
inductive Unresolvable (heap : PartialHeap) (compat : Compat) : ReassemblyError → Prop
  /-- An item begins behind the payload. -/
  | item (id offset : Nat) :
      heap.heapLength < offset →
      Unresolvable heap compat (.invalidItemPointer heap.count id offset heap.heapLength)
  /-- There are no peers with the deviations and with addresses of this width. -/
  | width :
      compat ≠ .none → heap.addressBits ≠ 40 → heap.addressBits ≠ 48 →
      Unresolvable heap compat
        (.invalidHeap heap.count (.flavour (.compatWidth compat heap.addressBits)))

/-- The widths and lengths of a heap hold together. -/
structure Bounded (heap : PartialHeap) : Prop where
  wide : 8 ≤ heap.addressBits
  narrow : heap.addressBits ≤ 56
  heapLength_lt : heap.heapLength < 2 ^ heap.addressBits
  payload : heap.payload.toBytes.length = heap.heapLength
  total : heap.received.total? = some heap.received.total

theorem MadeOf.bounded
    (made : heap.MadeOf block) {packet : Packet} (member : packet ∈ block)
    (wellFormed : packet.WellFormed) : heap.Bounded where
  wide := made.addressBits packet member ▸ wellFormed.wide
  narrow := made.addressBits packet member ▸ wellFormed.narrow
  heapLength_lt :=
    made.addressBits packet member ▸ made.heapLength packet member ▸ wellFormed.heapLength_lt
  payload := made.length
  total := Coverage.total?_eq made.canonical made.received_lt
    (made.heapLength packet member ▸ wellFormed.heapLength_lt_wordLimit)

theorem MadeOf.unresolvable
    (made : heap.MadeOf block) {packet : Packet} (member : packet ∈ block)
    (wellFormed : packet.WellFormed) {compat : Compat} {cause : ReassemblyError}
    (unresolved : heap.resolve compat = .error cause) :
    heap.Unresolvable compat cause := by
  have wide := wellFormed.wide
  have narrow := wellFormed.narrow
  have bytes := wellFormed.bytes
  rw [made.addressBits packet member] at wide narrow bytes
  unfold resolve at unresolved
  split at unresolved
  · next flavour _ =>
      unfold ReceivedHeap.resolve PointerTable.resolve at unresolved
      dsimp only at unresolved
      split at unresolved
      · next pointer outside =>
          cases unresolved
          rw [made.length]
          refine .item _ _ ?_
          have behind := List.find?_some outside
          rw [made.length] at behind
          simpa using (by simpa using behind : _ ∧ _).2
      · cases unresolved
  · next fault refused =>
      cases unresolved
      unfold Flavour.of at refused
      rw [dif_pos ⟨by omega, by omega, bytes⟩] at refused
      split at refused
      · cases refused
      · next absent =>
          cases refused
          rw [Classical.not_imp, not_or] at absent
          exact .width absent.1 absent.2.1 absent.2.2

end MadeOf

end PartialHeap
end Spead
