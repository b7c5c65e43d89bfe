import Mathlib.Algebra.Order.BigOperators.Group.List
import Mathlib.Order.Interval.Finset.Nat
import Spead.Proofs.Bytes
import Spead.Proofs.Heap.Resolving

/-!
Payloads shared out among the pointers of a table.

The pointers come in any order, several of them may have one address, and null pointers are among
them. Sorted by address, each takes the bytes up to the next one: no byte is taken twice, and none
behind the first address is left over.
-/

namespace Spead

/-- The pointer has an address behind the end of the payload. -/
def Pointer.Outside (payloadLength : Nat) (pointer : Pointer) : Prop :=
  pointer.immediate = false ∧ payloadLength < pointer.value

theorem Pointer.outside_iff {payloadLength : Nat} {pointer : Pointer} :
    (!pointer.immediate && decide (payloadLength < pointer.value)) = true ↔
      pointer.Outside payloadLength := by
  rw [Outside, Bool.and_eq_true, Bool.not_eq_true', decide_eq_true_eq]

namespace PointerTable

/-- Slices, each from its start to its stop, that take every byte of the payload from the first
start on exactly once. -/
structure Tiles (payloadLength : Nat) (slices : List (Nat × Nat)) : Prop where
  inside : ∀ slice ∈ slices, Slices payloadLength slice.1 slice.2
  apart : slices.Pairwise fun left right => left.2 ≤ right.1 ∨ right.2 ≤ left.1
  covers : ∀ position < payloadLength, (∃ slice ∈ slices, slice.1 ≤ position) →
    ∃ slice ∈ slices, slice.1 ≤ position ∧ position < slice.2
  lastOfEqual : slices.Pairwise fun left right => left.1 = right.1 → left.2 = left.1

/-- Slices that lie apart are together no longer than what they lie in. -/
theorem sum_lengths_le
    {payloadLength : Nat} {slices : List (Nat × Nat)}
    (inside : ∀ slice ∈ slices, Slices payloadLength slice.1 slice.2)
    (apart : slices.Pairwise fun left right => left.2 ≤ right.1 ∨ right.2 ≤ left.1) :
    (slices.map fun slice => slice.2 - slice.1).sum ≤ payloadLength := by
  -- The positions of the slices are counted.
  have counted :
      ∃ positions : Finset Nat,
        positions.card = (slices.map fun slice => slice.2 - slice.1).sum ∧
          ∀ position ∈ positions, ∃ slice ∈ slices, slice.1 ≤ position ∧ position < slice.2 := by
    clear inside
    induction slices with
    | nil => exact ⟨∅, rfl, by simp⟩
    | cons head tail inductionHypothesis =>
        rw [List.pairwise_cons] at apart
        obtain ⟨positions, counted, found⟩ := inductionHypothesis apart.2
        refine ⟨Finset.Ico head.1 head.2 ∪ positions, ?_, ?_⟩
        · rw [Finset.card_union_of_disjoint, Nat.card_Ico, counted, List.map_cons, List.sum_cons]
          rw [Finset.disjoint_left]
          intro position inHead inTail
          obtain ⟨slice, member, _⟩ := found position inTail
          have := apart.1 slice member
          rw [Finset.mem_Ico] at inHead
          omega
        · intro position member
          rcases Finset.mem_union.1 member with inHead | inTail
          · exact ⟨head, List.mem_cons_self, Finset.mem_Ico.1 inHead⟩
          · obtain ⟨slice, ofTail, within⟩ := found position inTail
            exact ⟨slice, List.mem_cons_of_mem _ ofTail, within⟩
  obtain ⟨positions, same, found⟩ := counted
  rw [← same, ← Finset.card_range payloadLength]
  apply Finset.card_le_card
  intro position member
  obtain ⟨slice, ofSlices, _, before⟩ := found position member
  exact Finset.mem_range.2 (before.trans_le (inside slice ofSlices).2)

/-! ## Slices in ascending order -/

section Ascending

variable {sorted : List (Nat × Nat)} {payloadLength : Nat}

/-- A slice stops before all later ones start. -/
theorem pairwise_pairNext
    (ascending : sorted.Pairwise fun left right => left.1 ≤ right.1) :
    (pairNext payloadLength sorted).Pairwise fun left right => left.2 ≤ right.1.1 := by
  induction sorted with
  | nil => exact List.Pairwise.nil
  | cons head tail inductionHypothesis =>
      cases tail with
      | nil => simp [pairNext]
      | cons next rest =>
          rw [List.pairwise_cons] at ascending
          rw [pairNext_cons_cons, List.pairwise_cons]
          refine ⟨?_, inductionHypothesis ascending.2⟩
          intro later member
          have start := List.mem_map_of_mem (f := Prod.fst) member
          rw [map_fst_pairNext] at start
          rcases List.mem_cons.1 start with same | behind
          · rw [same]
          · exact (List.pairwise_cons.1 ascending.2).1 _ behind

theorem covers_pairNext
    {position : Nat} (inside : position < payloadLength)
    (begun : ∃ entry ∈ sorted, entry.1 ≤ position) :
    ∃ slice ∈ pairNext payloadLength sorted, slice.1.1 ≤ position ∧ position < slice.2 := by
  induction sorted with
  | nil => simp at begun
  | cons head tail inductionHypothesis =>
      cases tail with
      | nil => exact ⟨(head, payloadLength), List.mem_cons_self, by simpa using begun, inside⟩
      | cons next rest =>
          rw [pairNext_cons_cons]
          by_cases later : ∃ entry ∈ next :: rest, entry.1 ≤ position
          · obtain ⟨slice, member, covered⟩ := inductionHypothesis later
            exact ⟨slice, List.mem_cons_of_mem _ member, covered⟩
          · have first : head.1 ≤ position := by
              obtain ⟨entry, member, reached⟩ := begun
              rcases List.mem_cons.1 member with rfl | ofRest
              · exact reached
              · exact absurd ⟨entry, ofRest, reached⟩ later
            have before : position < next.1 := by
              apply Nat.lt_of_not_le
              intro reached
              exact later ⟨next, List.mem_cons_self, reached⟩
            exact ⟨(head, next.1), List.mem_cons_self, first, before⟩

end Ascending

/-! ## Slices in table order -/

section Table

variable {table : List Pointer} {payloadLength : Nat}

/-- The slices of the addresses of a table, in the order of its pointers. -/
def slices (table : List Pointer) (payloadLength : Nat) : List (Nat × Nat) :=
  ((table.filter fun pointer => !pointer.immediate).map Pointer.value).zip
    (ends table payloadLength)

theorem map_fst_zip_ends (table : List Pointer) (payloadLength : Nat) :
    ((addresses table).zip (ends table payloadLength)).map Prod.fst = addresses table :=
  List.map_fst_zip (Nat.le_of_eq (length_ends table payloadLength).symm)

theorem slices_eq (table : List Pointer) (payloadLength : Nat) :
    slices table payloadLength =
      ((addresses table).zip (ends table payloadLength)).map fun slice => (slice.1.1, slice.2) := by
  rw [slices, ← map_fst_addresses, List.zip_map_left]
  rfl

/-- Of two equal addresses the earlier pointer is sorted before the later one, which starts where it
stops. -/
theorem stop_le_of_sublist
    {left right : (Nat × Nat) × Nat}
    (order : [left, right].Sublist ((addresses table).zip (ends table payloadLength)))
    (equal : left.1.1 = right.1.1) :
    left.2 ≤ right.1.1 := by
  have ofTable := order.map Prod.fst
  rw [map_fst_zip_ends] at ofTable
  have ofSorted := sublist_mergeSort_of_key_eq Prod.fst ofTable equal
  rw [← sortedAddresses, ← map_fst_pairNext payloadLength (sortedAddresses table),
    List.sublist_map_iff] at ofSorted
  obtain ⟨pair, ofPaired, same⟩ := ofSorted
  obtain ⟨sortedLeft, _, rfl, sameLeft, others⟩ := List.map_eq_cons_iff.1 same.symm
  obtain ⟨sortedRight, _, rfl, sameRight, ending⟩ := List.map_eq_cons_iff.1 others
  rw [List.map_eq_nil_iff] at ending
  subst ending
  have apart := List.pairwise_pair.1
    ((pairwise_pairNext (sortedAddresses_ascend table)).sublist ofPaired)
  -- Every address has one place and so one end.
  have distinct : (((addresses table).zip (ends table payloadLength)).map Prod.fst).Nodup := by
    rw [map_fst_zip_ends]
    exact List.Nodup.of_map _ (nodup_places table)
  have placed := (zip_ends_perm table payloadLength).mem_iff.2
    (ofPaired.subset List.mem_cons_self)
  have unique := List.inj_on_of_nodup_map distinct (order.subset List.mem_cons_self) placed
    sameLeft.symm
  rw [unique, ← sameRight]
  exact apart

/-- The slices of a table tile the payload if no address lies outside of it. -/
theorem tiles_slices
    (inside : ∀ pointer ∈ table, pointer.immediate = false → pointer.value ≤ payloadLength) :
    Tiles payloadLength (slices table payloadLength) := by
  have perm := zip_ends_perm table payloadLength
  have sliced := slices_ends table inside
  rw [List.forall₂_iff_zip] at sliced
  rw [slices_eq]
  constructor
  case inside =>
    intro slice member
    rw [← slices_eq] at member
    exact sliced.2 member
  case apart =>
    rw [List.pairwise_map]
    refine perm.symm.pairwise ((pairwise_pairNext (sortedAddresses_ascend table)).imp Or.inl) ?_
    exact Or.symm
  case covers =>
    intro position within begun
    simp only [List.mem_map, exists_exists_and_eq_and] at begun ⊢
    have reached : ∃ entry ∈ sortedAddresses table, entry.1 ≤ position := by
      obtain ⟨slice, member, start⟩ := begun
      have ofTable := (List.of_mem_zip member).1
      exact ⟨slice.1, List.mem_mergeSort.2 ofTable, start⟩
    obtain ⟨slice, member, covered⟩ := covers_pairNext within reached
    exact ⟨slice, perm.mem_iff.2 member, covered⟩
  case lastOfEqual =>
    rw [List.pairwise_map, List.pairwise_iff_forall_sublist]
    intro left right order equal
    have member := List.mem_map_of_mem (f := fun slice => (slice.1.1, slice.2))
      (order.subset List.mem_cons_self)
    rw [← slices_eq] at member
    have atStart := stop_le_of_sublist order equal
    rw [← equal] at atStart
    exact Nat.le_antisymm atStart (sliced.2 member).1

end Table

/-! ## Items -/

/-- Every pointer with the bytes from its address up to the end that is next in the list. -/
def cut (payload : Bytes) : List Pointer → (ends : List Nat) → List (Pointer × Bytes)
  | [], _ => []
  | pointer :: rest, ends =>
      if pointer.immediate then
        (pointer, []) :: cut payload rest ends
      else
        (pointer, (payload.drop pointer.value).take (ends.headD 0 - pointer.value)) ::
          cut payload rest (ends.drop 1)

theorem map_fst_cut (payload : Bytes) (table : List Pointer) (ends : List Nat) :
    (cut payload table ends).map Prod.fst = table := by
  induction table generalizing ends with
  | nil => rfl
  | cons pointer rest inductionHypothesis =>
      rw [cut]
      split
      · rw [List.map_cons, inductionHypothesis]
      · rw [List.map_cons, inductionHypothesis]

theorem take_drop_of_mem_cut
    {payload : Bytes} {table : List Pointer} {ends : List Nat} {entry : Pointer × Bytes}
    (member : entry ∈ cut payload table ends) (direct : entry.1.immediate = false) :
    (payload.drop entry.1.value).take entry.2.length = entry.2 := by
  induction table generalizing ends with
  | nil => cases member
  | cons pointer rest inductionHypothesis =>
      rw [cut] at member
      split at member
      · next immediate =>
          rcases List.mem_cons.1 member with rfl | later
          · rw [immediate] at direct
            cases direct
          · exact inductionHypothesis later
      · rcases List.mem_cons.1 member with rfl | later
        · rw [List.length_take, ← List.take_eq_take_min]
        · exact inductionHypothesis later

/-- What is cut out reaches to the end of its slice. -/
theorem map_stopOf_cut
    {payload : Bytes} {table : List Pointer} {ends : List Nat}
    (sliced : List.Forall₂ (Slices payload.length)
      ((table.filter fun pointer => !pointer.immediate).map Pointer.value) ends) :
    (Heap.addressed (cut payload table ends)).map Heap.stopOf = ends := by
  induction table generalizing ends with
  | nil =>
      cases sliced
      rfl
  | cons pointer rest inductionHypothesis =>
      by_cases immediate : pointer.immediate = true
      · rw [List.filter_cons_of_neg (by simp [immediate])] at sliced
        rw [cut, if_pos immediate, Heap.addressed, List.filter_cons_of_neg (by simp [immediate])]
        exact inductionHypothesis sliced
      · rw [List.filter_cons_of_pos (by simp [immediate]), List.map_cons,
          List.forall₂_cons_left_iff] at sliced
        obtain ⟨stop, later, ⟨order, within⟩, others, rfl⟩ := sliced
        have reach : pointer.value + min (stop - pointer.value) (payload.length - pointer.value) =
            stop := by
          omega
        rw [cut, if_neg immediate, Heap.addressed, List.filter_cons_of_pos (by simp [immediate]),
          List.map_cons, List.headD_cons, List.drop_one, List.tail_cons, Heap.stopOf,
          List.length_take, List.length_drop, reach, List.cons.injEq]
        exact ⟨rfl, inductionHypothesis others⟩

/-- What the pointers of a table are given of a payload. -/
structure Shares (payload : Bytes) (table : List Pointer) (entries : List (Pointer × Bytes)) :
    Prop where
  pointers : entries.map Prod.fst = table
  bytes : ∀ entry ∈ entries, entry.1.immediate = false →
    (payload.drop entry.1.value).take entry.2.length = entry.2
  tiles : Tiles payload.length
    ((Heap.addressed entries).map fun entry => (entry.1.value, Heap.stopOf entry))

theorem shares_cut
    {payload : Bytes} {table : List Pointer}
    (inside : ∀ pointer ∈ table, pointer.immediate = false → pointer.value ≤ payload.length) :
    Shares payload table (cut payload table (ends table payload.length)) := by
  constructor
  case pointers => exact map_fst_cut payload table _
  case bytes => exact fun entry member direct => take_drop_of_mem_cut member direct
  case tiles =>
    have starts :
        (Heap.addressed (cut payload table (ends table payload.length))).map
            (fun entry => entry.1.value) =
          (table.filter fun pointer => !pointer.immediate).map Pointer.value := by
      rw [← Heap.map_fst_filter, map_fst_cut]
    rw [← List.zip_map', starts, map_stopOf_cut (slices_ends table inside)]
    exact tiles_slices inside

section Resolve

variable {heapCount : Nat} {flavour : Flavour} {words : List UInt64} {payload : Bytes}

/-- The first pointer outside of the payload is the one that is reported. -/
theorem resolve_eq_error_iff {cause : ReassemblyError} :
    resolve heapCount flavour words payload = .error cause ↔
      ∃ front pointer back, words.map flavour.decodePointer = front ++ pointer :: back ∧
        (∀ earlier ∈ front, ¬ earlier.Outside payload.length) ∧ pointer.Outside payload.length ∧
        cause = .invalidItemPointer heapCount pointer.id pointer.value payload.length := by
  have located (pointer : Pointer) :
      (words.map flavour.decodePointer).find? (fun pointer =>
          !pointer.immediate && decide (payload.length < pointer.value)) = some pointer ↔
        ∃ front back, words.map flavour.decodePointer = front ++ pointer :: back ∧
          (∀ earlier ∈ front, ¬ earlier.Outside payload.length) ∧
          pointer.Outside payload.length := by
    simp only [List.find?_eq_some_iff_append, Bool.not_eq_eq_eq_not, Bool.not_true,
      ← Bool.not_eq_true, Pointer.outside_iff]
    constructor
    · rintro ⟨outside, front, back, split, earlier⟩
      exact ⟨front, back, split, earlier, outside⟩
    · rintro ⟨front, back, split, earlier, outside⟩
      exact ⟨outside, front, back, split, earlier⟩
  unfold resolve
  dsimp only
  split
  · next pointer found =>
      constructor
      · intro failed
        cases failed
        obtain ⟨front, back, split, earlier, outside⟩ := (located pointer).1 found
        exact ⟨front, pointer, back, split, earlier, outside, rfl⟩
      · rintro ⟨front, other, back, split, earlier, outside, rfl⟩
        rw [(located other).2 ⟨front, back, split, earlier, outside⟩] at found
        cases found
        rfl
  · next absent =>
      constructor
      · intro failed
        cases failed
      · rintro ⟨front, other, back, split, earlier, outside, _⟩
        rw [(located other).2 ⟨front, back, split, earlier, outside⟩] at absent
        cases absent

theorem resolve_eq_ok
    {found : List ReceivedItem} (resolved : resolve heapCount flavour words payload = .ok found) :
    ∃ entries, Shares payload (words.map flavour.decodePointer) entries ∧
      found =
        (entries.map (Heap.receivedItem flavour)).filter fun item => item.id ≠ ItemId.null := by
  unfold resolve at resolved
  dsimp only at resolved
  split at resolved
  · cases resolved
  · next absent =>
      cases resolved
      rw [List.find?_eq_none] at absent
      have inside : ∀ pointer ∈ words.map flavour.decodePointer, pointer.immediate = false →
          pointer.value ≤ payload.length := by
        intro pointer member direct
        simpa [direct] using absent pointer member
      have shares := shares_cut inside
      refine ⟨_, shares, ?_⟩
      have extracted : ∀ entry ∈ cut payload (words.map flavour.decodePointer)
            (ends (words.map flavour.decodePointer) payload.length), entry.1.immediate = false →
          (payload.toArray.extract entry.1.value (Heap.stopOf entry)).toList = entry.2 := by
        intro entry member direct
        have bytes := shares.bytes entry member direct
        simpa [Heap.stopOf] using bytes
      have whole := items_eq flavour payload.toArray _ [] extracted
      rw [map_fst_cut, map_stopOf_cut (slices_ends _ inside)] at whole
      rw [whole]
      rfl

theorem Shares.not_outside
    {table : List Pointer} {entries : List (Pointer × Bytes)}
    (shares : Shares payload table entries) :
    ∀ pointer ∈ table, ¬ pointer.Outside payload.length := by
  intro pointer member outside
  rw [← shares.pointers, List.mem_map] at member
  obtain ⟨entry, ofEntries, rfl⟩ := member
  have addressed : entry ∈ Heap.addressed entries :=
    List.mem_filter.2 ⟨ofEntries, by simp [outside.1]⟩
  have slice := shares.tiles.inside _ (List.mem_map_of_mem addressed)
  exact Nat.not_le_of_lt outside.2 (Nat.le_trans slice.1 slice.2)

/-- An item of an address has the bytes there, any other one those of a value field. -/
theorem sum_length_receivedItem (flavour : Flavour) (entries : List (Pointer × Bytes)) :
    (entries.map fun entry => (Heap.receivedItem flavour entry).data.length).sum =
      ((Heap.addressed entries).map fun entry => entry.2.length).sum +
        (entries.filter fun entry => entry.1.immediate).length * flavour.addressBytes := by
  induction entries with
  | nil => simp [Heap.addressed]
  | cons entry rest inductionHypothesis =>
      rw [List.map_cons, List.sum_cons, inductionHypothesis]
      cases immediate : entry.1.immediate with
      | true =>
          simp [Heap.addressed, Heap.receivedItem, Flavour.immediateBytes, immediate]
          ring
      | false =>
          simp [Heap.addressed, Heap.receivedItem, immediate]
          ring

/-- The items of a table have no more bytes than the payload and the value fields of the
pointers. -/
theorem sum_length_data_le
    {found : List ReceivedItem} (resolved : resolve heapCount flavour words payload = .ok found) :
    (found.map fun item => item.data.length).sum ≤
      payload.length + words.length * flavour.addressBytes := by
  obtain ⟨entries, shares, rfl⟩ := resolve_eq_ok resolved
  have addressed :
      ((Heap.addressed entries).map fun entry => entry.2.length).sum ≤ payload.length := by
    have lengths := sum_lengths_le shares.tiles.inside shares.tiles.apart
    rw [List.map_map] at lengths
    convert lengths using 4
    exact (Nat.add_sub_cancel_left _ _).symm
  have total : entries.length = words.length := by
    rw [← List.length_map Prod.fst, shares.pointers, List.length_map]
  have counted : (entries.filter fun entry => entry.1.immediate).length ≤ words.length := by
    rw [← total]
    exact List.length_filter_le _ _
  have fields := Nat.mul_le_mul_right flavour.addressBytes counted
  have kept : ((entries.map (Heap.receivedItem flavour)).filter
      fun item => item.id ≠ ItemId.null).Sublist (entries.map (Heap.receivedItem flavour)) :=
    List.filter_sublist
  calc (((entries.map (Heap.receivedItem flavour)).filter
          fun item => item.id ≠ ItemId.null).map fun item => item.data.length).sum
      ≤ ((entries.map (Heap.receivedItem flavour)).map fun item => item.data.length).sum :=
        (kept.map _).sum_le_sum fun _ _ => Nat.zero_le _
    _ = (entries.map fun entry => (Heap.receivedItem flavour entry).data.length).sum := by
        rw [List.map_map]
        rfl
    _ ≤ payload.length + words.length * flavour.addressBytes := by
        rw [sum_length_receivedItem]
        exact Nat.add_le_add addressed fields

/-- The field of a pointer has as many bytes as the value needs. -/
theorem value_receivedItem
    {entry : Pointer × Bytes} (decoded : entry.1 ∈ words.map flavour.decodePointer)
    (immediate : entry.1.immediate = true) :
    (Heap.receivedItem flavour entry).value = entry.1.value := by
  obtain ⟨word, _, same⟩ := List.mem_map.1 decoded
  have fits := (Pointer.fits_ofWord flavour.addressBits_lt word).value_lt
  rw [← flavour.pow_addressBytes] at fits
  rw [Heap.receivedItem, if_pos immediate, ← same]
  exact Bytes.toNat_bigEndian_of_lt fits

/-- A table is refused exactly if one of its pointers, a null pointer too, has an address behind the
end of the payload, and the first such pointer is reported. Otherwise there is an item for every
pointer but the null ones, in table order. An item of an immediate has the value of its pointer;
the pointers with addresses, null ones among them, tile the payload from the first address to its
end. -/
theorem resolve_tiles
    (heapCount : Nat) (flavour : Flavour) (words : List UInt64) (payload : Bytes) :
    let table := words.map flavour.decodePointer
    let resolved := resolve heapCount flavour words payload
    ((∃ cause, resolved = .error cause) ↔
      ∃ pointer ∈ table, pointer.Outside payload.length) ∧
    (∀ cause, resolved = .error cause →
      ∃ front pointer back, table = front ++ pointer :: back ∧
        (∀ earlier ∈ front, ¬ earlier.Outside payload.length) ∧ pointer.Outside payload.length ∧
        cause = .invalidItemPointer heapCount pointer.id pointer.value payload.length) ∧
    ∀ found, resolved = .ok found →
      ∃ entries, Shares payload table entries ∧
        found = (entries.map (Heap.receivedItem flavour)).filter
          (fun item => item.id ≠ ItemId.null) ∧
        ∀ entry ∈ entries, entry.1.immediate = true →
          (Heap.receivedItem flavour entry).value = entry.1.value := by
  intro table resolved
  refine ⟨⟨?_, ?_⟩, fun cause failed => resolve_eq_error_iff.1 failed, ?_⟩
  · intro failed
    obtain ⟨cause, failed⟩ := failed
    obtain ⟨front, pointer, back, split, _, outside, _⟩ := resolve_eq_error_iff.1 failed
    refine ⟨pointer, ?_, outside⟩
    rw [show table = front ++ pointer :: back from split]
    simp
  · intro failing
    obtain ⟨pointer, member, outside⟩ := failing
    cases result : resolved with
    | error cause => exact ⟨cause, rfl⟩
    | ok found =>
        obtain ⟨entries, shares, _⟩ := resolve_eq_ok result
        exact absurd outside (shares.not_outside pointer member)
  · intro found succeeded
    obtain ⟨entries, shares, same⟩ := resolve_eq_ok succeeded
    refine ⟨entries, shares, same, ?_⟩
    intro entry member immediate
    have decoded : entry.1 ∈ words.map flavour.decodePointer := by
      rw [← shares.pointers]
      exact List.mem_map_of_mem member
    exact value_receivedItem decoded immediate

/-- Addresses out of order, two of them equal, and a null pointer that delimits. -/
example :
    resolve 9 .standard
        [0x0010020000000005, 0x0010000000000000, 0x0010010000000003, 0x0010030000000005, 7]
        [97, 98, 99, 100, 101, 102, 103, 104] =
      .ok [⟨0x1002, false, []⟩, ⟨0x1000, false, [97, 98, 99]⟩, ⟨0x1001, false, [100, 101]⟩,
        ⟨0x1003, false, [102, 103]⟩] := by
  cbv

end Resolve

end PointerTable
end Spead
