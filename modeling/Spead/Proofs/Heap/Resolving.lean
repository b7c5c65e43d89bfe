import Mathlib.Data.List.Forall2
import Mathlib.Data.List.Nodup
import Spead.Heap.Received
import Spead.Proofs.Heap.Layout

/-!
Layouts resolved into the items they were made of.

The items of a layout lie one behind the other, so each address is where the bytes before it end:
the receiver finds for every item the bytes that were placed for it.
-/

namespace Spead
namespace Heap

/-- What a receiver makes of a placed item. -/
def receivedItem (flavour : Flavour) (entry : Pointer × Bytes) : ReceivedItem :=
  if entry.1.immediate then
    ⟨entry.1.id, true, flavour.immediateBytes entry.1.value⟩
  else
    ⟨entry.1.id, false, entry.2⟩

def addressed (entries : List (Pointer × Bytes)) : List (Pointer × Bytes) :=
  entries.filter fun entry => !entry.1.immediate

def stopOf (entry : Pointer × Bytes) : Nat :=
  entry.1.value + entry.2.length

theorem place_immediate
    {flavour : Flavour} {address : Nat} {item : HeapItem}
    (immediate : (place flavour address item).1.immediate = true) :
    (place flavour address item).2 = [] := by
  unfold place at immediate ⊢
  split
  · rfl
  · next data allowImmediate content =>
      simp only [content] at immediate ⊢
      split
      · rfl
      · next long =>
          rw [if_neg long] at immediate
          cases immediate

theorem place_address
    {flavour : Flavour} {address : Nat} {item : HeapItem}
    (direct : (place flavour address item).1.immediate = false) :
    (place flavour address item).1.value = address := by
  unfold place at direct ⊢
  split
  · next value content =>
      simp only [content] at direct
      cases direct
  · next data allowImmediate content =>
      simp only [content] at direct ⊢
      split
      · next short =>
          rw [if_pos short] at direct
          cases direct
      · rfl

/-! ## Where items begin and end -/

section Placed

variable (flavour : Flavour)

/-- The addresses with the end of the payload are the first address with the ends of all items. -/
theorem addresses_eq_stops (address : Nat) (items : List HeapItem) :
    (addressed (placeAll flavour address items)).map (fun entry => entry.1.value) ++
        [address + ((placeAll flavour address items).flatMap Prod.snd).length] =
      address :: (addressed (placeAll flavour address items)).map stopOf := by
  induction items generalizing address with
  | nil => simp [placeAll, addressed]
  | cons item rest inductionHypothesis =>
      have others :=
        inductionHypothesis (address + (place flavour address item).2.length)
      simp only [placeAll, List.flatMap_cons, List.length_append, ← Nat.add_assoc]
      cases direct : (place flavour address item).1.immediate with
      | true =>
          have none := place_immediate direct
          rw [none, List.length_nil, Nat.add_zero] at others ⊢
          simpa [addressed, direct] using others
      | false =>
          have start := place_address direct
          simp only [addressed, List.filter_cons, direct, Bool.not_false, if_true, List.map_cons,
            List.cons_append, start, stopOf]
          rw [List.cons_inj_right]
          exact others

theorem stop_le
    (address : Nat) (items : List HeapItem) :
    ∀ entry ∈ placeAll flavour address items, entry.1.immediate = false →
      address ≤ entry.1.value ∧
        stopOf entry ≤ address + ((placeAll flavour address items).flatMap Prod.snd).length := by
  induction items generalizing address with
  | nil => simp [placeAll]
  | cons item rest inductionHypothesis =>
      intro entry member direct
      simp only [placeAll, List.flatMap_cons, List.length_append]
      rcases List.mem_cons.1 member with rfl | later
      · have start := place_address direct
        simp only [stopOf, start]
        omega
      · have bounds := inductionHypothesis _ entry later direct
        omega

theorem addresses_ascend (address : Nat) (items : List HeapItem) :
    (addressed (placeAll flavour address items)).Pairwise fun left right =>
      left.1.value ≤ right.1.value := by
  induction items generalizing address with
  | nil => exact List.Pairwise.nil
  | cons item rest inductionHypothesis =>
      have others :=
        inductionHypothesis (address + (place flavour address item).2.length)
      cases direct : (place flavour address item).1.immediate with
      | true =>
          simpa [placeAll, addressed, direct] using others
      | false =>
          simp only [placeAll, addressed, List.filter_cons, direct, Bool.not_false, if_true]
          refine List.pairwise_cons.2 ⟨?_, others⟩
          intro entry member
          rw [List.mem_filter, Bool.not_eq_true'] at member
          have behind := (stop_le flavour _ rest entry member.1 member.2).1
          rw [place_address direct]
          omega

theorem extract_placed
    (items : List HeapItem) (front : Bytes) :
    ∀ entry ∈ placeAll flavour front.length items, entry.1.immediate = false →
      ((front ++ (placeAll flavour front.length items).flatMap Prod.snd).toArray.extract
        entry.1.value (stopOf entry)).toList = entry.2 := by
  induction items generalizing front with
  | nil => simp [placeAll]
  | cons item rest inductionHypothesis =>
      intro entry member direct
      simp only [placeAll, List.flatMap_cons]
      rcases List.mem_cons.1 member with rfl | later
      · have start := place_address direct
        simp [stopOf, start]
      · have longer :
            front.length + (place flavour front.length item).2.length =
              (front ++ (place flavour front.length item).2).length := by simp
        rw [longer] at later ⊢
        rw [← List.append_assoc]
        exact inductionHypothesis _ entry later direct

end Placed

end Heap

/-! ## The ends of a table -/

namespace PointerTable

/-- The addresses of a table come in the order of its pointers. -/
theorem places_ascend (table : List Pointer) :
    (addresses table).Pairwise fun left right => left.2 < right.2 := by
  have ordered : (table.zipIdx).Pairwise fun left right => left.2 < right.2 := by
    rw [List.pairwise_iff_getElem]
    intro left right _ _ before
    simp only [List.getElem_zipIdx]
    omega
  refine List.Pairwise.filterMap _ ?_ ordered
  rintro ⟨leftPointer, leftPlace⟩ ⟨rightPointer, rightPlace⟩ before left leftFound right rightFound
  simp only [Option.ite_none_left_eq_some, Option.some.injEq] at leftFound rightFound
  obtain ⟨_, rfl⟩ := leftFound
  obtain ⟨_, rfl⟩ := rightFound
  exact before

theorem map_fst_addresses (table : List Pointer) :
    (addresses table).map Prod.fst =
      (table.filter fun pointer => !pointer.immediate).map Pointer.value := by
  unfold addresses
  generalize 0 = start
  induction table generalizing start with
  | nil => rfl
  | cons pointer rest inductionHypothesis =>
      have others := inductionHypothesis (start + 1)
      cases direct : pointer.immediate with
      | true => simpa [direct] using others
      | false => simpa [direct] using others

/-- No two addresses have the same place. -/
theorem nodup_places (table : List Pointer) : ((addresses table).map Prod.snd).Nodup :=
  (List.pairwise_map.2 (places_ascend table)).imp Nat.ne_of_lt

theorem le_of_mem_addresses
    {table : List Pointer} {bound : Nat}
    (inside : ∀ pointer ∈ table, pointer.immediate = false → pointer.value ≤ bound)
    {entry : Nat × Nat} (member : entry ∈ addresses table) : entry.1 ≤ bound := by
  have ofTable := List.mem_map_of_mem (f := Prod.fst) member
  rw [map_fst_addresses] at ofTable
  obtain ⟨pointer, found, same⟩ := List.mem_map.1 ofTable
  rw [List.mem_filter, Bool.not_eq_true'] at found
  rw [← same]
  exact inside pointer found.1 found.2

/-- Items that lie in the order of the table end where the next one begins. -/
theorem ends_eq
    {table : List Pointer} (payloadLength : Nat)
    (ascending : ((table.filter fun pointer => !pointer.immediate).map Pointer.value).Pairwise
      (· ≤ ·)) :
    ends table payloadLength =
      ((table.filter fun pointer => !pointer.immediate).map Pointer.value ++
        [payloadLength]).drop 1 := by
  rw [← map_fst_addresses] at ascending ⊢
  have sorted :
      (addresses table).mergeSort (fun left right => left.1 ≤ right.1) = addresses table := by
    apply List.mergeSort_of_pairwise
    simpa using List.pairwise_map.1 ascending
  have places := (places_ascend table).imp Nat.le_of_lt
  unfold ends
  rw [sorted]
  generalize addresses table = found at places
  have length : found.length ≤ ((found.drop 1).map Prod.fst ++ [payloadLength]).length := by
    simp only [List.length_append, List.length_map, List.length_drop, List.length_singleton]
    omega
  dsimp only
  rw [List.mergeSort_of_pairwise, List.map_map]
  · cases found with
    | nil => rfl
    | cons first rest =>
        have bound : (rest.map Prod.fst ++ [payloadLength]).length ≤ (first :: rest).length := by
          simp
        exact List.map_snd_zip bound
  · rw [List.pairwise_map]
    rw [← List.map_fst_zip length, List.pairwise_map] at places
    simpa using places

/-! ## Slices -/

/-- A slice starts before its end and ends within the payload. -/
def Slices (payloadLength start stop : Nat) : Prop :=
  start ≤ stop ∧ stop ≤ payloadLength

section Keys

variable {entry : Type} (key : entry → Nat)

theorem keys_trans (first second third : entry)
    (before : decide (key first ≤ key second) = true)
    (behind : decide (key second ≤ key third) = true) : decide (key first ≤ key third) = true :=
  decide_eq_true (le_trans (of_decide_eq_true before) (of_decide_eq_true behind))

theorem keys_total (first second : entry) :
    (decide (key first ≤ key second) || decide (key second ≤ key first)) = true := by
  rw [Bool.or_eq_true, decide_eq_true_eq, decide_eq_true_eq]
  exact le_total _ _

theorem pairwise_mergeSort_of_key (entries : List entry) :
    (entries.mergeSort fun left right => key left ≤ key right).Pairwise fun left right =>
      key left ≤ key right :=
  (List.pairwise_mergeSort (keys_trans key) (keys_total key) entries).imp of_decide_eq_true

/-- Entries with equal keys keep their order. -/
theorem sublist_mergeSort_of_key_eq
    {entries : List entry} {left right : entry} (order : [left, right].Sublist entries)
    (equal : key left = key right) :
    [left, right].Sublist (entries.mergeSort fun left right => key left ≤ key right) :=
  List.pair_sublist_mergeSort (keys_trans key) (keys_total key)
    (decide_eq_true (Nat.le_of_eq equal)) order

end Keys

/-- Every address with the next one behind it; the last one has the end of the payload. -/
def pairNext (payloadLength : Nat) (sorted : List (Nat × Nat)) : List ((Nat × Nat) × Nat) :=
  sorted.zip ((sorted.drop 1).map Prod.fst ++ [payloadLength])

theorem pairNext_cons_cons (payloadLength : Nat) (head next : Nat × Nat) (rest : List (Nat × Nat)) :
    pairNext payloadLength (head :: next :: rest) =
      (head, next.1) :: pairNext payloadLength (next :: rest) :=
  rfl

theorem map_fst_pairNext (payloadLength : Nat) (sorted : List (Nat × Nat)) :
    (pairNext payloadLength sorted).map Prod.fst = sorted := by
  apply List.map_fst_zip
  simp only [List.length_append, List.length_map, List.length_drop, List.length_singleton]
  omega

/-- In ascending order, every address is followed by the next one or by the end of the payload. -/
theorem slices_pairNext
    {sorted : List (Nat × Nat)} {payloadLength : Nat}
    (ascending : sorted.Pairwise fun left right => left.1 ≤ right.1)
    (inside : ∀ entry ∈ sorted, entry.1 ≤ payloadLength) :
    ∀ slice ∈ pairNext payloadLength sorted, Slices payloadLength slice.1.1 slice.2 := by
  induction sorted with
  | nil => simp [pairNext]
  | cons head tail inductionHypothesis =>
      rw [List.pairwise_cons] at ascending
      rw [List.forall_mem_cons] at inside
      cases tail with
      | nil => simpa [pairNext, Slices] using inside.1
      | cons next rest =>
          rw [pairNext_cons_cons, List.forall_mem_cons]
          refine ⟨⟨ascending.1 next List.mem_cons_self, ?_⟩,
            inductionHypothesis ascending.2 inside.2⟩
          exact inside.2 next List.mem_cons_self

/-- The addresses of a table in ascending order, equal ones as they are in the table. -/
def sortedAddresses (table : List Pointer) : List (Nat × Nat) :=
  (addresses table).mergeSort fun left right => left.1 ≤ right.1

theorem sortedAddresses_ascend (table : List Pointer) :
    (sortedAddresses table).Pairwise fun left right => left.1 ≤ right.1 :=
  pairwise_mergeSort_of_key Prod.fst (addresses table)

theorem length_ends_and_perm (table : List Pointer) (payloadLength : Nat) :
    (ends table payloadLength).length = (addresses table).length ∧
      ((addresses table).zip (ends table payloadLength)).Perm
        (pairNext payloadLength (sortedAddresses table)) := by
  let paired := pairNext payloadLength (sortedAddresses table)
  let placed := paired.mergeSort fun left right => left.1.2 ≤ right.1.2
  have placedPerm : placed.Perm paired := List.mergeSort_perm _ _
  have stops : ends table payloadLength = placed.map Prod.snd := by
    change ((paired.map fun entry => (entry.1.2, entry.2)).mergeSort _).map Prod.snd = _
    rw [← List.map_mergeSort (r := fun left right => left.1.2 ≤ right.1.2) (by simp), List.map_map]
    rfl
  have starts : placed.map Prod.fst = addresses table := by
    have perm : (placed.map Prod.fst).Perm (addresses table) := by
      have ofPaired := placedPerm.map Prod.fst
      rw [map_fst_pairNext] at ofPaired
      exact ofPaired.trans (List.mergeSort_perm _ _)
    -- No two addresses have the same place, so there is one order by places only.
    refine List.Perm.eq_of_pairwise ?_ ?_ ((places_ascend table).imp Nat.le_of_lt) perm
    · intro left right leftMember rightMember before behind
      exact List.inj_on_of_nodup_map (nodup_places table) (perm.mem_iff.1 leftMember) rightMember
        (Nat.le_antisymm before behind)
    · rw [List.pairwise_map]
      exact pairwise_mergeSort_of_key (fun entry => entry.1.2) paired
  constructor
  · rw [stops, ← starts, List.length_map, List.length_map]
  · rw [stops, ← starts, ← List.unzip_fst, ← List.unzip_snd, List.zip_unzip]
    exact placedPerm

theorem length_ends (table : List Pointer) (payloadLength : Nat) :
    (ends table payloadLength).length = (addresses table).length :=
  (length_ends_and_perm table payloadLength).1

/-- In table order the addresses have the ends that they have in ascending order. -/
theorem zip_ends_perm (table : List Pointer) (payloadLength : Nat) :
    ((addresses table).zip (ends table payloadLength)).Perm
      (pairNext payloadLength (sortedAddresses table)) :=
  (length_ends_and_perm table payloadLength).2

/-- Every slice that is taken for an item starts before its end and ends within the payload. -/
theorem slices_ends
    (table : List Pointer) {payloadLength : Nat}
    (inside : ∀ pointer ∈ table, pointer.immediate = false → pointer.value ≤ payloadLength) :
    List.Forall₂ (Slices payloadLength)
      ((table.filter fun pointer => !pointer.immediate).map Pointer.value)
      (ends table payloadLength) := by
  have within : ∀ entry ∈ sortedAddresses table, entry.1 ≤ payloadLength := by
    intro entry member
    rw [sortedAddresses, List.mem_mergeSort] at member
    exact le_of_mem_addresses inside member
  have slices := slices_pairNext (sortedAddresses_ascend table) within
  rw [← map_fst_addresses, List.forall₂_map_left_iff, List.forall₂_iff_zip]
  refine ⟨(length_ends table payloadLength).symm, ?_⟩
  intro entry stop member
  exact slices (entry, stop) ((zip_ends_perm table payloadLength).mem_iff.1 member)

/-! ## Items -/

/-- Items are found one by one, as long as the ends tell where the bytes of each of them stop. -/
theorem items_eq
    (flavour : Flavour) (payload : Array UInt8) (entries : List (Pointer × Bytes))
    (found : List ReceivedItem)
    (extracted : ∀ entry ∈ entries, entry.1.immediate = false →
      (payload.extract entry.1.value (Heap.stopOf entry)).toList = entry.2) :
    items flavour payload (entries.map Prod.fst) ((Heap.addressed entries).map Heap.stopOf) found =
      found.reverse ++ entries.map (Heap.receivedItem flavour) := by
  induction entries generalizing found with
  | nil => simp [items]
  | cons entry rest inductionHypothesis =>
      have others (found : List ReceivedItem) :=
        inductionHypothesis found fun later member =>
          extracted later (List.mem_cons_of_mem entry member)
      cases direct : entry.1.immediate with
      | true =>
          have same :
              Heap.receivedItem flavour entry =
                ⟨entry.1.id, true, flavour.immediateBytes entry.1.value⟩ := by
            rw [Heap.receivedItem, if_pos direct]
          simp only [Heap.addressed] at others
          simp [items, Heap.addressed, direct, others, same]
      | false =>
          have same : Heap.receivedItem flavour entry = ⟨entry.1.id, false, entry.2⟩ := by
            simp [Heap.receivedItem, direct]
          have bytes := extracted entry List.mem_cons_self direct
          simp only [Heap.addressed] at others
          simp only [List.map_cons, items, direct, Bool.false_eq_true, if_false, Heap.addressed,
            List.filter_cons, Bool.not_false, if_true, List.headD_cons, List.drop_one,
            List.tail_cons, bytes]
          rw [others, same]
          simp

end PointerTable

namespace Heap

/-- What a receiver makes of an item, wherever the item is placed. -/
def arrival (flavour : Flavour) (item : HeapItem) : ReceivedItem :=
  match item.content with
  | .inline value => ⟨item.id, true, flavour.immediateBytes value⟩
  | .bytes data allowImmediate =>
      if allowImmediate && flavour.fitsImmediate data.length then
        ⟨item.id, true, flavour.immediateBytes (Bytes.toNat data)⟩
      else
        ⟨item.id, false, data⟩

theorem id_arrival (flavour : Flavour) (item : HeapItem) : (arrival flavour item).id = item.id := by
  unfold arrival
  split
  · rfl
  · split <;> rfl

theorem immediate_arrival_bytes
    (flavour : Flavour) (id : Nat) (data : Bytes) (allowImmediate : Bool) :
    (arrival flavour ⟨id, .bytes data allowImmediate⟩).immediate =
      (allowImmediate && flavour.fitsImmediate data.length) := by
  unfold arrival
  dsimp only
  split
  · next short => exact short.symm
  · next long => exact (Bool.eq_false_of_not_eq_true long).symm

theorem receivedItem_place (flavour : Flavour) (address : Nat) (item : HeapItem) :
    receivedItem flavour (place flavour address item) = arrival flavour item := by
  unfold place arrival
  cases content : item.content with
  | inline value => rfl
  | bytes data allowImmediate =>
      dsimp only
      split
      · rfl
      · rfl

theorem map_receivedItem_placeAll (flavour : Flavour) (address : Nat) (items : List HeapItem) :
    (placeAll flavour address items).map (receivedItem flavour) =
      items.map (arrival flavour) := by
  induction items generalizing address with
  | nil => rfl
  | cons item rest inductionHypothesis =>
      simp only [placeAll, List.map_cons]
      rw [receivedItem_place, inductionHypothesis]

/-- The items that a receiver finds in a heap that was laid out: all but those with the null id. -/
def receivedItems (heap : Heap) : List ReceivedItem :=
  (heap.items.map (arrival heap.flavour)).filter fun item => item.id ≠ ItemId.null

theorem map_fst_filter (entries : List (Pointer × Bytes)) :
    ((entries.map Prod.fst).filter fun pointer => !pointer.immediate).map Pointer.value =
      (addressed entries).map fun entry => entry.1.value := by
  rw [addressed, List.filter_map, List.map_map]
  rfl

section LaidOut

variable {heap : Heap} {pointers : List UInt64} {payload : Bytes}

/-- A layout is resolved into the items that were placed in it. -/
theorem LaidOut.items (laidOut : heap.LaidOut pointers payload) (count : Nat) :
    PointerTable.resolve count heap.flavour pointers payload = .ok heap.receivedItems := by
  have stops := addresses_eq_stops heap.flavour 0 heap.items
  rw [Nat.zero_add, ← placed] at stops
  have inside :
      (heap.placed.map Prod.fst).find? (fun pointer =>
        !pointer.immediate && decide (payload.length < pointer.value)) = none := by
    rw [List.find?_eq_none]
    intro pointer member
    obtain ⟨entry, ofHeap, rfl⟩ := List.mem_map.1 member
    cases direct : entry.1.immediate with
    | true => simp
    | false =>
        have bound := (stop_le heap.flavour 0 heap.items entry ofHeap direct).2
        rw [Nat.zero_add, ← placed, ← laidOut.payload, stopOf] at bound
        simp only [Bool.not_false, Bool.true_and, decide_eq_true_eq, Nat.not_lt]
        omega
  have ends :
      PointerTable.ends (heap.placed.map Prod.fst) payload.length =
        (addressed heap.placed).map stopOf := by
    rw [PointerTable.ends_eq, map_fst_filter, laidOut.payload]
    · rw [stops]
      rfl
    · rw [map_fst_filter, List.pairwise_map]
      exact addresses_ascend heap.flavour 0 heap.items
  have extracted := extract_placed heap.flavour heap.items []
  rw [List.nil_append, List.length_nil, ← placed, ← laidOut.payload] at extracted
  have items := PointerTable.items_eq heap.flavour payload.toArray heap.placed [] extracted
  rw [List.reverse_nil, List.nil_append, placed, map_receivedItem_placeAll, ← placed] at items
  unfold PointerTable.resolve
  simp only [laidOut.decode, inside, ends, items]
  rfl

theorem LaidOut.resolve (laidOut : heap.LaidOut pointers payload) :
    ReceivedHeap.resolve heap.count heap.flavour pointers payload =
      .ok ⟨heap.count, heap.flavour, heap.receivedItems⟩ := by
  unfold ReceivedHeap.resolve
  rw [laidOut.items]
  rfl

end LaidOut

/-- What a receiver makes of the heap if its pointers and its payload arrive as they were laid
out. -/
def delivered? (heap : Heap) : Option ReceivedHeap :=
  match heap.layout with
  | .ok (pointers, payload) =>
      (ReceivedHeap.resolve heap.count heap.flavour pointers payload).toOption
  | .error _ => none

theorem delivered?_of_layout
    {heap : Heap} {pointers : List UInt64} {payload : Bytes}
    (layout : heap.layout = .ok (pointers, payload)) :
    heap.delivered? = some ⟨heap.count, heap.flavour, heap.receivedItems⟩ := by
  have resolved := (laidOut_of_layout layout).resolve
  unfold delivered?
  rw [layout]
  dsimp only
  rw [resolved]
  rfl

theorem eq_of_delivered?
    {heap : Heap} {received : ReceivedHeap} (delivered : heap.delivered? = some received) :
    received = ⟨heap.count, heap.flavour, heap.receivedItems⟩ := by
  cases layout : heap.layout with
  | error _ =>
      unfold delivered? at delivered
      rw [layout] at delivered
      cases delivered
  | ok laid =>
      rw [delivered?_of_layout layout, Option.some_inj] at delivered
      exact delivered.symm

end Heap
end Spead
