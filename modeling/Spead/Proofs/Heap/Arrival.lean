import Spead.Proofs.Bytes
import Spead.Proofs.Except
import Spead.Proofs.Heap.Resolving

/-!
Items of a heap as they arrive.

A receiver is not told how long an item is. It finds every item that was sent, empty ones too, with
its own bytes; only those that travelled in their pointers have become as long as the value field.
-/

namespace Spead
namespace Heap

/-- What is found at the other end of an item that was sent. -/
inductive ArrivesAs (flavour : Flavour) : HeapItem → ReceivedItem → Prop
  | inline (id value : Nat) :
      value ≤ flavour.maxAddress →
      ArrivesAs flavour ⟨id, .inline value⟩
        ⟨id, true, Bytes.bigEndian flavour.addressBytes value⟩
  | padded (id : Nat) (data : Bytes) :
      flavour.fitsImmediate data.length = true →
      ArrivesAs flavour ⟨id, .bytes data true⟩
        ⟨id, true, List.replicate (flavour.addressBytes - data.length) 0 ++ data⟩
  | unchanged (id : Nat) (data : Bytes) (allowImmediate : Bool) :
      (allowImmediate && flavour.fitsImmediate data.length) = false →
      ArrivesAs flavour ⟨id, .bytes data allowImmediate⟩ ⟨id, false, data⟩

variable {flavour : Flavour}

theorem arrivesAs_place
    {address : Nat} {item : HeapItem}
    (fits : (place flavour address item).1.value ≤ flavour.maxAddress) :
    ArrivesAs flavour item (receivedItem flavour (place flavour address item)) := by
  rw [receivedItem_place]
  rcases item with ⟨id, content⟩
  cases content with
  | inline value => exact .inline id value fits
  | bytes data allowImmediate =>
      unfold arrival
      dsimp only
      by_cases short : (allowImmediate && flavour.fitsImmediate data.length) = true
      · rw [if_pos short]
        rw [Bool.and_eq_true] at short
        obtain ⟨rfl, fitsField⟩ := short
        rw [Flavour.immediateBytes,
          Bytes.bigEndian_toNat_of_le (Flavour.le_addressBytes_of_fitsImmediate fitsField)]
        exact .padded id data fitsField
      · rw [if_neg short]
        exact .unchanged id data allowImmediate (Bool.eq_false_of_not_eq_true short)

theorem forall₂_arrivesAs
    (address : Nat) (items : List HeapItem)
    (fits : ∀ entry ∈ placeAll flavour address items, entry.1.value ≤ flavour.maxAddress) :
    List.Forall₂ (ArrivesAs flavour) items
      ((placeAll flavour address items).map (receivedItem flavour)) := by
  induction items generalizing address with
  | nil => exact .nil
  | cons item rest inductionHypothesis =>
      rw [placeAll, List.forall_mem_cons] at fits
      exact .cons (arrivesAs_place fits.1) (inductionHypothesis _ fits.2)

theorem ArrivesAs.length_data
    {item : HeapItem} {received : ReceivedItem} (arrives : ArrivesAs flavour item received)
    (immediate : received.immediate = true) :
    received.data.length = flavour.addressBytes := by
  cases arrives with
  | inline id value _ => exact Bytes.length_bigEndian _ _
  | padded id data fits =>
      have := Flavour.le_addressBytes_of_fitsImmediate fits
      rw [List.length_append, List.length_replicate]
      omega
  | unchanged => cases immediate

/-- The pointers and the payload that a heap is laid out as are made into a heap again, whatever its
number. It has one item for each that was sent, in the same order and with the same id, if none of
them has the null id. -/
theorem resolve_layout_arrives
    {heap : Heap} {pointers : List UInt64} {payload : Bytes} (count : Nat)
    (named : ∀ item ∈ heap.items, item.id ≠ ItemId.null)
    (layout : heap.layout = .ok (pointers, payload)) :
    ∃ received, ReceivedHeap.resolve count heap.flavour pointers payload = .ok received ∧
      received.count = count ∧ received.flavour = heap.flavour ∧
      received.items.map ReceivedItem.id = heap.items.map HeapItem.id ∧
      List.Forall₂ (ArrivesAs heap.flavour) heap.items received.items ∧
      ∀ item ∈ received.items, item.immediate = true →
        item.data.length = heap.flavour.addressBytes := by
  have laidOut := laidOut_of_layout layout
  have arrived := forall₂_arrivesAs 0 heap.items fun entry member => (laidOut.fits entry member).2
  rw [map_receivedItem_placeAll] at arrived
  have all : heap.receivedItems = heap.items.map (arrival heap.flavour) := by
    apply List.filter_eq_self.2
    intro received member
    obtain ⟨item, ofHeap, rfl⟩ := List.mem_map.1 member
    rw [id_arrival]
    exact decide_eq_true (named item ofHeap)
  refine ⟨⟨count, heap.flavour, heap.receivedItems⟩, ?_, rfl, rfl, ?_, ?_, ?_⟩
  · unfold ReceivedHeap.resolve
    rw [laidOut.items]
    rfl
  · rw [all, List.map_map]
    exact List.map_congr_left fun item _ => id_arrival heap.flavour item
  · rw [all]
    exact arrived
  · intro item member immediate
    rw [all] at member
    obtain ⟨sent, _, arrives⟩ := exists_of_forall₂_right arrived member
    exact arrives.length_data immediate

/-- Empty items in a row, with one address, and at the end of the payload. -/
def emptyItems : Heap where
  count := 7
  flavour := .standard
  items := [
    ⟨0x1000, .inline 42⟩,
    ⟨0x1001, .bytes [0xab, 0xcd] true⟩,
    ⟨0x1002, .bytes [] false⟩,
    ⟨0x1003, .bytes [] false⟩,
    ⟨0x1004, .bytes [1, 2, 3, 4, 5, 6] true⟩,
    ⟨0x1005, .bytes [] false⟩]

theorem resolve_layout_arrives_emptyItems :
    (∀ item ∈ emptyItems.items, item.id ≠ ItemId.null) ∧
      ∃ pointers, emptyItems.layout = .ok (pointers, [1, 2, 3, 4, 5, 6]) ∧
        ∃ received,
          ReceivedHeap.resolve 7 .standard pointers [1, 2, 3, 4, 5, 6] = .ok received ∧
          List.Forall₂ (ArrivesAs .standard) emptyItems.items received.items := by
  have named : ∀ item ∈ emptyItems.items, item.id ≠ ItemId.null := by decide
  have layout : emptyItems.layout = .ok
      ([0x801000000000002a, 0x801001000000abcd, 0x0010020000000000, 0x0010030000000000,
        0x0010040000000000, 0x0010050000000006], [1, 2, 3, 4, 5, 6]) := by
    decide
  obtain ⟨received, resolved, _, _, _, arrived, _⟩ := resolve_layout_arrives 7 named layout
  exact ⟨named, _, layout, received, resolved, arrived⟩

end Heap
end Spead
