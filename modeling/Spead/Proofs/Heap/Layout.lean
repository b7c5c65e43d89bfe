import Spead.Heap.Layout
import Spead.Proofs.Pointer

/-!
Where the items of a heap are put.

`placeAll` says for every item which pointer it gets and which bytes it adds to the payload; a
layout is made of these pointers and bytes.
-/

namespace Spead
namespace Heap

/-- The pointer of an item behind `address` bytes of payload, and what the item adds to them. -/
def place (flavour : Flavour) (address : Nat) (item : HeapItem) : Pointer × Bytes :=
  match item.content with
  | .inline value => (⟨item.id, true, value⟩, [])
  | .bytes data allowImmediate =>
      if allowImmediate && flavour.fitsImmediate data.length then
        (⟨item.id, true, Bytes.toNat data⟩, [])
      else
        (⟨item.id, false, address⟩, data)

/-- The places of items of which the first comes behind `address` bytes. -/
def placeAll (flavour : Flavour) : (address : Nat) → List HeapItem → List (Pointer × Bytes)
  | _, [] => []
  | address, item :: rest =>
      let placed := place flavour address item
      placed :: placeAll flavour (address + placed.2.length) rest

theorem id_place (flavour : Flavour) (address : Nat) (item : HeapItem) :
    (place flavour address item).1.id = item.id := by
  unfold place
  split
  · rfl
  · split <;> rfl

theorem ids_placeAll (flavour : Flavour) (address : Nat) (items : List HeapItem) :
    (placeAll flavour address items).map (fun placed => placed.1.id) =
      items.map HeapItem.id := by
  induction items generalizing address with
  | nil => rfl
  | cons item rest inductionHypothesis =>
      simp only [placeAll, List.map_cons]
      rw [id_place, inductionHypothesis]

theorem placeAll_append
    (flavour : Flavour) (address : Nat) (before after : List HeapItem) :
    placeAll flavour address (before ++ after) =
      placeAll flavour address before ++
        placeAll flavour
          (address + ((placeAll flavour address before).flatMap Prod.snd).length) after := by
  induction before generalizing address with
  | nil => rfl
  | cons item rest inductionHypothesis =>
      simp only [List.cons_append, placeAll, inductionHypothesis, List.flatMap_cons,
        List.length_append, Nat.add_assoc]

/-- Bytes go into the pointer if they are allowed to and fit. -/
theorem immediate_place_bytes
    (flavour : Flavour) (address id : Nat) (data : Bytes) (allowImmediate : Bool) :
    (place flavour address ⟨id, .bytes data allowImmediate⟩).1.immediate =
      (allowImmediate && flavour.fitsImmediate data.length) := by
  unfold place
  dsimp only
  split
  · next short => exact short.symm
  · next long => exact (Bool.eq_false_of_not_eq_true long).symm

/-! ## Layouts under construction -/

/-- A layout goes on to another by a placed item. -/
structure Extends
    (flavour : Flavour) (before : Layout) (placed : List (Pointer × Bytes))
    (after : Layout) : Prop where
  fits : ∀ entry ∈ placed, entry.1.id ≤ flavour.maxId ∧ entry.1.value ≤ flavour.maxAddress
  pointers : after.pointers.reverse =
    before.pointers.reverse ++ placed.map fun entry => entry.1.toWord flavour.addressBits
  payload : after.pieces.reverse.flatten =
    before.pieces.reverse.flatten ++ placed.flatMap Prod.snd
  payloadLength : after.payloadLength = before.payloadLength + (placed.flatMap Prod.snd).length

theorem extends_addItem
    {flavour : Flavour} {before after : Layout} {item : HeapItem}
    (added : before.addItem flavour item = .ok after) :
    Extends flavour before [place flavour before.payloadLength item] after := by
  have immediate {id value : Nat}
      (encoded : before.addImmediate flavour id value = .ok after) :
      Extends flavour before [(⟨id, true, value⟩, [])] after := by
    unfold Layout.addImmediate at encoded
    cases encoding : flavour.encodeImmediate id value with
    | error cause =>
        rw [encoding] at encoded
        cases encoded
    | ok word =>
        rw [encoding] at encoded
        cases encoded
        obtain ⟨idFits, valueFits, rfl, _⟩ := Flavour.encodePointer_eq_ok encoding
        constructor
        · simpa using ⟨idFits, valueFits⟩
        · simp
        · simp
        · simp
  have piece {id : Nat} {data : Bytes}
      (encoded : before.addPiece flavour id data = .ok after) :
      Extends flavour before [(⟨id, false, before.payloadLength⟩, data)] after := by
    unfold Layout.addPiece at encoded
    cases encoding : flavour.encodeAddress id before.payloadLength with
    | error cause =>
        rw [encoding] at encoded
        cases encoded
    | ok word =>
        rw [encoding] at encoded
        cases encoded
        obtain ⟨idFits, valueFits, rfl, _⟩ := Flavour.encodePointer_eq_ok encoding
        constructor
        · simpa using ⟨idFits, valueFits⟩
        · simp
        · simp
        · simp
  unfold Layout.addItem at added
  unfold place
  cases content : item.content with
  | inline value =>
      simp only [content] at added ⊢
      exact immediate added
  | bytes data allowImmediate =>
      simp only [content] at added ⊢
      split at added
      · next short =>
          rw [if_pos short]
          exact immediate added
      · next long =>
          rw [if_neg long]
          exact piece added

theorem extends_foldlM
    {flavour : Flavour} {before after : Layout} {items : List HeapItem}
    (added : items.foldlM (Layout.addItem flavour) before = .ok after) :
    Extends flavour before (placeAll flavour before.payloadLength items) after := by
  induction items generalizing before with
  | nil =>
      cases added
      exact ⟨by simp [placeAll], by simp [placeAll], by simp [placeAll], by simp [placeAll]⟩
  | cons item rest inductionHypothesis =>
      rw [List.foldlM_cons] at added
      cases first : before.addItem flavour item with
      | error cause =>
          rw [first] at added
          cases added
      | ok middle =>
          rw [first] at added
          have one := extends_addItem first
          have others := inductionHypothesis added
          have length := one.payloadLength
          simp only [List.flatMap_cons, List.flatMap_nil, List.append_nil] at length
          rw [length] at others
          constructor
          · intro entry member
            rcases List.mem_cons.1 member with rfl | later
            · exact one.fits _ List.mem_cons_self
            · exact others.fits entry later
          · rw [others.pointers, one.pointers]
            simp [placeAll]
          · rw [others.payload, one.payload]
            simp [placeAll]
          · rw [others.payloadLength]
            simp only [placeAll, List.flatMap_cons, List.length_append]
            omega

/-! ## Whole layouts -/

def placed (heap : Heap) : List (Pointer × Bytes) :=
  placeAll heap.flavour 0 heap.items

structure LaidOut (heap : Heap) (pointers : List UInt64) (payload : Bytes) : Prop where
  fits : ∀ entry ∈ heap.placed,
    entry.1.id ≤ heap.flavour.maxId ∧ entry.1.value ≤ heap.flavour.maxAddress
  pointers : pointers = heap.placed.map fun entry => entry.1.toWord heap.flavour.addressBits
  payload : payload = heap.placed.flatMap Prod.snd

theorem laidOut_of_layout
    {heap : Heap} {pointers : List UInt64} {payload : Bytes}
    (layout : heap.layout = .ok (pointers, payload)) :
    heap.LaidOut pointers payload := by
  unfold Heap.layout at layout
  cases folded : heap.items.foldlM (Layout.addItem heap.flavour) {} with
  | error cause =>
      rw [folded] at layout
      cases layout
  | ok final =>
      rw [folded] at layout
      cases layout
      have whole := extends_foldlM folded
      refine ⟨whole.fits, ?_, ?_⟩
      · rw [whole.pointers]
        rfl
      · rw [whole.payload]
        rfl

/-- The pointers of a layout are decoded as they were placed. -/
theorem LaidOut.decode
    {heap : Heap} {pointers : List UInt64} {payload : Bytes}
    (laidOut : heap.LaidOut pointers payload) :
    pointers.map heap.flavour.decodePointer = heap.placed.map Prod.fst := by
  rw [laidOut.pointers, List.map_map]
  apply List.map_congr_left
  intro entry member
  obtain ⟨idFits, valueFits⟩ := laidOut.fits entry member
  exact Pointer.ofWord_toWord heap.flavour.addressBits_lt
    ⟨heap.flavour.maxId_lt idFits, heap.flavour.maxAddress_lt valueFits⟩

/-- The ids of the pointers of a layout are those of the items. -/
theorem LaidOut.ids
    {heap : Heap} {pointers : List UInt64} {payload : Bytes}
    (laidOut : heap.LaidOut pointers payload) :
    (pointers.map heap.flavour.decodePointer).map Pointer.id = heap.items.map HeapItem.id := by
  rw [laidOut.decode, List.map_map, ← ids_placeAll heap.flavour 0 heap.items]
  rfl

theorem LaidOut.exists_item
    {heap : Heap} {pointers : List UInt64} {payload : Bytes}
    (laidOut : heap.LaidOut pointers payload) {word : UInt64} (inTable : word ∈ pointers) :
    ∃ item ∈ heap.items, item.id = (heap.flavour.decodePointer word).id := by
  apply List.mem_map.1
  rw [← laidOut.ids]
  exact List.mem_map_of_mem (List.mem_map_of_mem inTable)

/-- No item of the heap has an id that packets use for themselves. -/
def AvoidsPacketItems (heap : Heap) : Prop :=
  ∀ item ∈ heap.items, ¬ (ItemId.heapCount ≤ item.id ∧ item.id ≤ ItemId.payloadLength)

theorem AvoidsPacketItems.isPacketItemId
    {heap : Heap} (avoids : heap.AvoidsPacketItems) {item : HeapItem}
    (member : item ∈ heap.items) :
    Packet.isPacketItemId item.id = false := by
  rw [Packet.isPacketItemId, List.any_eq_false]
  intro own _ same
  apply avoids item member
  rw [← of_decide_eq_true same]
  cases own <;> decide

/-- The pointers of such a heap are told apart from those that packets add. -/
theorem LaidOut.foreign
    {heap : Heap} {pointers : List UInt64} {payload : Bytes}
    (laidOut : heap.LaidOut pointers payload) (avoids : heap.AvoidsPacketItems) :
    ∀ word ∈ pointers, Packet.isPacketItemId (heap.flavour.decodePointer word).id = false := by
  intro word inTable
  obtain ⟨item, ofHeap, same⟩ := laidOut.exists_item inTable
  rw [← same]
  exact avoids.isPacketItemId ofHeap

end Heap
end Spead
