import Mathlib.Data.List.DropRight
import Spead.Generator
import Spead.Proofs.Group.Basic
import Spead.Proofs.Group.Update
import Spead.Proofs.Value

/-!
Heaps that are made of a group.

A heap carries the selected descriptors and then the selected values, and the generator remembers
the stamps of what it carries. A receiver reads the descriptors as they are, and the values too
once it knows their descriptors.
-/

namespace Spead
namespace Generator

def described (generator : Generator) (group : Group) (selection : Selection) : List Item :=
  group.toList.filter (generator.selectsDescriptor selection)

def valued (generator : Generator) (group : Group) (selection : Selection) : List Item :=
  group.toList.filter (generator.selectsValue selection)

def withValues (items : List Item) : List (Item × Value) :=
  items.filterMap fun item => item.value.map fun value => (item, value)

/-! ## What is made -/

def CarriesDescriptor (flavour : Flavour) (item : Item) (carrier : HeapItem) : Prop :=
  ∃ bytes, item.descriptor.serialize flavour = .ok bytes ∧
    carrier = ⟨ItemId.descriptor, .bytes bytes false⟩

def CarriesValue (entry : Item × Value) (carrier : HeapItem) : Prop :=
  ∃ bytes, entry.2.encode entry.1.descriptor = .ok bytes ∧
    carrier = ⟨entry.1.descriptor.id, .bytes bytes !entry.1.descriptor.isVariable⟩

/-- A heap of the selected descriptors and values, and where the generator stands after it. -/
structure Makes
    (generator : Generator) (group : Group) (descriptors data : Selection)
    (descriptorCarriers valueCarriers : List HeapItem) (heap : Heap) (next : Generator) :
    Prop where
  running : generator.exhausted = false
  describes :
    List.Forall₂ (CarriesDescriptor generator.flavour)
      (generator.described group descriptors) descriptorCarriers
  conveys :
    List.Forall₂ CarriesValue (withValues (generator.valued group data)) valueCarriers
  heap : heap = ⟨generator.nextCount, generator.flavour, descriptorCarriers ++ valueCarriers⟩
  next : next =
    { generator with
      nextCount :=
        if generator.flavour.maxAddress ≤ generator.nextCount then 1 else generator.nextCount + 1
      sent :=
        (generator.valued group data).foldl noteValue
          ((generator.described group descriptors).foldl noteDescriptor generator.sent)
      started := true }

theorem heap_eq_ok
    {generator next : Generator} {group : Group} {descriptors data : Selection} {heap : Heap}
    (made : generator.heap group descriptors data = .ok (heap, next)) :
    ∃ descriptorCarriers valueCarriers,
      generator.Makes group descriptors data descriptorCarriers valueCarriers heap next := by
  unfold Generator.heap at made
  obtain ⟨running, made⟩ := Except.guard_eq_ok_iff.1 made
  obtain ⟨descriptorCarriers, ofDescriptors, made⟩ := Except.bind_eq_ok_iff.1 made
  obtain ⟨valueCarriers, ofValues, made⟩ := Except.bind_eq_ok_iff.1 made
  obtain ⟨⟨count, counted⟩, took, made⟩ := Except.bind_eq_ok_iff.1 made
  rw [mapM_eq_ok_iff] at ofDescriptors ofValues
  rw [liftM_eq_ok_iff, takeCount, if_neg running] at took
  cases took
  cases made
  refine ⟨descriptorCarriers, valueCarriers, ?_⟩
  constructor
  case running => simpa using running
  case describes =>
    apply ofDescriptors.imp
    intro item carrier carried
    obtain ⟨bytes, written, done⟩ := Except.bind_eq_ok_iff.1 carried
    exact ⟨bytes, written, (Except.ok.inj done).symm⟩
  case conveys =>
    apply ofValues.imp
    intro entry carrier carried
    obtain ⟨bytes, encoded, done⟩ := Except.bind_eq_ok_iff.1 carried
    exact ⟨bytes, encoded, (Except.ok.inj done).symm⟩
  case heap => rfl
  case next => rfl

/-! ## What is received -/

section Received

variable {generator next : Generator} {group : Group} {descriptors data : Selection}
  {descriptorCarriers valueCarriers : List HeapItem} {heap : Heap}

theorem Makes.id_of_descriptorCarriers
    (makes : generator.Makes group descriptors data descriptorCarriers valueCarriers heap next) :
    ∀ carrier ∈ descriptorCarriers, carrier.id = ItemId.descriptor := by
  intro carrier member
  obtain ⟨_, _, _, _, rfl⟩ := exists_of_forall₂_right makes.describes member
  rfl

theorem mem_withValues_iff {items : List Item} {entry : Item × Value} :
    entry ∈ withValues items ↔ entry.1 ∈ items ∧ entry.1.value = some entry.2 := by
  rcases entry with ⟨item, value⟩
  simp only [withValues, List.mem_filterMap, Option.map_eq_some_iff]
  constructor
  · rintro ⟨_, ofItems, _, hasValue, ⟨⟩⟩
    exact ⟨ofItems, hasValue⟩
  · rintro ⟨ofItems, hasValue⟩
    exact ⟨item, ofItems, value, hasValue, rfl⟩

theorem mem_of_mem_withValues
    {items : List Item} {entry : Item × Value} (member : entry ∈ withValues items) :
    entry.1 ∈ items ∧ entry.1.value = some entry.2 :=
  mem_withValues_iff.1 member

theorem map_fst_withValues (items : List Item) :
    (withValues items).map Prod.fst = items.filter fun item => item.value.isSome := by
  induction items with
  | nil => rfl
  | cons item rest inductionHypothesis =>
      rw [List.filter_cons, ← inductionHypothesis]
      cases hasValue : item.value with
      | none => simp [withValues, hasValue]
      | some value => simp [withValues, hasValue]

theorem nodup_ids_withValues
    (sound : group.Sound) (generator : Generator) (selection : Selection) :
    (((withValues (generator.valued group selection)).map fun entry =>
      (entry.1.descriptor.id, entry.2)).map Prod.fst).Nodup := by
  have ids :
      ((withValues (generator.valued group selection)).map fun entry =>
        (entry.1.descriptor.id, entry.2)).map Prod.fst =
      ((withValues (generator.valued group selection)).map Prod.fst).map fun item =>
        item.descriptor.id := by
    rw [List.map_map, List.map_map]
    rfl
  have sublist :
      ((generator.valued group selection).filter fun item => item.value.isSome).Sublist
        group.toList :=
    List.filter_sublist.trans List.filter_sublist
  rw [ids, map_fst_withValues]
  exact sound.nodup_ids.sublist (sublist.map _)

theorem Makes.id_of_valueCarriers
    (makes : generator.Makes group descriptors data descriptorCarriers valueCarriers heap next)
    (checked : ∀ item ∈ group.toList, item.descriptor.check = .ok ()) :
    ∀ carrier ∈ valueCarriers, ItemId.firstUser ≤ carrier.id := by
  intro carrier member
  obtain ⟨entry, ofEntries, _, _, rfl⟩ := exists_of_forall₂_right makes.conveys member
  obtain ⟨ofValued, _⟩ := mem_of_mem_withValues ofEntries
  exact (Descriptor.check_eq_ok_iff.1 (checked _ (List.mem_filter.1 ofValued).1)).1

/-- No heap of a group has an item of a packet, or one of stream control. -/
theorem Makes.id_of_items
    (makes : generator.Makes group descriptors data descriptorCarriers valueCarriers heap next)
    (checked : ∀ item ∈ group.toList, item.descriptor.check = .ok ()) :
    ∀ item ∈ heap.items, item.id = ItemId.descriptor ∨ ItemId.firstUser ≤ item.id := by
  intro item member
  rw [makes.heap] at member
  rcases List.mem_append.1 member with describes | conveys
  · exact Or.inl (makes.id_of_descriptorCarriers item describes)
  · exact Or.inr (makes.id_of_valueCarriers checked item conveys)

theorem Makes.avoidsPacketItems
    (makes : generator.Makes group descriptors data descriptorCarriers valueCarriers heap next)
    (checked : ∀ item ∈ group.toList, item.descriptor.check = .ok ()) :
    heap.AvoidsPacketItems := by
  intro item member
  rcases makes.id_of_items checked item member with same | user
  · rw [same]
    decide
  · have : ItemId.payloadLength < ItemId.firstUser := by decide
    omega

theorem Makes.receivedItems
    (makes : generator.Makes group descriptors data descriptorCarriers valueCarriers heap next)
    (checked : ∀ item ∈ group.toList, item.descriptor.check = .ok ()) :
    heap.receivedItems =
      descriptorCarriers.map (Heap.arrival generator.flavour) ++
        valueCarriers.map (Heap.arrival generator.flavour) := by
  have ids := makes.id_of_items checked
  unfold Heap.receivedItems
  rw [List.filter_eq_self.2]
  · rw [makes.heap, List.map_append]
  · intro arrived member
    obtain ⟨item, ofHeap, rfl⟩ := List.mem_map.1 member
    have own : item.id ≠ ItemId.null := by
      rcases ids item ofHeap with same | user
      · rw [same]
        decide
      · have : ItemId.null < ItemId.firstUser := by decide
        omega
    rw [Heap.id_arrival]
    simpa using own

/-- A receiver finds the selected descriptors in a heap. -/
theorem Makes.descriptors_received
    (makes : generator.Makes group descriptors data descriptorCarriers valueCarriers heap next)
    (checked : ∀ item ∈ group.toList, item.descriptor.check = .ok ()) (count : Nat) :
    ReceivedHeap.descriptors ⟨count, generator.flavour, heap.receivedItems⟩ =
      (generator.described group descriptors).map fun item => .ok item.descriptor.canonical := by
  have carriers :
      heap.receivedItems.filter (fun item => item.id = ItemId.descriptor) =
        descriptorCarriers.map (Heap.arrival generator.flavour) := by
    rw [makes.receivedItems checked, List.filter_append, List.filter_eq_self.2,
      List.filter_eq_nil_iff.2, List.append_nil]
    · intro arrived member
      obtain ⟨item, ofCarriers, rfl⟩ := List.mem_map.1 member
      have user := makes.id_of_valueCarriers checked item ofCarriers
      have : ItemId.descriptor < ItemId.firstUser := by decide
      rw [Heap.id_arrival, decide_eq_true_eq]
      omega
    · intro arrived member
      obtain ⟨item, ofCarriers, rfl⟩ := List.mem_map.1 member
      rw [Heap.id_arrival, decide_eq_true_eq]
      exact makes.id_of_descriptorCarriers item ofCarriers
  have listed : ∀ item ∈ generator.described group descriptors, item ∈ group.toList := by
    intro item member
    exact (List.mem_filter.1 member).1
  have described :=
    (List.forall₂_and_left _ _).2 ⟨fun item member => checked item (listed item member),
      makes.describes⟩
  unfold ReceivedHeap.descriptors
  dsimp only
  rw [carriers, List.map_map]
  apply map_eq_map_of_forall₂ described
  rintro item carrier ⟨isChecked, bytes, written, rfl⟩
  exact Descriptor.parse_serialize isChecked written

/-- The selected values are found in a heap. -/
theorem Makes.values_carried
    (makes : generator.Makes group descriptors data descriptorCarriers valueCarriers heap next)
    (checked : ∀ item ∈ group.toList, item.descriptor.check = .ok ())
    (roundTrips : ∀ item ∈ group.toList, ∀ value, item.value = some value →
      value.RoundTrips item.descriptor) :
    List.Forall₂
      (fun entry arrived => arrived.id = entry.1.descriptor.id ∧
        Group.readValue entry.1.descriptor.canonical arrived = .ok entry.2)
      (withValues (generator.valued group data))
      (heap.receivedItems.filter fun item => ItemId.firstUser ≤ item.id) := by
  have carriers :
      heap.receivedItems.filter (fun item => ItemId.firstUser ≤ item.id) =
        valueCarriers.map (Heap.arrival generator.flavour) := by
    rw [makes.receivedItems checked, List.filter_append, List.filter_eq_nil_iff.2,
      List.filter_eq_self.2, List.nil_append]
    · intro arrived member
      obtain ⟨item, ofCarriers, rfl⟩ := List.mem_map.1 member
      rw [Heap.id_arrival, decide_eq_true_eq]
      exact makes.id_of_valueCarriers checked item ofCarriers
    · intro arrived member
      obtain ⟨item, ofCarriers, rfl⟩ := List.mem_map.1 member
      have : ItemId.descriptor < ItemId.firstUser := by decide
      rw [Heap.id_arrival, makes.id_of_descriptorCarriers item ofCarriers, decide_eq_true_eq]
      omega
  have conveyed :=
    (List.forall₂_and_left _ _).2 ⟨fun entry member => mem_of_mem_withValues member,
      makes.conveys⟩
  rw [carriers, List.forall₂_map_right_iff]
  apply conveyed.imp
  rintro entry carrier ⟨⟨ofValued, hasValue⟩, bytes, encoded, rfl⟩
  obtain ⟨again, encodedAgain, decoded⟩ :=
    roundTrips entry.1 (List.mem_filter.1 ofValued).1 entry.2 hasValue
  rw [encoded] at encodedAgain
  cases encodedAgain
  exact ⟨Heap.id_arrival _ _,
    Value.readValue_arrival encoded decoded generator.flavour entry.1.descriptor.id⟩

/-- A receiver that knows the descriptors finds the selected values in a heap. -/
theorem Makes.values_received
    (makes : generator.Makes group descriptors data descriptorCarriers valueCarriers heap next)
    (checked : ∀ item ∈ group.toList, item.descriptor.check = .ok ())
    (roundTrips : ∀ item ∈ group.toList, ∀ value, item.value = some value →
      value.RoundTrips item.descriptor)
    {mirror : Group}
    (known : ∀ item ∈ generator.valued group data,
      mirror.descriptor? item.descriptor.id = some item.descriptor.canonical) :
    List.Forall₂ mirror.Carries
      ((withValues (generator.valued group data)).map fun entry =>
        (entry.1.descriptor.id, entry.2))
      (heap.receivedItems.filter fun item => ItemId.firstUser ≤ item.id) := by
  have carried :=
    (List.forall₂_and_left _ _).2 ⟨fun entry member => (mem_of_mem_withValues member).1,
      makes.values_carried checked roundTrips⟩
  rw [List.forall₂_map_left_iff]
  apply carried.imp
  rintro entry arrived ⟨ofValued, same, read⟩
  exact ⟨same, _, known entry.1 ofValued, read⟩

end Received

/-! ## What is remembered -/

def stampsOf (sent : Table Nat SentStamps) (id : Nat) : SentStamps :=
  (sent.get? id).getD {}

/-- To note an item is to change the stamps under its id. -/
def Notes
    (note : Table Nat SentStamps → Item → Table Nat SentStamps)
    (change : Item → SentStamps → SentStamps) : Prop :=
  ∀ sent item, note sent item =
    sent.put item.descriptor.id (change item (stampsOf sent item.descriptor.id))

theorem notes_noteDescriptor :
    Notes noteDescriptor fun item stamps => { stamps with descriptor := item.descriptorStamp } :=
  fun _ _ => rfl

theorem notes_noteValue :
    Notes noteValue fun item stamps => { stamps with value := item.valueStamp } :=
  fun _ _ => rfl

section Notes

variable {note : Table Nat SentStamps → Item → Table Nat SentStamps}
  {change : Item → SentStamps → SentStamps}

/-- Notes on different items are taken independently. -/
theorem stampsOf_foldl
    (notes : Notes note change) {items : List Item}
    (distinct : (items.map fun item => item.descriptor.id).Nodup) (sent : Table Nat SentStamps) :
    (∀ item ∈ items, stampsOf (items.foldl note sent) item.descriptor.id =
      change item (stampsOf sent item.descriptor.id)) ∧
    ∀ id, id ∉ items.map (fun item => item.descriptor.id) →
      stampsOf (items.foldl note sent) id = stampsOf sent id := by
  induction items generalizing sent with
  | nil => simp
  | cons item rest inductionHypothesis =>
      rw [List.map_cons, List.nodup_cons] at distinct
      obtain ⟨absent, others⟩ := distinct
      obtain ⟨noted, untouched⟩ := inductionHypothesis others (note sent item)
      have stamps (id : Nat) :
          stampsOf (note sent item) id =
            if id = item.descriptor.id then change item (stampsOf sent item.descriptor.id)
            else stampsOf sent id := by
        rw [notes, stampsOf, Table.get?_put]
        by_cases same : id = item.descriptor.id
        · rw [if_pos same, if_pos same]
          rfl
        · rw [if_neg same, if_neg same]
          rfl
      rw [List.foldl_cons]
      constructor
      · intro other member
        rcases List.mem_cons.1 member with rfl | later
        · rw [untouched _ absent, stamps, if_pos rfl]
        · have different : other.descriptor.id ≠ item.descriptor.id := by
            intro same
            apply absent
            rw [← same]
            exact List.mem_map_of_mem later
          rw [noted other later, stamps, if_neg different]
      · intro id outside
        rw [List.map_cons, List.mem_cons, not_or] at outside
        rw [untouched id outside.2, stamps, if_neg outside.1]

theorem stampsOf_foldl_filter
    (notes : Notes note change) {group : Group} (sound : group.Sound) (selected : Item → Bool)
    (sent : Table Nat SentStamps) (id : Nat) :
    stampsOf ((group.toList.filter selected).foldl note sent) id =
      match group.get? id with
      | some item => if selected item then change item (stampsOf sent id) else stampsOf sent id
      | none => stampsOf sent id := by
  have distinct :
      ((group.toList.filter selected).map fun item => item.descriptor.id).Nodup :=
    sound.nodup_ids.sublist (List.filter_sublist.map _)
  obtain ⟨noted, untouched⟩ := stampsOf_foldl notes distinct sent
  cases found : group.get? id with
  | none =>
      apply untouched
      intro member
      obtain ⟨item, ofGroup, rfl⟩ := List.mem_map.1 member
      have holds := (sound.mem_toList_iff item).1 (List.mem_filter.1 ofGroup).1
      rw [found] at holds
      cases holds
  | some item =>
      have keyed := sound.keyed id item found
      subst keyed
      by_cases chosen : selected item = true
      · have member := List.mem_filter.2 ⟨(sound.mem_toList_iff item).2 found, chosen⟩
        dsimp only
        rw [noted item member, if_pos chosen]
      · dsimp only
        rw [if_neg chosen]
        apply untouched
        intro member
        obtain ⟨other, ofGroup, same⟩ := List.mem_map.1 member
        obtain ⟨listed, otherChosen⟩ := List.mem_filter.1 ofGroup
        have holds := (sound.mem_toList_iff other).1 listed
        rw [same, found, Option.some_inj] at holds
        subst holds
        exact chosen otherChosen

end Notes

/-- A generator remembers the stamps of what it has put into a heap. -/
theorem Makes.lastSent
    {generator next : Generator} {group : Group} {descriptors data : Selection}
    {descriptorCarriers valueCarriers : List HeapItem} {heap : Heap}
    (makes : generator.Makes group descriptors data descriptorCarriers valueCarriers heap next)
    (sound : group.Sound) (id : Nat) :
    next.lastSent id =
      match group.get? id with
      | some item =>
          { descriptor :=
              if generator.selectsDescriptor descriptors item then item.descriptorStamp
              else (generator.lastSent id).descriptor
            value :=
              if generator.selectsValue data item then item.valueStamp
              else (generator.lastSent id).value }
      | none => generator.lastSent id := by
  have noted :=
    stampsOf_foldl_filter notes_noteDescriptor sound (generator.selectsDescriptor descriptors)
      generator.sent id
  have notedAll :=
    stampsOf_foldl_filter notes_noteValue sound (generator.selectsValue data)
      ((generator.described group descriptors).foldl noteDescriptor generator.sent) id
  have final : next.lastSent id =
      stampsOf ((generator.valued group data).foldl noteValue
        ((generator.described group descriptors).foldl noteDescriptor generator.sent)) id := by
    rw [makes.next]
    rfl
  rw [final, valued, notedAll, described, noted]
  cases group.get? id with
  | none => rfl
  | some item =>
      dsimp only
      by_cases describes : generator.selectsDescriptor descriptors item = true
      · by_cases values : generator.selectsValue data item = true
        · simp [describes, values]
        · simp [describes, values]
          rfl
      · by_cases values : generator.selectsValue data item = true
        · simp [describes, values]
          rfl
        · simp [describes, values]
          rfl

/-! ## The numbers of heaps -/

/-- The number of the heap that a generator makes after `made` others. -/
def countAt (flavour : Flavour) (made : Nat) : Nat :=
  made % flavour.maxAddress + 1

theorem countAt_bounds (flavour : Flavour) (made : Nat) :
    1 ≤ countAt flavour made ∧ countAt flavour made ≤ flavour.maxAddress := by
  have := Nat.mod_lt made flavour.maxAddress_pos
  unfold countAt
  omega

theorem countAt_succ (flavour : Flavour) (made : Nat) :
    countAt flavour (made + 1) =
      if flavour.maxAddress ≤ countAt flavour made then 1 else countAt flavour made + 1 := by
  have small := Nat.mod_lt made flavour.maxAddress_pos
  have after :
      (made + 1) % flavour.maxAddress = (made % flavour.maxAddress + 1) % flavour.maxAddress :=
    (Nat.mod_add_mod made _ 1).symm
  unfold countAt
  rw [after]
  by_cases last : made % flavour.maxAddress + 1 = flavour.maxAddress
  · rw [if_pos (by omega), last, Nat.mod_self]
  · have inside : made % flavour.maxAddress + 1 < flavour.maxAddress := by omega
    rw [if_neg (by omega), Nat.mod_eq_of_lt inside]

/-- Equal numbers are whole rounds apart. -/
theorem countAt_ne
    {flavour : Flavour} {made later : Nat} (before : made < later)
    (near : later - made < flavour.maxAddress) :
    countAt flavour made ≠ countAt flavour later := by
  intro same
  rw [countAt, countAt, Nat.add_right_cancel_iff] at same
  have apart : flavour.maxAddress ∣ later - made :=
    Nat.dvd_of_mod_eq_zero (Nat.sub_mod_eq_zero_of_mod_eq same.symm)
  have := Nat.le_of_dvd (by omega) apart
  omega

/-- A number comes again only after all others. -/
theorem countAt_not_mem_rtake
    {flavour : Flavour} {length : Nat} (short : length < flavour.maxAddress) (made : Nat) :
    countAt flavour made ∉ ((List.range made).map (countAt flavour)).rtake length := by
  intro member
  rw [List.rtake, List.length_map, List.length_range, ← List.map_drop] at member
  obtain ⟨earlier, ofRange, same⟩ := List.mem_map.1 member
  obtain ⟨place, inside, rfl⟩ := List.mem_iff_getElem.1 ofRange
  simp only [List.length_drop, List.length_range] at inside
  simp only [List.getElem_drop, List.getElem_range] at same
  exact countAt_ne (by omega) (by omega) same

end Generator
end Spead
