import Spead.Proofs.Generator
import Spead.Proofs.Value.Records
import Spead.Simulation.Items

/-!
The items of a simulation, the courses that they take, and the groups that hold them.

The sender sets all values of a step before it makes a heap. So the heap tells of one step, and a
receiver that is told of the items alone reads from it what the course says about that step.
-/

namespace Spead

/-! ## Values that agree with themselves -/

/-- Elements agree with themselves if they are numbers. -/
theorem ElementArray.agrees_self
    {array : ElementArray}
    (numbers : array.element.kind = .float → ∀ word ∈ array.words,
      word ≤ (floatFormat array.element).infinity) :
    array.agrees array = true := by
  have paired : ∀ pair ∈ array.words.zip array.words, pair.1 = pair.2 ∧ pair.1 ∈ array.words := by
    rintro ⟨left, right⟩ member
    rw [List.zip_eq_zipWith, List.zipWith_self, List.mem_map] at member
    obtain ⟨word, held, ⟨⟩⟩ := member
    exact ⟨rfl, held⟩
  unfold agrees
  simp only [decide_true, Bool.true_and, List.all_eq_true]
  intro pair member
  obtain ⟨same, held⟩ := paired pair member
  rw [← same]
  cases kind : array.element.kind with
  | float => exact FloatFormat.equal_self_of_le_infinity _ (numbers kind _ held)
  | bool | int | uint => simp

namespace Simulation
namespace Items

/-- One more than the largest step that the item of the step can hold. -/
def stepLimit : Nat :=
  ElementType.uint32.wordBound

/-! ## Courses -/

/-- In every step there is a value for each of the items, an array holds as many elements as its
shape says, and the item of the step holds its number. That a value is of the shape and of the
kind that its descriptor asks for is checked when it is set. -/
structure Course.Documented (course : Course) : Prop where
  ids : ∀ step < stepLimit, (course step).map Prod.fst = descriptors.map Descriptor.id
  counted : ∀ step < stepLimit, ∀ entry ∈ course step, entry.2.Counted
  named : ∀ step < stepLimit, (stepId, array .uint32 [] [step]) ∈ course step

/-- No value differs from itself, as one with a NaN does. -/
def Course.Comparable (course : Course) : Prop :=
  ∀ step < stepLimit, ∀ entry ∈ course step, entry.2.agrees entry.2 = true

theorem nodup_ids : (descriptors.map Descriptor.id).Nodup := by
  decide

/-- There is only one value for an item in a step. -/
theorem Course.Documented.value_eq
    {course : Course} (documented : course.Documented) {step : Nat} (small : step < stepLimit)
    {id : Nat} {first second : Value} (found : (id, first) ∈ course step)
    (foundAgain : (id, second) ∈ course step) : first = second := by
  have distinct : ((course step).map Prod.fst).Nodup := by
    rw [documented.ids step small]
    exact nodup_ids
  have same := List.inj_on_of_nodup_map distinct found foundAgain rfl
  exact congrArg Prod.snd same

/-! ## Courses that are drawn -/

section Draws

variable [RandomSource] (draw : RandomSource.State → Nat × RandomSource.State) (count : Nat)
  (source : RandomSource.State)

theorem length_list : (RandomSource.list draw count source).1.length = count := by
  induction count generalizing source with
  | zero => rfl
  | succ count inductionHypothesis => exact congrArg Nat.succ (inductionHypothesis _)

theorem lt_of_mem_list
    {draw : RandomSource.State → Nat × RandomSource.State} {bound : Nat}
    (bounded : ∀ state, (draw state).1 < bound) {drawn : Nat}
    (member : drawn ∈ (RandomSource.list draw count source).1) : drawn < bound := by
  induction count generalizing source with
  | zero => cases member
  | succ count inductionHypothesis =>
      rcases List.mem_cons.1 member with rfl | others
      · exact bounded source
      · exact inductionHypothesis _ others

end Draws

theorem elementCount_singleton {length : Nat} (small : length < wordLimit) :
    Shape.elementCount [length] = some length := by
  simp [Shape.elementCount, small]

theorem counted_array
    {type : ElementType} {shape words : List Nat}
    (counted : Shape.elementCount shape = some words.length) :
    (array type shape words).Counted := by
  unfold Value.Counted
  simpa [array, Content.count, ElementArray.ofWords] using counted

theorem documented_course [RandomSource] (seed : Nat) : (course seed).Documented where
  ids := fun _ _ => rfl
  named := fun _ _ => List.mem_cons_self
  counted := by
    intro step _
    unfold course
    simp only [List.forall_mem_cons]
    refine ⟨counted_array rfl, counted_array ?spectrum, counted_array ?samples, rfl,
      counted_array ?beam, nofun⟩
    case spectrum =>
      rw [length_list]
      rfl
    case samples =>
      rw [length_list]
      exact elementCount_singleton ((RandomSource.upTo_le 300 _).trans_lt (by decide))
    case beam =>
      rw [length_list]
      rfl

theorem agrees_array_of_number
    {type : ElementType} (number : type.kind ≠ .float) (shape words : List Nat) :
    (array type shape words).agrees (array type shape words) = true := by
  unfold Value.agrees
  rw [decide_eq_true rfl, Bool.true_and]
  exact ElementArray.agrees_self fun float => absurd float number

theorem comparable_course [RandomSource] (seed : Nat) : (course seed).Comparable := by
  intro step _
  unfold course
  simp only [List.forall_mem_cons]
  refine ⟨agrees_array_of_number (by decide) _ _, ?spectrum, agrees_array_of_number (by decide) _ _,
    ?status, agrees_array_of_number (by decide) _ _, nofun⟩
  case spectrum =>
    unfold Value.agrees
    rw [decide_eq_true rfl, Bool.true_and]
    apply ElementArray.agrees_self
    intro _ word member
    obtain ⟨drawn, ofSource, rfl⟩ := List.mem_map.1 member
    have bounded := lt_of_mem_list 64 _
      (fun _ => RandomSource.float_lt _ powerBound _ (by decide)) ofSource
    exact (Nat.mod_le _ _).trans (bounded.le.trans (FloatFormat.encodeRatio_le_infinity _ _))
  case status =>
    simp [Value.record, Value.agrees, Content.agrees, Scalar.agrees]

/-! ## Descriptors -/

theorem check_of_mem {descriptor : Descriptor} (listed : descriptor ∈ descriptors) :
    descriptor.check = .ok () := by
  revert descriptor
  decide +kernel

theorem canonical_of_mem {descriptor : Descriptor} (listed : descriptor ∈ descriptors) :
    descriptor.canonical = descriptor := by
  revert descriptor
  decide +kernel

/-- Records have no variable dimension and no fields in which a number is rounded. -/
theorem records_of_mem
    {descriptor : Descriptor} (listed : descriptor ∈ descriptors) {fields : List Field}
    (encoding : descriptor.encoding = .records fields) :
    descriptor.isVariable = false ∧ ∀ field ∈ fields, field.bits ≠ 32 := by
  simp only [descriptors, List.mem_cons, List.not_mem_nil, or_false] at listed
  rcases listed with rfl | rfl | rfl | rfl | rfl
  · cases encoding
  · cases encoding
  · cases encoding
  · cases encoding
    exact ⟨rfl, by decide⟩
  · cases encoding

/-- What is written of an item and has come into a heap is read back. -/
theorem roundTrips_of_encode
    {descriptor : Descriptor} (listed : descriptor ∈ descriptors) {value : Value}
    (counted : value.Counted) {bytes : Bytes} (encoded : value.encode descriptor = .ok bytes)
    (short : bytes.length * 8 < wordLimit) : value.RoundTrips descriptor := by
  have checked := check_of_mem listed
  have small : value.content.count * descriptor.encoding.bits < wordLimit := by
    rw [Value.encode_length encoded counted, Descriptor.bytesFor] at short
    omega
  cases encoding : descriptor.encoding with
  | elements type order =>
      have inhabited : ∀ other ∈ descriptors, some 0 ∉ other.shape := by decide
      exact Value.roundTrips_of_elements checked encoding (inhabited descriptor listed) counted
        small encoded
  | records fields =>
      obtain ⟨fixed, exactFields⟩ := records_of_mem listed encoding
      obtain ⟨_, rows, content, _⟩ := (Value.encode_records_eq_ok_iff encoding).1 encoded
      obtain ⟨shape, _⟩ := value
      cases content
      have exact : ∀ record ∈ rows, ∀ entry ∈ fields.zip record, entry.2.Exact entry.1.bits := by
        rintro record _ ⟨field, scalar⟩ member
        have wide := exactFields field (List.of_mem_zip member).1
        cases scalar with
        | float _ => exact fun narrow => absurd narrow wide
        | uint _ | int _ | bool _ | char _ => trivial
      exact ⟨bytes, encoded,
        Value.decode_of_fixed encoding fixed checked counted small exact encoded⟩

/-! ## Groups of the items -/

/-- A group holds nothing but the items. -/
structure Populate (group : Group) : Prop where
  sound : group.Sound
  described : ∀ id item, group.get? id = some item → item.descriptor ∈ descriptors

theorem populate_empty : Populate .empty where
  sound := Group.sound_empty
  described := by simp [Group.empty, Group.get?]

section Populate

variable {group : Group} (populate : Populate group)

include populate

theorem Populate.insert
    {descriptor : Descriptor} (listed : descriptor ∈ descriptors) (value : Option Value) :
    Populate (group.insert descriptor value) where
  sound := populate.sound.insert descriptor value
  described := by
    intro id item found
    rcases Group.get?_insert_eq_some found with ⟨_, rfl⟩ | ⟨_, _, kept⟩
    · exact listed
    · exact populate.described id item kept

theorem Populate.store
    {id : Nat} {item : Item} (found : group.get? id = some item) (value : Value) :
    Populate (group.store item value) where
  sound := populate.sound.store (populate.sound.get?_own_id found) value
  described := by
    intro other held holds
    rcases Group.get?_store_eq_some holds with ⟨_, rfl⟩ | ⟨_, kept⟩
    · exact populate.described id item found
    · exact populate.described other held kept

theorem Populate.mem_of_mem_toList {item : Item} (listed : item ∈ group.toList) :
    item.descriptor ∈ descriptors :=
  populate.described _ item ((populate.sound.mem_toList_iff item).1 listed)

theorem Populate.check_of_mem_toList {item : Item} (listed : item ∈ group.toList) :
    item.descriptor.check = .ok () :=
  check_of_mem (populate.mem_of_mem_toList listed)

end Populate

/-- What an item holds is one of some values, and it can be written. -/
def Holds (values : List (Nat × Value)) (id : Nat) (item : Item) : Prop :=
  ∃ value bytes, item.value = some value ∧ (id, value) ∈ values ∧
    value.encode item.descriptor = .ok bytes

/-- Items get the values that are set, and all others are left alone. -/
theorem Populate.setValues
    {group next : Group} (populate : Populate group) {values : List (Nat × Value)}
    (set : values.foldlM (fun current (id, value) => current.setValue id value) group = .ok next) :
    Populate next ∧ ∀ id item, next.get? id = some item →
      Holds values id item ∨ id ∉ values.map Prod.fst ∧ group.get? id = some item := by
  induction values generalizing group with
  | nil =>
      cases set
      exact ⟨populate, fun _ _ found => Or.inr ⟨List.not_mem_nil, found⟩⟩
  | cons entry rest inductionHypothesis =>
      rw [List.foldlM_cons, Except.bind_eq_ok_iff] at set
      obtain ⟨middle, stored, others⟩ := set
      obtain ⟨held, found, ⟨bytes, encoded⟩, rfl⟩ := Group.setValue_eq_ok_iff.1 stored
      obtain ⟨populated, given⟩ := inductionHypothesis (populate.store found entry.2) others
      refine ⟨populated, ?_⟩
      intro id item holds
      rcases given id item holds with ⟨value, written, hasValue, member, writes⟩ | ⟨absent, before⟩
      · exact Or.inl ⟨value, written, hasValue, List.mem_cons_of_mem _ member, writes⟩
      · rcases Group.get?_store_eq_some before with ⟨rfl, rfl⟩ | ⟨different, kept⟩
        · rw [populate.sound.keyed _ held found]
          exact Or.inl ⟨entry.2, bytes, rfl, List.mem_cons_self, encoded⟩
        · rw [populate.sound.keyed _ held found] at different
          refine Or.inr ⟨?_, kept⟩
          rw [List.map_cons, List.mem_cons, not_or]
          exact ⟨different, absent⟩

/-- Once the values of a step are set, the items hold them and nothing else. -/
theorem Populate.setStep
    {course : Course} (documented : course.Documented) {group next : Group}
    (populate : Populate group) {step : Nat} (small : step < stepLimit)
    (set : setStep course group step = .ok next) :
    Populate next ∧ ∀ id item, next.get? id = some item → Holds (course step) id item := by
  obtain ⟨populated, given⟩ := populate.setValues set
  refine ⟨populated, ?_⟩
  intro id item found
  rcases given id item found with holds | ⟨absent, _⟩
  · exact holds
  · apply absurd _ absent
    rw [documented.ids step small, ← populated.sound.keyed id item found]
    exact List.mem_map_of_mem (populated.described id item found)

theorem populate_initial
    {course : Course} (documented : course.Documented) {group : Group}
    (made : initial course = .ok group) : Populate group := by
  obtain ⟨described, added, set⟩ := Except.bind_eq_ok_iff.1 made
  have start : Populate described := by
    refine foldlM_induction (fun _ => Populate) ?_ populate_empty added
    intro _ before populate descriptor listed after stored
    obtain ⟨_, rfl⟩ := Group.add_eq_ok_iff.1 stored
    exact populate.insert listed none
  exact (start.setStep documented (by decide) set).1

/-! ## Heaps of the items -/

/-- A heap has descriptors of the items alone, and values which are read as some of those given. -/
structure Tells (values : List (Nat × Value)) (heap : ReceivedHeap) : Prop where
  described : ∀ parsed ∈ heap.descriptors, ∃ descriptor ∈ descriptors, parsed = .ok descriptor
  valued : ∀ arrived ∈ heap.items, ItemId.firstUser ≤ arrived.id →
    ∃ descriptor ∈ descriptors, ∃ value, descriptor.id = arrived.id ∧
      (arrived.id, value) ∈ values ∧ Group.readValue descriptor arrived = .ok value

/-- The items that are reported as set hold some of the values. -/
structure Shows (values : List (Nat × Value)) (progress : Group × UpdateReport) : Prop where
  populate : Populate progress.1
  stored : ∀ id ∈ progress.2.values, ∃ value, (id, value) ∈ values ∧
    (progress.1.get? id).bind Item.value = some value

/-- Descriptors come before all values. -/
theorem shows_applyDescriptors
    {values : List (Nat × Value)} {parsed : List (Except Error Descriptor)}
    (listed : ∀ entry ∈ parsed, ∃ descriptor ∈ descriptors, entry = .ok descriptor)
    {progress : Group × UpdateReport} (populate : Populate progress.1)
    (unset : progress.2.values = []) :
    Shows values (parsed.foldl Group.applyDescriptor progress) := by
  induction parsed generalizing progress with
  | nil => exact ⟨populate, by simp [unset]⟩
  | cons entry rest inductionHypothesis =>
      rw [List.forall_mem_cons] at listed
      obtain ⟨⟨descriptor, ofItems, rfl⟩, others⟩ := listed
      apply inductionHypothesis others
      · simp only [Group.applyDescriptor]
        split
        · exact populate
        · exact populate.insert ofItems none
      · simp only [Group.applyDescriptor]
        split
        · exact unset
        · exact unset

/-- A value is passed over if the descriptor is not known, else it is stored. -/
theorem Shows.applyValue
    {values : List (Nat × Value)} {progress : Group × UpdateReport}
    (before : Shows values progress) {arrived : ReceivedItem} {descriptor : Descriptor}
    (listed : descriptor ∈ descriptors) (same : descriptor.id = arrived.id) {value : Value}
    (member : (arrived.id, value) ∈ values)
    (read : Group.readValue descriptor arrived = .ok value) :
    Shows values (Group.applyValue progress arrived) := by
  obtain ⟨group, report⟩ := progress
  obtain ⟨populate, stored⟩ := before
  unfold Group.applyValue
  cases found : group.get? arrived.id with
  | none =>
      simp only [found]
      exact ⟨populate, stored⟩
  | some item =>
      -- The descriptor under an id is always the same.
      have keyed := populate.sound.keyed _ item found
      have sameDescriptor : item.descriptor = descriptor :=
        List.inj_on_of_nodup_map nodup_ids (populate.described _ item found) listed
          (keyed.trans same.symm)
      simp only [found, sameDescriptor, read]
      refine ⟨populate.store found value, ?_⟩
      intro id reported
      rw [Group.get?_store, keyed]
      by_cases own : id = arrived.id
      · rw [if_pos own, own]
        exact ⟨value, member, rfl⟩
      · rw [if_neg own]
        apply stored id
        simpa [UpdateReport.addValue, own] using reported

/-- A heap leaves nothing but the items in a group, and what it sets are values it tells of. -/
theorem Populate.update
    {values : List (Nat × Value)} {group : Group} (populate : Populate group)
    {heap : ReceivedHeap} (tells : Tells values heap) : Shows values (group.update heap) := by
  have applied (received : List ReceivedItem)
      (told : ∀ arrived ∈ received, arrived ∈ heap.items ∧ ItemId.firstUser ≤ arrived.id)
      (progress : Group × UpdateReport) (before : Shows values progress) :
      Shows values (received.foldl Group.applyValue progress) := by
    induction received generalizing progress with
    | nil => exact before
    | cons arrived rest inductionHypothesis =>
        rw [List.forall_mem_cons] at told
        obtain ⟨descriptor, listed, value, same, member, read⟩ :=
          tells.valued arrived told.1.1 told.1.2
        exact inductionHypothesis told.2 _ (before.applyValue listed same member read)
  refine applied _ ?_ _ (shows_applyDescriptors tells.described populate rfl)
  intro arrived member
  simpa using member

end Items
end Simulation
end Spead
