import Spead.Proofs.Generator
import Spead.Proofs.Value.Records

/-!
Groups whose values are sent again.

A value that has been set has an encoding, because setting it asks for one. A value that has been
received is only read: it has an encoding as well, unless it has a character outside of ASCII,
which a field of eight bits can bring but not send.
-/

namespace Spead

/-! ## Scalars -/

namespace Scalar

/-- The scalar is not a character outside of ASCII. -/
def IsAscii : Scalar → Prop
  | char value => value.toNat < 128
  | _ => True

end Scalar

namespace Field

variable {field : Field}

theorem isAscii_of_admits {scalar : Scalar} (admitted : field.Admits scalar) : scalar.IsAscii := by
  cases scalar with
  | char value => exact admitted.2.1
  | uint value => trivial
  | int value => trivial
  | float value => trivial
  | bool value => trivial

/-- What is read from a field belongs into it, but for characters. -/
theorem admits_scalarOf
    {word : Nat} (small : word < 2 ^ field.bits) (ascii : (field.scalarOf word).IsAscii) :
    field.Admits (field.scalarOf word) := by
  have supported := field.supported
  unfold scalarOf at ascii ⊢
  cases kind : field.kind with
  | uint => exact ⟨kind, small⟩
  | float => exact kind
  | bool => exact kind
  | int =>
      have whole := Nat.two_pow_pred_mul_two field.bits_pos
      have size_pos := Nat.two_pow_pos field.bits
      have cast : (2 : Int) ^ (field.bits - 1) = (2 ^ (field.bits - 1) : Nat) := by push_cast; rfl
      have low := Int.le_bmod (x := word) size_pos
      have high := Int.bmod_lt (x := word) size_pos
      refine ⟨kind, ?_, ?_⟩
      · rw [cast]
        omega
      · rw [cast]
        omega
  | char =>
      simp only [kind] at ascii
      simp only [kind, FieldKind.supports, Bool.and_eq_true, decide_eq_true_eq] at supported
      have byte : word < 256 :=
        Nat.lt_of_lt_of_le small (Nat.pow_le_pow_right (by decide) supported.2)
      have same : (Char.ofNat word).toNat = word := by
        have valid : word.isValidChar := Or.inl (by omega)
        rw [Char.ofNat, dif_pos valid]
        rfl
      exact ⟨kind, ascii, by rwa [same]⟩

end Field

/-! ## Values that have been read -/

theorem Bits.Reader.read_lt
    {reader next : Reader} {count word : Nat} (read : reader.read count = .ok (word, next)) :
    word < 2 ^ count := by
  unfold Reader.read at read
  dsimp only at read
  split at read
  · cases read
  · split at read
    · cases read
    · cases read
      exact Nat.mod_lt _ (Nat.two_pow_pos count)

namespace Value

/-- The value has no character outside of ASCII. -/
def IsAscii (value : Value) : Prop :=
  match value.content with
  | .elements _ => True
  | .records rows => ∀ record ∈ rows, ∀ scalar ∈ record, scalar.IsAscii

theorem exists_word_of_decodeField
    {field : Field} {reader next : Bits.Reader} {scalar : Scalar}
    (decoded : (decodeField field).run reader = .ok (scalar, next)) :
    ∃ word < 2 ^ field.bits, scalar = field.scalarOf word := by
  rw [decodeField_eq, Except.map_eq_ok_iff] at decoded
  obtain ⟨⟨word, after⟩, read, same⟩ := decoded
  cases same
  exact ⟨word, Bits.Reader.read_lt read, rfl⟩

theorem admits_of_decodeRecords
    {fields : List Field} {count : Nat} {bytes : Bytes} {rows : List (List Scalar)}
    (decoded : decodeRecords fields count bytes = .ok rows) {record : List Scalar}
    (member : record ∈ rows) (ascii : ∀ scalar ∈ record, scalar.IsAscii) :
    List.Forall₂ Field.Admits fields record := by
  unfold decodeRecords at decoded
  obtain ⟨⟨results, last⟩, stepped, rfl⟩ := Except.map_eq_ok_iff.1 decoded
  obtain ⟨_, _, _, _, ofRecord⟩ := exists_of_forall₂_right (forall₂_of_mapM stepped) member
  have read := forall₂_of_mapM ofRecord
  rw [List.forall₂_iff_zip] at read ⊢
  refine ⟨read.1, ?_⟩
  intro field scalar paired
  obtain ⟨_, _, ofField⟩ := read.2 paired
  obtain ⟨word, small, rfl⟩ := exists_word_of_decodeField ofField
  exact Field.admits_scalarOf small (ascii _ (List.of_mem_zip paired).2)

/-- A value that has been read can be written. -/
theorem exists_encode_of_decode
    {descriptor : Descriptor} {bytes : Bytes} {value : Value}
    (decoded : decode descriptor bytes = .ok value) (ascii : value.IsAscii) :
    ∃ written, value.encode descriptor = .ok written := by
  obtain ⟨_, read⟩ := decode_eq_ok decoded
  have admitted : Shape.admits descriptor.shape value.shape = true := by
    obtain ⟨dimension, filled⟩ := exists_of_shapeOf read.shape
    rw [filled]
    exact Shape.admits_fill _ _
  cases encoding : descriptor.encoding with
  | elements type order =>
      obtain ⟨_, _, _, _, _, _, rfl⟩ := (decode_eq_ok_iff encoding).1 decoded
      exact ⟨_, (encode_eq_ok_iff encoding).2 ⟨admitted, _, rfl, rfl, rfl⟩⟩
  | records fields =>
      obtain ⟨rows, content, ofRecords⟩ :
          ∃ rows, value.content = .records rows ∧
            ∃ count front, decodeRecords fields count front = .ok rows := by
        unfold decode at decoded
        obtain ⟨_, _, decoded⟩ := Except.bind_eq_ok_iff.1 decoded
        obtain ⟨_, _, decoded⟩ := Except.bind_eq_ok_iff.1 decoded
        obtain ⟨_, _, decoded⟩ := Except.bind_eq_ok_iff.1 decoded
        obtain ⟨_, decoded⟩ := Except.guard_eq_ok_iff.1 decoded
        simp only [encoding] at decoded
        obtain ⟨rows, ofRows, done⟩ := Except.bind_eq_ok_iff.1 decoded
        cases done
        exact ⟨rows, rfl, _, _, liftM_eq_ok_iff.1 ofRows⟩
      obtain ⟨count, front, ofRecords⟩ := ofRecords
      unfold IsAscii at ascii
      rw [content] at ascii
      exact ⟨_, (encode_records_eq_ok_iff encoding).2 ⟨admitted, rows, content,
        fun record member => admits_of_decodeRecords ofRecords member (ascii record member), rfl⟩⟩

theorem isAscii_of_encode
    {descriptor : Descriptor} {value : Value} {bytes : Bytes}
    (encoded : value.encode descriptor = .ok bytes) : value.IsAscii := by
  unfold IsAscii
  cases content : value.content with
  | elements array => trivial
  | records rows =>
      cases encoding : descriptor.encoding with
      | elements type order =>
          obtain ⟨_, _, same, _⟩ := (encode_eq_ok_iff encoding).1 encoded
          rw [content] at same
          cases same
      | records fields =>
          obtain ⟨_, _, same, accepted, _⟩ := (encode_records_eq_ok_iff encoding).1 encoded
          rw [content] at same
          cases same
          intro record member scalar ofRecord
          obtain ⟨field, _, admitted⟩ :=
            exists_of_forall₂_right (accepted record member) ofRecord
          exact Field.isAscii_of_admits admitted

/-- The value is written if its characters can be. -/
def Resendable (descriptor : Descriptor) (value : Value) : Prop :=
  (∃ bytes, value.encode descriptor = .ok bytes) ↔ value.IsAscii

theorem resendable_of_encode
    {descriptor : Descriptor} {value : Value} {bytes : Bytes}
    (encoded : value.encode descriptor = .ok bytes) : value.Resendable descriptor :=
  ⟨fun _ => isAscii_of_encode encoded, fun _ => ⟨bytes, encoded⟩⟩

theorem resendable_of_readValue
    {descriptor : Descriptor} {received : ReceivedItem} {value : Value}
    (read : Group.readValue descriptor received = .ok value) : value.Resendable descriptor := by
  have decoded : ∃ bytes, decode descriptor bytes = .ok value := by
    unfold Group.readValue decodeImmediate at read
    split at read
    · split at read
      · split at read
        · exact ⟨_, read⟩
        · cases read
      · exact ⟨_, read⟩
    · exact ⟨_, read⟩
  obtain ⟨bytes, decoded⟩ := decoded
  exact ⟨fun ⟨_, encoded⟩ => isAscii_of_encode encoded, exists_encode_of_decode decoded⟩

end Value

/-! ## Groups -/

namespace Group

/-- What a group comes to by changes of an application and by heaps from anywhere. Calls that fail
change nothing. -/
inductive Reached : Group → Prop where
  | empty : Reached empty
  | add {group next : Group} {descriptor : Descriptor} {value : Option Value}
      (before : Reached group) (added : group.add descriptor value = .ok next) : Reached next
  | setValue {group next : Group} {id : Nat} {value : Value}
      (before : Reached group) (set : group.setValue id value = .ok next) : Reached next
  | setValueByName {group next : Group} {name : String} {value : Value}
      (before : Reached group) (set : group.setValueByName name value = .ok next) : Reached next
  | remove {group : Group} {id : Nat} (before : Reached group) : Reached (group.remove id)
  | update {group : Group} {heap : ReceivedHeap} (before : Reached group) :
      Reached (group.update heap).1

/-- Every value of the group is written if its characters can be. -/
def Resendable (group : Group) : Prop :=
  ∀ id item, group.get? id = some item → ∀ value, item.value = some value →
    value.Resendable item.descriptor

theorem Resendable.insert
    {group : Group} (resendable : group.Resendable) {descriptor : Descriptor}
    {value : Option Value} (own : ∀ content, value = some content → content.Resendable descriptor) :
    (group.insert descriptor value).Resendable := by
  intro id item found
  rcases get?_insert_eq_some found with ⟨_, rfl⟩ | ⟨_, _, kept⟩
  · exact own
  · exact resendable id item kept

theorem Resendable.store
    {group : Group} (resendable : group.Resendable) {item : Item} {value : Value}
    (own : value.Resendable item.descriptor) : (group.store item value).Resendable := by
  intro id other found content hasValue
  rcases get?_store_eq_some found with ⟨_, rfl⟩ | ⟨_, kept⟩
  · cases hasValue
    exact own
  · exact resendable id other kept content hasValue

theorem Resendable.update
    {group : Group} (resendable : group.Resendable) (heap : ReceivedHeap) :
    (group.update heap).1.Resendable := by
  refine update_induction ?insert ?store resendable heap
  case insert => exact fun _ _ before => before.insert (by simp)
  case store =>
    exact fun _ _ _ _ _ before _ read => before.store (Value.resendable_of_readValue read)

theorem Reached.sound {group : Group} (reached : group.Reached) : group.Sound := by
  induction reached with
  | empty => exact sound_empty
  | add _ added inductionHypothesis =>
      rw [(add_eq_ok_iff.1 added).2]
      exact inductionHypothesis.insert _ _
  | setValue _ set inductionHypothesis =>
      obtain ⟨item, found, _, rfl⟩ := setValue_eq_ok_iff.1 set
      exact inductionHypothesis.store (inductionHypothesis.get?_own_id found) _
  | setValueByName _ set inductionHypothesis =>
      obtain ⟨_, _, setById⟩ := setValueByName_eq_ok_iff.1 set
      obtain ⟨item, found, _, rfl⟩ := setValue_eq_ok_iff.1 setById
      exact inductionHypothesis.store (inductionHypothesis.get?_own_id found) _
  | remove _ inductionHypothesis => exact inductionHypothesis.remove _
  | update _ inductionHypothesis => exact inductionHypothesis.update _

theorem Reached.resendable {group : Group} (reached : group.Reached) : group.Resendable := by
  induction reached with
  | empty => simp [Resendable, Group.empty, get?]
  | add _ added inductionHypothesis =>
      obtain ⟨encodes, rfl⟩ := add_eq_ok_iff.1 added
      apply inductionHypothesis.insert
      intro content hasValue
      obtain ⟨_, encoded⟩ := encodes content hasValue
      exact Value.resendable_of_encode encoded
  | setValue _ set inductionHypothesis =>
      obtain ⟨item, _, ⟨_, encoded⟩, rfl⟩ := setValue_eq_ok_iff.1 set
      exact inductionHypothesis.store (Value.resendable_of_encode encoded)
  | setValueByName _ set inductionHypothesis =>
      obtain ⟨_, _, setById⟩ := setValueByName_eq_ok_iff.1 set
      obtain ⟨item, _, ⟨_, encoded⟩, rfl⟩ := setValue_eq_ok_iff.1 setById
      exact inductionHypothesis.store (Value.resendable_of_encode encoded)
  | remove _ inductionHypothesis =>
      exact fun id item found => inductionHypothesis id item (get?_remove_eq_some found).2
  | update _ inductionHypothesis => exact inductionHypothesis.update _

/-- The values of a group can be sent again if they are free of characters outside of ASCII,
wherever they come from, and only then; the values that a generator selects are therefore put into
a heap. -/
theorem Reached.encode_iff_isAscii {group : Group} (reached : group.Reached) :
    (∀ item ∈ group.toList, ∀ value, item.value = some value →
      ((∃ bytes, value.encode item.descriptor = .ok bytes) ↔ value.IsAscii)) ∧
    ∀ (generator : Generator) (data : Selection),
      (∃ carriers,
        (Generator.withValues (generator.valued group data)).mapM
          (fun entry => Generator.valueItem entry.1 entry.2) = .ok carriers) ↔
        ∀ item ∈ generator.valued group data, ∀ value, item.value = some value →
          value.IsAscii := by
  have each : ∀ item ∈ group.toList, ∀ value, item.value = some value →
      ((∃ bytes, value.encode item.descriptor = .ok bytes) ↔ value.IsAscii) := by
    intro item member value hasValue
    exact reached.resendable _ item ((reached.sound.mem_toList_iff item).1 member) value hasValue
  refine ⟨each, ?_⟩
  intro generator data
  rw [exists_mapM_eq_ok_iff]
  constructor
  · intro made item ofValued value hasValue
    obtain ⟨_, built⟩ := made (item, value) (Generator.mem_withValues_iff.2 ⟨ofValued, hasValue⟩)
    obtain ⟨bytes, encoded, _⟩ := Except.bind_eq_ok_iff.1 built
    exact (each item (List.mem_filter.1 ofValued).1 value hasValue).1 ⟨bytes, encoded⟩
  · rintro ascii ⟨item, value⟩ member
    obtain ⟨ofValued, hasValue⟩ := Generator.mem_withValues_iff.1 member
    have listed := (List.mem_filter.1 ofValued).1
    obtain ⟨bytes, encoded⟩ :=
      (each item listed value hasValue).2 (ascii item ofValued value hasValue)
    exact ⟨_, Except.bind_eq_ok_iff.2 ⟨bytes, encoded, rfl⟩⟩

/-- A group that knows an item of one character, and has been told which. -/
def toldChar (code : UInt8) : Group :=
  let descriptor : Descriptor :=
    ⟨0x1000, "mark", "", [], .records [{ kind := .char, bits := 8 }]⟩
  ((empty.insert descriptor none).update ⟨1, .standard, [⟨0x1000, true, [0, 0, 0, 0, code]⟩]⟩).1

theorem reached_toldChar (code : UInt8) : (toldChar code).Reached :=
  .update (.add .empty (add_eq_ok_iff.2 ⟨by simp, rfl⟩))

/-- A letter is put into a heap again. -/
theorem Reached.encode_iff_isAscii_letter :
    let generator : Generator := { flavour := .standard }
    ∃ carriers,
      (Generator.withValues (generator.valued (toldChar 0x61) .stale)).mapM
        (fun entry => Generator.valueItem entry.1 entry.2) = .ok carriers := by
  intro generator
  apply ((reached_toldChar 0x61).encode_iff_isAscii.2 _ _).2
  intro item selected value hasValue
  have held : (toldChar 0x61).toList.map Item.value = [some ⟨[], .records [[.char 'a']]⟩] := by
    decide +kernel
  have member := List.mem_map_of_mem (f := Item.value) (List.mem_filter.1 selected).1
  rw [held, List.mem_singleton, hasValue, Option.some_inj] at member
  subst member
  simp [Value.IsAscii, Scalar.IsAscii]

/-- Not every value of a group can be sent again: one byte beyond ASCII is read as a character that
has no encoding. -/
theorem not_forall_reached_encode :
    ¬ ∀ group : Group, group.Reached → ∀ item ∈ group.toList, ∀ value, item.value = some value →
      ∃ bytes, value.encode item.descriptor = .ok bytes := by
  intro always
  have held : (toldChar 0xff).toList =
      [⟨⟨0x1000, "mark", "", [], .records [{ kind := .char, bits := 8 }]⟩,
        some ⟨[], .records [[.char 'ÿ']]⟩, 1, 2⟩] := by
    decide +kernel
  obtain ⟨bytes, encoded⟩ :=
    always _ (reached_toldChar 0xff) _ (by rw [held]; exact List.mem_cons_self) _ rfl
  have ascii := Value.isAscii_of_encode encoded
  simp [Value.IsAscii, Scalar.IsAscii] at ascii

end Group

end Spead
