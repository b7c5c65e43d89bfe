import Spead.Group.Basic
import Spead.Proofs.Except
import Spead.Proofs.Table

/-!
Groups under changes.

Every item is kept under its own id, the names are those of the items, and no change is stamped
later than the latest stamp. All changes of a group keep this up, and leave the items alone that
have neither the id nor the name in question.
-/

namespace Spead

/-- The stamps of an item come one after the other, and none after the latest. -/
structure Item.Stamped (latest : Nat) (item : Item) : Prop where
  descriptor_pos : 0 < item.descriptorStamp
  descriptor_le : item.descriptorStamp ≤ latest
  descriptor_lt_value : ∀ value, item.value = some value → item.descriptorStamp < item.valueStamp
  value_le : item.valueStamp ≤ latest

theorem Item.Stamped.mono
    {earlier later : Nat} {item : Item} (stamped : item.Stamped earlier)
    (order : earlier ≤ later) :
    item.Stamped later where
  descriptor_pos := stamped.descriptor_pos
  descriptor_le := Nat.le_trans stamped.descriptor_le order
  descriptor_lt_value := stamped.descriptor_lt_value
  value_le := Nat.le_trans stamped.value_le order

namespace Group

/-- Items and names belong together. -/
structure Sound (group : Group) : Prop where
  ascending : group.items.Ascending
  keyed : ∀ id item, group.get? id = some item → item.descriptor.id = id
  named : ∀ name id, group.names.get? name = some id ↔
    ∃ item, group.get? id = some item ∧ item.descriptor.name = name
  stamped : ∀ id item, group.get? id = some item → item.Stamped group.stamp

theorem sound_empty : empty.Sound where
  ascending := Table.ascending_empty
  keyed := by simp [empty, get?]
  named := by simp [empty, get?]
  stamped := by simp [empty, get?]

section Sound

variable {group : Group}

/-- Items with the same name are the same. -/
theorem Sound.id_eq_of_name
    (sound : group.Sound) {id other : Nat} {item otherItem : Item}
    (found : group.get? id = some item) (foundOther : group.get? other = some otherItem)
    (same : item.descriptor.name = otherItem.descriptor.name) :
    id = other := by
  have first := (sound.named item.descriptor.name id).2 ⟨item, found, rfl⟩
  have second := (sound.named item.descriptor.name other).2 ⟨otherItem, foundOther, same.symm⟩
  rw [first] at second
  exact Option.some.inj second

theorem Sound.get?_own_id
    (sound : group.Sound) {id : Nat} {item : Item} (found : group.get? id = some item) :
    group.get? item.descriptor.id = some item := by
  rw [sound.keyed id item found, found]

theorem Sound.name_ne
    (sound : group.Sound) {id : Nat} {item : Item} (found : group.get? id = some item)
    {name : String} (different : item.descriptor.name ≠ name) :
    group.names.get? name ≠ some id := by
  intro held
  obtain ⟨holder, foundHolder, holderName⟩ := (sound.named name id).1 held
  rw [found, Option.some_inj] at foundHolder
  subst foundHolder
  exact different holderName

theorem Sound.mem_toList_iff (sound : group.Sound) (item : Item) :
    item ∈ group.toList ↔ group.get? item.descriptor.id = some item := by
  rw [toList, Table.mem_values_iff sound.ascending]
  constructor
  · rintro ⟨id, found⟩
    rwa [sound.keyed id item found]
  · intro found
    exact ⟨item.descriptor.id, found⟩

theorem Sound.ids_toList (sound : group.Sound) :
    (group.toList.map fun item => item.descriptor.id) = group.items.keys := by
  unfold toList Table.values Table.keys
  rw [List.map_map]
  apply List.map_congr_left
  intro entry member
  exact sound.keyed _ _ ((Table.get?_eq_some_iff sound.ascending _ _).2 member)

theorem Sound.nodup_ids (sound : group.Sound) :
    (group.toList.map fun item => item.descriptor.id).Nodup := by
  rw [sound.ids_toList]
  exact Table.nodup_keys sound.ascending

end Sound

/-! ## Putting items into a group -/

section Insert

variable (group : Group) (descriptor : Descriptor) (value : Option Value)

def inserted : Item where
  descriptor := descriptor
  value := value
  descriptorStamp := group.stamp + 1
  valueStamp := if value.isSome then group.stamp + 2 else 0

/-- The item that holds the name has another id and goes. -/
theorem items_releaseName (id : Nat) (name : String) :
    (group.releaseName id name).items =
      match group.names.get? name with
      | some holder => if holder = id then group.items else group.items.erase holder
      | none => group.items := by
  unfold releaseName
  cases group.names.get? name with
  | none => rfl
  | some holder =>
      by_cases same : holder = id
      · simp [same]
      · simp [same]

theorem names_releaseName (id : Nat) (name : String) :
    (group.releaseName id name).names = group.names := by
  unfold releaseName
  split
  · split <;> rfl
  · rfl

theorem stamp_releaseName (id : Nat) (name : String) :
    (group.releaseName id name).stamp = group.stamp := by
  unfold releaseName
  split
  · split <;> rfl
  · rfl

theorem items_forgetName (id : Nat) : (group.forgetName id).items = group.items := by
  unfold forgetName
  split <;> rfl

theorem stamp_forgetName (id : Nat) : (group.forgetName id).stamp = group.stamp := by
  unfold forgetName
  split <;> rfl

/-- Only the name of the item with the id is forgotten. -/
theorem get?_names_forgetName (id : Nat) (name : String) :
    (group.forgetName id).names.get? name =
      if (group.get? id).any fun item => item.descriptor.name = name then
        none
      else
        group.names.get? name := by
  unfold forgetName
  cases group.get? id with
  | none => rfl
  | some item =>
      rw [Table.get?_erase]
      by_cases same : name = item.descriptor.name
      · simp [same]
      · simp [same, Ne.symm same]

theorem get?_releaseName_of_ne {id other : Nat} (name : String) (different : other ≠ id) :
    (group.releaseName id name).get? other =
      if group.names.get? name = some other then none else group.get? other := by
  unfold get?
  rw [items_releaseName]
  cases held : group.names.get? name with
  | none => simp
  | some holder =>
      by_cases same : holder = id
      · simp [same, Ne.symm different]
      · simp only [if_neg same, Table.get?_erase, Option.some_inj, eq_comm (a := other)]

theorem get?_releaseName_self (id : Nat) (name : String) :
    (group.releaseName id name).get? id = group.get? id := by
  unfold get?
  rw [items_releaseName]
  cases group.names.get? name with
  | none => rfl
  | some holder =>
      by_cases same : holder = id
      · simp [same]
      · simp only [if_neg same]
        exact Table.get?_erase_of_ne _ (Ne.symm same)

theorem stamp_insert :
    (group.insert descriptor value).stamp =
      if value.isSome then group.stamp + 2 else group.stamp + 1 := by
  simp only [insert, stamp_forgetName, stamp_releaseName]
  split
  · omega
  · omega

/-- An item replaces the one with its id and the one with its name. -/
theorem get?_insert (id : Nat) :
    (group.insert descriptor value).get? id =
      if id = descriptor.id then
        some (group.inserted descriptor value)
      else if group.names.get? descriptor.name = some id then
        none
      else
        group.get? id := by
  have released (different : id ≠ descriptor.id) :=
    group.get?_releaseName_of_ne descriptor.name different
  unfold get? at released ⊢
  simp only [insert, stamp_forgetName, stamp_releaseName, items_forgetName, Table.get?_put]
  by_cases same : id = descriptor.id
  · simp [same, inserted]
  · rw [if_neg same, if_neg same, released same]

theorem get?_names_insert (name : String) :
    (group.insert descriptor value).names.get? name =
      if name = descriptor.name then
        some descriptor.id
      else
        (group.forgetName descriptor.id).names.get? name := by
  simp only [insert, Table.get?_put, get?_names_forgetName, get?_releaseName_self,
    names_releaseName]

end Insert

theorem stamped_inserted (group : Group) (descriptor : Descriptor) (value : Option Value) :
    (group.inserted descriptor value).Stamped (group.insert descriptor value).stamp where
  descriptor_pos := Nat.succ_pos _
  descriptor_le := by
    rw [stamp_insert]
    simp only [inserted]
    split <;> omega
  descriptor_lt_value := by
    rintro content rfl
    simp [inserted]
  value_le := by
    rw [stamp_insert]
    simp only [inserted]
    split <;> omega

theorem stamp_le_stamp_insert (group : Group) (descriptor : Descriptor) (value : Option Value) :
    group.stamp ≤ (group.insert descriptor value).stamp := by
  rw [stamp_insert]
  split <;> omega

/-- What has been in the group and is still there has not changed. -/
theorem get?_insert_eq_some
    {group : Group} {descriptor : Descriptor} {value : Option Value} {id : Nat} {item : Item}
    (found : (group.insert descriptor value).get? id = some item) :
    (id = descriptor.id ∧ item = group.inserted descriptor value) ∨
      (id ≠ descriptor.id ∧ group.names.get? descriptor.name ≠ some id ∧
        group.get? id = some item) := by
  rw [get?_insert] at found
  by_cases same : id = descriptor.id
  · rw [if_pos same, Option.some_inj] at found
    exact Or.inl ⟨same, found.symm⟩
  · rw [if_neg same] at found
    by_cases replaced : group.names.get? descriptor.name = some id
    · rw [if_pos replaced] at found
      cases found
    · rw [if_neg replaced] at found
      exact Or.inr ⟨same, replaced, found⟩

/-- Once the name of an item is forgotten, the names are those of the other items. -/
theorem Sound.named_forgetName
    {group : Group} (sound : group.Sound) (gone : Nat) (name : String) (id : Nat) :
    (group.forgetName gone).names.get? name = some id ↔
      id ≠ gone ∧ ∃ item, group.get? id = some item ∧ item.descriptor.name = name := by
  rw [get?_names_forgetName]
  by_cases forgotten : (group.get? gone).any fun item => item.descriptor.name = name
  · rw [if_pos forgotten]
    rw [Option.any_eq_true] at forgotten
    obtain ⟨old, holds, oldName⟩ := forgotten
    constructor
    · rintro ⟨⟩
    · rintro ⟨different, item, found, same⟩
      have sameName : item.descriptor.name = old.descriptor.name :=
        same.trans (of_decide_eq_true oldName).symm
      exact absurd (sound.id_eq_of_name found holds sameName) different
  · rw [if_neg forgotten, sound.named]
    constructor
    · rintro ⟨item, found, same⟩
      refine ⟨?_, item, found, same⟩
      rintro rfl
      apply forgotten
      simp [found, same]
    · exact And.right

theorem Sound.named_insert
    {group : Group} (sound : group.Sound) (descriptor : Descriptor) (value : Option Value)
    (name : String) (id : Nat) :
    (group.insert descriptor value).names.get? name = some id ↔
      ∃ item, (group.insert descriptor value).get? id = some item ∧
        item.descriptor.name = name := by
  rw [get?_names_insert]
  by_cases new : name = descriptor.name
  · subst new
    rw [if_pos rfl]
    constructor
    · rintro ⟨⟩
      exact ⟨_, by rw [get?_insert, if_pos rfl], rfl⟩
    · rintro ⟨item, found, same⟩
      rcases get?_insert_eq_some found with ⟨rfl, _⟩ | ⟨_, free, kept⟩
      · rfl
      · exact absurd ((sound.named _ _).2 ⟨item, kept, same⟩) free
  · rw [if_neg new, sound.named_forgetName]
    constructor
    · rintro ⟨different, item, found, same⟩
      -- The item replaced because of its name has the new name, and so it is not this one.
      have free : group.names.get? descriptor.name ≠ some id := by
        apply sound.name_ne found
        rw [same]
        exact new
      refine ⟨item, ?_, same⟩
      rw [get?_insert, if_neg different, if_neg free, found]
    · rintro ⟨item, found, same⟩
      rcases get?_insert_eq_some found with ⟨_, rfl⟩ | ⟨different, _, kept⟩
      · exact absurd same.symm new
      · exact ⟨different, item, kept, same⟩

theorem Sound.insert
    {group : Group} (sound : group.Sound) (descriptor : Descriptor) (value : Option Value) :
    (group.insert descriptor value).Sound := by
  constructor
  case ascending =>
    have released : (group.releaseName descriptor.id descriptor.name).items.Ascending := by
      rw [items_releaseName]
      split
      · split
        · exact sound.ascending
        · exact Table.ascending_erase sound.ascending _
      · exact sound.ascending
    simp only [Group.insert, items_forgetName]
    exact Table.ascending_put released _ _
  case keyed =>
    intro id item found
    rcases get?_insert_eq_some found with ⟨rfl, rfl⟩ | ⟨_, _, kept⟩
    · rfl
    · exact sound.keyed id item kept
  case named => exact sound.named_insert descriptor value
  case stamped =>
    intro id item found
    rcases get?_insert_eq_some found with ⟨rfl, rfl⟩ | ⟨_, _, kept⟩
    · exact stamped_inserted group descriptor value
    · exact (sound.stamped id item kept).mono (stamp_le_stamp_insert group descriptor value)

/-! ## Setting values -/

section Store

variable (group : Group) (item : Item) (value : Value)

def stored : Item :=
  { item with value := some value, valueStamp := group.stamp + 1 }

theorem get?_store (id : Nat) :
    (group.store item value).get? id =
      if id = item.descriptor.id then some (group.stored item value) else group.get? id := by
  unfold get? store
  rw [Table.get?_put]
  rfl

/-- What is found after a value has been stored is the item with the value, or has not changed. -/
theorem get?_store_eq_some
    {group : Group} {item found : Item} {value : Value} {id : Nat}
    (held : (group.store item value).get? id = some found) :
    (id = item.descriptor.id ∧ found = group.stored item value) ∨
      (id ≠ item.descriptor.id ∧ group.get? id = some found) := by
  rw [get?_store] at held
  by_cases same : id = item.descriptor.id
  · rw [if_pos same, Option.some_inj] at held
    exact Or.inl ⟨same, held.symm⟩
  · rw [if_neg same] at held
    exact Or.inr ⟨same, held⟩

theorem descriptor_get?_store
    (found : group.get? item.descriptor.id = some item) (id : Nat) :
    ((group.store item value).get? id).map Item.descriptor =
      (group.get? id).map Item.descriptor := by
  rw [get?_store]
  by_cases same : id = item.descriptor.id
  · rw [if_pos same, same, found]
    rfl
  · rw [if_neg same]

end Store

theorem Sound.store
    {group : Group} (sound : group.Sound) {item : Item}
    (found : group.get? item.descriptor.id = some item) (value : Value) :
    (group.store item value).Sound := by
  constructor
  case ascending => exact Table.ascending_put sound.ascending _ _
  case keyed =>
    intro id other foundOther
    rcases get?_store_eq_some foundOther with ⟨rfl, rfl⟩ | ⟨_, kept⟩
    · rfl
    · exact sound.keyed id other kept
  case named =>
    intro name id
    have held (now : Group) :
        (∃ other, now.get? id = some other ∧ other.descriptor.name = name) ↔
          ∃ descriptor, (now.get? id).map Item.descriptor = some descriptor ∧
            descriptor.name = name := by
      cases now.get? id with
      | none => simp
      | some other => simp
    rw [held, descriptor_get?_store group item value found, ← held]
    exact sound.named name id
  case stamped =>
    intro id other foundOther
    have stamped := sound.stamped _ _ found
    rcases get?_store_eq_some foundOther with ⟨_, rfl⟩ | ⟨_, kept⟩
    · constructor
      case descriptor_pos => exact stamped.descriptor_pos
      case descriptor_le => exact Nat.le_succ_of_le stamped.descriptor_le
      case descriptor_lt_value =>
        intro _ _
        exact Nat.lt_succ_of_le stamped.descriptor_le
      case value_le => exact Nat.le_refl _
    · exact (sound.stamped id other kept).mono (Nat.le_succ _)

/-! ## Taking items out of a group -/

theorem get?_remove (group : Group) (id other : Nat) :
    (group.remove id).get? other = if other = id then none else group.get? other := by
  unfold get? remove
  rw [Table.get?_erase, items_forgetName]

theorem get?_remove_eq_some
    {group : Group} {id other : Nat} {item : Item}
    (found : (group.remove id).get? other = some item) :
    other ≠ id ∧ group.get? other = some item := by
  rw [get?_remove] at found
  by_cases same : other = id
  · rw [if_pos same] at found
    cases found
  · rw [if_neg same] at found
    exact ⟨same, found⟩

theorem Sound.remove {group : Group} (sound : group.Sound) (id : Nat) :
    (group.remove id).Sound := by
  constructor
  case ascending =>
    simp only [Group.remove, items_forgetName]
    exact Table.ascending_erase sound.ascending id
  case keyed =>
    intro other item found
    exact sound.keyed other item (get?_remove_eq_some found).2
  case named =>
    intro name other
    have names : (group.remove id).names = (group.forgetName id).names := rfl
    rw [names, sound.named_forgetName]
    constructor
    · rintro ⟨different, item, found, same⟩
      refine ⟨item, ?_, same⟩
      rw [get?_remove, if_neg different, found]
    · rintro ⟨item, found, same⟩
      obtain ⟨different, foundBefore⟩ := get?_remove_eq_some found
      exact ⟨different, item, foundBefore, same⟩
  case stamped =>
    intro other item found
    have stamp : (group.remove id).stamp = group.stamp := stamp_forgetName group id
    rw [stamp]
    exact sound.stamped other item (get?_remove_eq_some found).2

/-! ## Later groups -/

/-- Between two groups there are only changes with new stamps: what has an old stamp is as it
was. -/
structure Later (group next : Group) : Prop where
  stamp_le : group.stamp ≤ next.stamp
  unchanged : ∀ id item, next.get? id = some item → item.descriptorStamp ≤ group.stamp →
    ∃ old, group.get? id = some old ∧ old.descriptor = item.descriptor ∧
      old.descriptorStamp = item.descriptorStamp ∧
      (item.valueStamp ≤ group.stamp → old = item)

theorem later_insert (group : Group) (descriptor : Descriptor) (value : Option Value) :
    group.Later (group.insert descriptor value) where
  stamp_le := stamp_le_stamp_insert group descriptor value
  unchanged := by
    intro id item found early
    rcases get?_insert_eq_some found with ⟨_, rfl⟩ | ⟨_, _, kept⟩
    · simp only [inserted] at early
      omega
    · exact ⟨item, kept, rfl, rfl, fun _ => rfl⟩

theorem later_store
    {group : Group} {item : Item} (found : group.get? item.descriptor.id = some item)
    (value : Value) :
    group.Later (group.store item value) where
  stamp_le := Nat.le_succ _
  unchanged := by
    intro id other held early
    rcases get?_store_eq_some held with ⟨rfl, rfl⟩ | ⟨_, kept⟩
    · refine ⟨item, found, rfl, rfl, ?_⟩
      intro stale
      simp only [stored] at stale
      omega
    · exact ⟨other, kept, rfl, rfl, fun _ => rfl⟩

theorem later_remove (group : Group) (id : Nat) : group.Later (group.remove id) where
  stamp_le := Nat.le_of_eq (stamp_forgetName group id).symm
  unchanged := by
    intro other item found _
    exact ⟨item, (get?_remove_eq_some found).2, rfl, rfl, fun _ => rfl⟩

/-! ## Changes of an application -/

section Changes

variable {group next : Group}

/-- An item is added if its value has an encoding. -/
theorem add_eq_ok_iff {descriptor : Descriptor} {value : Option Value} :
    group.add descriptor value = .ok next ↔
      (∀ content, value = some content → ∃ bytes, content.encode descriptor = .ok bytes) ∧
        next = group.insert descriptor value := by
  unfold add
  cases value with
  | none =>
      constructor
      · rintro ⟨⟩
        exact ⟨by simp, rfl⟩
      · rintro ⟨_, rfl⟩
        rfl
  | some content =>
      simp only [Except.bind_eq_ok_iff, Option.some_inj, forall_eq']
      constructor
      · rintro ⟨bytes, encoded, ⟨⟩⟩
        exact ⟨⟨bytes, encoded⟩, rfl⟩
      · rintro ⟨⟨bytes, encoded⟩, rfl⟩
        exact ⟨bytes, encoded, rfl⟩

/-- The value of an item is set if it has an encoding. -/
theorem setValue_eq_ok_iff {id : Nat} {value : Value} :
    group.setValue id value = .ok next ↔
      ∃ item, group.get? id = some item ∧ (∃ bytes, value.encode item.descriptor = .ok bytes) ∧
        next = group.store item value := by
  unfold setValue
  cases found : group.get? id with
  | none =>
      constructor
      · rintro ⟨⟩
      · rintro ⟨_, ⟨⟩, _⟩
  | some item =>
      simp only [Except.bind_eq_ok_iff, Option.some_inj, exists_eq_left']
      constructor
      · rintro ⟨bytes, encoded, ⟨⟩⟩
        exact ⟨⟨bytes, encoded⟩, rfl⟩
      · rintro ⟨⟨bytes, encoded⟩, rfl⟩
        exact ⟨bytes, encoded, rfl⟩

theorem setValueByName_eq_ok_iff {name : String} {value : Value} :
    group.setValueByName name value = .ok next ↔
      ∃ id, group.names.get? name = some id ∧ group.setValue id value = .ok next := by
  unfold setValueByName
  cases found : group.names.get? name with
  | none =>
      constructor
      · rintro ⟨⟩
      · rintro ⟨_, ⟨⟩, _⟩
  | some id => simp only [Option.some_inj, exists_eq_left']

end Changes

end Group
end Spead
