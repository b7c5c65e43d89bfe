import Spead.Proofs.Group.InPlace
import Spead.Proofs.Relay

/-!
Groups whose parts fit together.

Items, names and stamps are kept in step by every change. A change gives new stamps to one item at
most, and they are later than all that the group has, so that no two stamps are alike.
-/

namespace Spead

/-- The stamps of an item, without the zero of a value that was never set. -/
def Item.stamps (item : Item) : List Nat :=
  [item.descriptorStamp, item.valueStamp].filter (· ≠ 0)

theorem Item.mem_stamps {item : Item} {stamp : Nat} :
    stamp ∈ item.stamps ↔
      stamp ≠ 0 ∧ (stamp = item.descriptorStamp ∨ stamp = item.valueStamp) := by
  simp only [stamps, List.mem_filter, List.mem_cons, List.not_mem_nil, or_false, decide_eq_true_eq]
  exact and_comm

theorem Item.Stamped.le_of_mem_stamps
    {latest stamp : Nat} {item : Item} (stamped : item.Stamped latest)
    (member : stamp ∈ item.stamps) : stamp ≤ latest := by
  rcases (Item.mem_stamps.1 member).2 with rfl | rfl
  · exact stamped.descriptor_le
  · exact stamped.value_le

theorem Item.Stamped.nodup_stamps
    {latest : Nat} {item : Item} (stamped : item.Stamped latest)
    (valued : item.valueStamp = 0 ↔ item.value = none) : item.stamps.Nodup := by
  apply List.Nodup.filter
  rw [List.nodup_cons, List.mem_singleton]
  refine ⟨?_, List.nodup_singleton _⟩
  intro same
  cases value : item.value with
  | none =>
      have := stamped.descriptor_pos
      have := valued.2 value
      omega
  | some content =>
      have := stamped.descriptor_lt_value content value
      omega

namespace Group

/-! ## Stamps of different items -/

/-- No two items have a stamp in common, and a value has a stamp from the time it is set. -/
structure StampedApart (group : Group) : Prop where
  valued : ∀ id item, group.get? id = some item → (item.valueStamp = 0 ↔ item.value = none)
  apart : ∀ id other item otherItem, group.get? id = some item →
    group.get? other = some otherItem → id ≠ other → item.stamps.Disjoint otherItem.stamps

theorem stampedApart_empty : empty.StampedApart where
  valued := by simp [empty, get?]
  apart := by simp [empty, get?]

/-- Of the items of a later group only one has stamps that are new. -/
structure Restamps (group next : Group) (changed : Nat) : Prop where
  kept : ∀ id item, next.get? id = some item → id ≠ changed → group.get? id = some item
  valued : ∀ item, next.get? changed = some item → (item.valueStamp = 0 ↔ item.value = none)
  renewed : ∀ item, next.get? changed = some item → ∀ stamp ∈ item.stamps,
    group.stamp < stamp ∨ ∃ old, group.get? changed = some old ∧ stamp ∈ old.stamps

theorem StampedApart.of_restamps
    {group next : Group} (sound : group.Sound) (stampedApart : group.StampedApart) {changed : Nat}
    (restamps : group.Restamps next changed) : next.StampedApart where
  valued := by
    intro id item found
    by_cases same : id = changed
    · subst same
      exact restamps.valued item found
    · exact stampedApart.valued id item (restamps.kept id item found same)
  apart := by
    -- A new stamp is later than those of all other items; an old one has been this item's before.
    have disjoint (other : Nat) (item otherItem : Item) (found : next.get? changed = some item)
        (foundOther : next.get? other = some otherItem) (different : changed ≠ other) :
        item.stamps.Disjoint otherItem.stamps := by
      have keptOther := restamps.kept other otherItem foundOther (Ne.symm different)
      intro stamp member memberOther
      rcases restamps.renewed item found stamp member with new | ⟨old, foundOld, memberOld⟩
      · have early := (sound.stamped other otherItem keptOther).le_of_mem_stamps memberOther
        omega
      · exact stampedApart.apart changed other old otherItem foundOld keptOther different
          memberOld memberOther
    intro id other item otherItem found foundOther different
    by_cases first : id = changed
    · subst first
      exact disjoint other item otherItem found foundOther different
    · by_cases second : other = changed
      · subst second
        exact (disjoint id otherItem item foundOther found (Ne.symm different)).symm
      · exact stampedApart.apart id other item otherItem (restamps.kept id item found first)
          (restamps.kept other otherItem foundOther second) different

theorem restamps_insert (group : Group) (descriptor : Descriptor) (value : Option Value) :
    group.Restamps (group.insert descriptor value) descriptor.id where
  kept := by
    intro id item found different
    rcases get?_insert_eq_some found with ⟨same, _⟩ | ⟨_, _, kept⟩
    · exact absurd same different
    · exact kept
  valued := by
    intro item found
    rw [get?_insert, if_pos rfl, Option.some_inj] at found
    subst found
    cases value with
    | none => simp [inserted]
    | some content => simp [inserted]
  renewed := by
    intro item found stamp member
    rw [get?_insert, if_pos rfl, Option.some_inj] at found
    subst found
    left
    obtain ⟨positive, ofDescriptor | ofValue⟩ := Item.mem_stamps.1 member
    · simp only [inserted] at ofDescriptor
      omega
    · simp only [inserted] at ofValue
      split at ofValue
      · omega
      · exact absurd ofValue positive

theorem restamps_store
    {group : Group} {item : Item} (found : group.get? item.descriptor.id = some item)
    (value : Value) : group.Restamps (group.store item value) item.descriptor.id where
  kept := by
    intro id other held different
    rcases get?_store_eq_some held with ⟨same, _⟩ | ⟨_, kept⟩
    · exact absurd same different
    · exact kept
  valued := by
    intro other held
    rw [get?_store, if_pos rfl, Option.some_inj] at held
    subst held
    simp [stored]
  renewed := by
    intro other held stamp member
    rw [get?_store, if_pos rfl, Option.some_inj] at held
    subst held
    obtain ⟨positive, ofDescriptor | ofValue⟩ := Item.mem_stamps.1 member
    · exact Or.inr ⟨item, found, Item.mem_stamps.2 ⟨positive, Or.inl ofDescriptor⟩⟩
    · simp only [stored] at ofValue
      omega

theorem StampedApart.remove
    {group : Group} (stampedApart : group.StampedApart) (id : Nat) :
    (group.remove id).StampedApart where
  valued := fun other item found => stampedApart.valued other item (get?_remove_eq_some found).2
  apart := fun first second item other found foundOther =>
    stampedApart.apart first second item other (get?_remove_eq_some found).2
      (get?_remove_eq_some foundOther).2

/-! ## What survives every call -/

section Survival

variable {holds : Group → Prop}
  (insert : ∀ group descriptor value, group.Sound → holds group →
    holds (group.insert descriptor value))
  (store : ∀ group item value, group.Sound → group.get? item.descriptor.id = some item →
    holds group → holds (group.store item value))
  (remove : ∀ group id, group.Sound → holds group → holds (group.remove id))

include insert store remove

/-- What survives new items, new values and the loss of items survives every call. -/
theorem Call.survives
    {call : Call} {group next : Group} (changed : call.change group = .ok next)
    (sound : group.Sound) (before : holds group) : holds next := by
  have storeFound {now : Group} {id : Nat} {item : Item} (value : Value) (sound : now.Sound)
      (found : now.get? id = some item) (before : holds now) : holds (now.store item value) :=
    store now item value sound (sound.get?_own_id found) before
  cases call with
  | add descriptor value =>
      rw [(add_eq_ok_iff.1 changed).2]
      exact insert group descriptor value sound before
  | setValue id value =>
      obtain ⟨item, found, _, rfl⟩ := setValue_eq_ok_iff.1 changed
      exact storeFound value sound found before
  | setValueByName name value =>
      obtain ⟨_, _, setById⟩ := setValueByName_eq_ok_iff.1 changed
      obtain ⟨item, found, _, rfl⟩ := setValue_eq_ok_iff.1 setById
      exact storeFound value sound found before
  | remove id =>
      cases changed
      exact remove group id sound before
  | update heap =>
      cases changed
      have both : (group.update heap).1.Sound ∧ holds (group.update heap).1 := by
        refine @update_induction (fun now => now.Sound ∧ holds now) ?insert ?store group
          ⟨sound, before⟩ heap
        case insert =>
          intro now descriptor steady
          exact ⟨steady.1.insert descriptor none, insert now descriptor none steady.1 steady.2⟩
        case store =>
          intro now _ item _ value steady found _
          exact ⟨steady.1.store (steady.1.get?_own_id found) value,
            storeFound value steady.1 found steady.2⟩
      exact both.2

/-- What survives every call holds of every group, if it holds of the empty one. -/
theorem Reached.induction
    (start : holds Group.empty) {group : Group} (reached : group.Reached) : holds group := by
  have survives (call : Call) {group next : Group} (before : group.Reached)
      (changed : call.change group = .ok next) (ofGroup : holds group) : holds next :=
    Call.survives insert store remove changed before.sound ofGroup
  induction reached with
  | empty => exact start
  | @add _ _ descriptor value before added inductionHypothesis =>
      exact survives (.add descriptor value) before added inductionHypothesis
  | @setValue _ _ id value before set inductionHypothesis =>
      exact survives (.setValue id value) before set inductionHypothesis
  | @setValueByName _ _ name value before set inductionHypothesis =>
      exact survives (.setValueByName name value) before set inductionHypothesis
  | @remove _ id before inductionHypothesis =>
      exact survives (.remove id) before rfl inductionHypothesis
  | @update _ heap before inductionHypothesis =>
      exact survives (.update heap) before rfl inductionHypothesis

end Survival

theorem Reached.stampedApart {group : Group} (reached : group.Reached) : group.StampedApart := by
  refine Reached.induction ?insert ?store ?remove stampedApart_empty reached
  case insert =>
    intro now descriptor value sound before
    exact before.of_restamps sound (restamps_insert now descriptor value)
  case store =>
    intro now item value sound found before
    exact before.of_restamps sound (restamps_store found value)
  case remove => exact fun now id _ before => before.remove id

/-! ## Groups as a whole -/

/-- Items are kept under their ids, the names are those of the items, and every stamp tells one
change from all others. -/
structure Consistent (group : Group) : Prop where
  keyed : ∀ id item, group.get? id = some item → item.descriptor.id = id
  indexed : ∀ name id, group.names.get? name = some id ↔
    ∃ item, group.get? id = some item ∧ item.descriptor.name = name
  nodup_names : (group.toList.map fun item => item.descriptor.name).Nodup
  find?_iff : ∀ name item, group.find? name = some item ↔
    item ∈ group.toList ∧ item.descriptor.name = name
  stamped : ∀ item ∈ group.toList,
    0 < item.descriptorStamp ∧ (item.valueStamp = 0 ↔ item.value = none) ∧
      (item.value ≠ none → item.descriptorStamp < item.valueStamp)
  nodup_stamps : (group.toList.flatMap Item.stamps).Nodup
  stamps_le : ∀ stamp ∈ group.toList.flatMap Item.stamps, stamp ≤ group.stamp

theorem Sound.find?_eq_some_iff
    {group : Group} (sound : group.Sound) (name : String) (item : Item) :
    group.find? name = some item ↔ item ∈ group.toList ∧ item.descriptor.name = name := by
  unfold find?
  rw [Option.bind_eq_bind, Option.bind_eq_some_iff, sound.mem_toList_iff]
  constructor
  · intro located
    obtain ⟨id, named, found⟩ := located
    obtain ⟨held, foundHeld, heldName⟩ := (sound.named name id).1 named
    rw [found, Option.some_inj] at foundHeld
    subst foundHeld
    exact ⟨sound.get?_own_id found, heldName⟩
  · intro listed
    exact ⟨item.descriptor.id, (sound.named name _).2 ⟨item, listed⟩, listed.1⟩

theorem Sound.consistent
    {group : Group} (sound : group.Sound) (stampedApart : group.StampedApart) :
    group.Consistent := by
  have found {item : Item} (member : item ∈ group.toList) :
      group.get? item.descriptor.id = some item :=
    (sound.mem_toList_iff item).1 member
  have distinct := List.pairwise_map.1 sound.nodup_ids
  constructor
  case keyed => exact sound.keyed
  case indexed => exact sound.named
  case nodup_names =>
    apply List.pairwise_map.2
    apply distinct.imp_of_mem
    intro item other member memberOther different same
    exact different (sound.id_eq_of_name (found member) (found memberOther) same)
  case find?_iff => exact sound.find?_eq_some_iff
  case stamped =>
    intro item member
    have stamped := sound.stamped _ item (found member)
    refine ⟨stamped.descriptor_pos, stampedApart.valued _ item (found member), ?_⟩
    intro hasValue
    obtain ⟨value, isValue⟩ := Option.ne_none_iff_exists'.1 hasValue
    exact stamped.descriptor_lt_value value isValue
  case nodup_stamps =>
    rw [List.nodup_flatMap]
    constructor
    · intro item member
      exact (sound.stamped _ item (found member)).nodup_stamps
        (stampedApart.valued _ item (found member))
    · apply distinct.imp_of_mem
      intro item other member memberOther different
      exact stampedApart.apart _ _ item other (found member) (found memberOther) different
  case stamps_le =>
    intro stamp member
    obtain ⟨item, listed, ofItem⟩ := List.mem_flatMap.1 member
    exact (sound.stamped _ item (found listed)).le_of_mem_stamps ofItem

/-! ## Groups under calls -/

/-- The item that holds the name of a new one goes, unless it has the id of the new one and is
replaced. -/
theorem Sound.get?_insert_eq_filter
    {group : Group} (sound : group.Sound) (descriptor : Descriptor) (value : Option Value)
    (id : Nat) :
    (group.insert descriptor value).get? id =
      if id = descriptor.id then
        some (group.inserted descriptor value)
      else
        (group.get? id).filter fun item => item.descriptor.name ≠ descriptor.name := by
  rw [get?_insert]
  by_cases same : id = descriptor.id
  · rw [if_pos same, if_pos same]
  · rw [if_neg same, if_neg same]
    cases found : group.get? id with
    | none => simp
    | some item =>
        have held : group.names.get? descriptor.name = some id ↔
            item.descriptor.name = descriptor.name := by
          rw [sound.named, found]
          simp
        by_cases taken : item.descriptor.name = descriptor.name
        · rw [if_pos (held.2 taken)]
          simp [Option.filter_some, taken]
        · rw [if_neg (fun holds => taken (held.1 holds))]
          simp [Option.filter_some, taken]

theorem Call.stamp_le_of_change
    {call : Call} {group next : Group} (sound : group.Sound)
    (changed : call.change group = .ok next) : group.stamp ≤ next.stamp := by
  refine @Call.survives (fun now => group.stamp ≤ now.stamp) ?insert ?store ?remove call group next
    changed sound (Nat.le_refl _)
  case insert =>
    intro now descriptor value _ before
    exact Nat.le_trans before (stamp_le_stamp_insert now descriptor value)
  case store => exact fun _ _ _ _ _ before => Nat.le_succ_of_le before
  case remove =>
    intro now id _ before
    rwa [show (now.remove id).stamp = now.stamp from stamp_forgetName now id]

theorem Call.reached_leaves {group : Group} (reached : group.Reached) (call : Call) :
    (call.leaves group).Reached := by
  rcases call.leaves_eq group with ⟨_, _, same⟩ | changed
  · rwa [same]
  · cases call with
    | add => exact .add reached changed
    | setValue => exact .setValue reached changed
    | setValueByName => exact .setValueByName reached changed
    | remove =>
        rw [← Except.ok.inj changed]
        exact .remove reached
    | update =>
        rw [← Except.ok.inj changed]
        exact .update reached

theorem reached_afterCalls (calls : List Call) : (afterCalls calls).Reached := by
  unfold afterCalls
  induction calls using List.reverseRecOn with
  | nil => exact .empty
  | append_singleton earlier call inductionHypothesis =>
      rw [List.foldl_append]
      exact Call.reached_leaves inductionHypothesis call

/-- Whatever is called for, the parts of a group fit together and its counter does not go back. A
call that fails changes nothing, and a new item drives out only the item with its name. -/
theorem consistent_afterCalls (calls : List Call) :
    let group := afterCalls calls
    group.Consistent ∧
      (∀ call : Call, group.stamp ≤ (call.leaves group).stamp) ∧
      (∀ (call : Call) cause next, call.perform.run group = .error cause next → next = group) ∧
      ∀ descriptor value item next,
        (addInPlace descriptor value).run group = .ok item next →
          item.descriptor = descriptor ∧ item.value = value ∧
            ∀ id, next.get? id =
              if id = descriptor.id then some item
              else (group.get? id).filter fun other => other.descriptor.name ≠ descriptor.name := by
  intro group
  have reached : group.Reached := reached_afterCalls calls
  refine ⟨reached.sound.consistent reached.stampedApart, ?_, ?_, ?_⟩
  · intro call
    rcases call.leaves_eq group with ⟨_, _, same⟩ | changed
    · rw [same]
    · exact Call.stamp_le_of_change reached.sound changed
  · intro call cause next failed
    exact Call.eq_of_perform_eq_error failed
  · intro descriptor value item next added
    obtain ⟨rfl, rfl⟩ := addInPlace_eq_ok added
    exact ⟨rfl, rfl, reached.sound.get?_insert_eq_filter descriptor value⟩

/-- A name is taken over, after a call that fails. -/
theorem consistent_afterCalls_taking_over :
    let level (id : Nat) : Descriptor :=
      ⟨id, "level", "", [], .records [{ kind := .bool, bits := 1 }]⟩
    let calls : List Call :=
      [.add (level 0x1000) none, .setValue 0x2000 (.record [.bool true])]
    (afterCalls calls).get? 0x1000 = some ⟨level 0x1000, none, 1, 0⟩ ∧
      ∃ item next, (addInPlace (level 0x1001) none).run (afterCalls calls) = .ok item next ∧
        next.get? 0x1000 = none ∧ next.get? 0x1001 = some item := by
  intro level calls
  obtain ⟨_, _, _, adds⟩ := consistent_afterCalls calls
  have before : (afterCalls calls).get? 0x1000 = some ⟨level 0x1000, none, 1, 0⟩ := by
    decide +kernel
  have added :
      (addInPlace (level 0x1001) none).run (afterCalls calls) =
        .ok ((afterCalls calls).inserted (level 0x1001) none)
          ((afterCalls calls).insert (level 0x1001) none) := by
    rw [run_addInPlace, atomically_eq_ok_iff, Except.map_eq_ok_iff]
    exact ⟨_, add_eq_ok_iff.2 ⟨by simp, rfl⟩, rfl⟩
  obtain ⟨_, _, found⟩ := adds _ _ _ _ added
  refine ⟨before, _, _, added, ?_, ?_⟩
  · rw [found, before]
    simp [level, Option.filter_some]
  · rw [found]
    simp [level]

end Group
end Spead
