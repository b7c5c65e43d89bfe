import Spead.Table

/-!
Looking things up in tables.

`get?` is the view of a table: every operation is described by what it does to the values of
keys. Tables in ascending order of their keys hold every key once, so that the number of entries
is the number of keys.
-/

namespace Spead
namespace Table

section Lookup

variable {key value : Type} [DecidableEq key]

@[simp] theorem get?_nil (wanted : key) :
    (⟨[]⟩ : Table key value).get? wanted = none :=
  rfl

theorem get?_cons (entry : key × value) (rest : List (key × value)) (wanted : key) :
    (⟨entry :: rest⟩ : Table key value).get? wanted =
      if entry.1 = wanted then some entry.2 else (⟨rest⟩ : Table key value).get? wanted := by
  by_cases same : entry.1 = wanted
  · simp [get?, same]
  · simp [get?, same]

theorem contains_eq_isSome_get? (table : Table key value) (wanted : key) :
    table.contains wanted = (table.get? wanted).isSome := by
  rcases table with ⟨entries⟩
  induction entries with
  | nil => rfl
  | cons entry rest inductionHypothesis =>
      rw [get?_cons]
      by_cases same : entry.1 = wanted
      · simp [contains, same]
      · simpa [contains, same] using inductionHypothesis

theorem mem_entries_of_get?
    {table : Table key value} {wanted : key} {content : value}
    (found : table.get? wanted = some content) :
    (wanted, content) ∈ table.entries := by
  obtain ⟨entry, located, rfl⟩ := Option.map_eq_some_iff.1 found
  have same : entry.1 = wanted := by simpa using List.find?_some located
  have member := List.mem_of_find?_eq_some located
  rwa [← same]

/-- A table without the value of any key is empty. -/
theorem eq_empty_of_get?
    {table : Table key value} (absent : ∀ wanted, table.get? wanted = none) :
    table = {} := by
  rcases table with ⟨entries⟩
  cases entries with
  | nil => rfl
  | cons entry rest =>
      have first := absent entry.1
      rw [get?_cons, if_pos rfl] at first
      cases first

@[simp] theorem get?_erase_self (table : Table key value) (unwanted : key) :
    (table.erase unwanted).get? unwanted = none := by
  simp [get?, erase]

theorem get?_erase_of_ne
    (table : Table key value) {unwanted wanted : key} (different : wanted ≠ unwanted) :
    (table.erase unwanted).get? wanted = table.get? wanted := by
  rcases table with ⟨entries⟩
  induction entries with
  | nil => rfl
  | cons entry rest inductionHypothesis =>
      rw [get?_cons, ← inductionHypothesis]
      by_cases same : entry.1 = unwanted
      · have passed : entry.1 ≠ wanted := fun equal => different (equal.symm.trans same)
        rw [if_neg passed]
        simp [erase, same]
      · rw [← get?_cons]
        simp [erase, same]

theorem get?_erase (table : Table key value) (unwanted wanted : key) :
    (table.erase unwanted).get? wanted =
      if wanted = unwanted then none else table.get? wanted := by
  by_cases same : wanted = unwanted
  · subst same
    simp
  · rw [if_neg same, get?_erase_of_ne table same]

theorem get?_foldl_erase (table : Table key value) (unwanted : List key) (wanted : key) :
    (unwanted.foldl erase table).get? wanted =
      if wanted ∈ unwanted then none else table.get? wanted := by
  induction unwanted generalizing table with
  | nil => rfl
  | cons first rest inductionHypothesis =>
      rw [List.foldl_cons, inductionHypothesis, get?_erase]
      by_cases same : wanted = first
      · simp [same]
      · simp [same]

/-- A table loses an entry with each of its keys that is erased. -/
theorem length_entries_erase_lt
    {table : Table key value} {unwanted : key} {content : value}
    (found : table.get? unwanted = some content) :
    (table.erase unwanted).entries.length < table.entries.length := by
  rw [erase, List.length_filter_lt_length_iff_exists]
  exact ⟨(unwanted, content), mem_entries_of_get? found, by simp⟩

variable [LT key] [DecidableLT key]

/-- What is put under a key does not matter once the key is erased. -/
theorem erase_put (table : Table key value) (changed : key) (content : value) :
    (table.put changed content).erase changed = table.erase changed := by
  rcases table with ⟨entries⟩
  induction entries with
  | nil => simp [put, insertEntry, erase]
  | cons entry rest inductionHypothesis =>
      simp only [put, insertEntry, erase, Table.mk.injEq] at inductionHypothesis ⊢
      split
      · rw [List.filter_cons, List.filter_cons, inductionHypothesis]
      · split
        · next same => simp [same]
        · simp

theorem get?_put_of_ne
    (table : Table key value) {changed wanted : key} (content : value)
    (different : wanted ≠ changed) :
    (table.put changed content).get? wanted = table.get? wanted := by
  rcases table with ⟨entries⟩
  induction entries with
  | nil => simp [put, insertEntry, get?_cons, Ne.symm different]
  | cons entry rest inductionHypothesis =>
      simp only [put, insertEntry]
      split
      · rw [get?_cons, get?_cons, ← inductionHypothesis]
        rfl
      · split
        · next same =>
            have passed : entry.1 ≠ wanted := fun equal => different (equal.symm.trans same)
            rw [get?_cons, get?_cons, if_neg (Ne.symm different), if_neg passed]
        · rw [get?_cons, if_neg (Ne.symm different)]

variable [Std.Irrefl (α := key) (· < ·)]

@[simp] theorem get?_put_self (table : Table key value) (changed : key) (content : value) :
    (table.put changed content).get? changed = some content := by
  rcases table with ⟨entries⟩
  induction entries with
  | nil => simp [put, insertEntry, get?_cons]
  | cons entry rest inductionHypothesis =>
      simp only [put, insertEntry]
      split
      · next before =>
          have passed : entry.1 ≠ changed := by
            intro same
            rw [same] at before
            exact Std.Irrefl.irrefl changed before
          rw [get?_cons, if_neg passed]
          exact inductionHypothesis
      · split
        · rw [get?_cons, if_pos rfl]
        · rw [get?_cons, if_pos rfl]

theorem get?_put (table : Table key value) (changed wanted : key) (content : value) :
    (table.put changed content).get? wanted =
      if wanted = changed then some content else table.get? wanted := by
  by_cases same : wanted = changed
  · subst same
    simp
  · rw [if_neg same, get?_put_of_ne table content same]

end Lookup

/-! ## Tables in ascending order -/

section Order

variable {value : Type}

/-- Every key comes before the keys of all later entries. -/
def Ascending (table : Table Nat value) : Prop :=
  table.keys.Pairwise (· < ·)

theorem ascending_empty : Ascending ({} : Table Nat value) :=
  List.Pairwise.nil

theorem ascending_erase
    {table : Table Nat value} (ascending : table.Ascending) (unwanted : Nat) :
    (table.erase unwanted).Ascending :=
  ascending.sublist (List.filter_sublist.map Prod.fst)

theorem ascending_foldl_erase
    {table : Table Nat value} (ascending : table.Ascending) (unwanted : List Nat) :
    (unwanted.foldl erase table).Ascending := by
  induction unwanted generalizing table with
  | nil => exact ascending
  | cons first rest inductionHypothesis =>
      exact inductionHypothesis (ascending_erase ascending first)

/-- The keys of entries into which another one is put. -/
theorem mem_keys_insertEntry
    {entry : Nat × value} {entries : List (Nat × value)} {key : Nat}
    (member : key ∈ (insertEntry entry entries).map Prod.fst) :
    key = entry.1 ∨ key ∈ entries.map Prod.fst := by
  induction entries with
  | nil => simpa [insertEntry] using member
  | cons head tail inductionHypothesis =>
      simp only [insertEntry] at member
      split at member
      · simp only [List.map_cons, List.mem_cons] at member ⊢
        rcases member with same | later
        · exact Or.inr (Or.inl same)
        · rcases inductionHypothesis later with same | held
          · exact Or.inl same
          · exact Or.inr (Or.inr held)
      · split at member
        · simp only [List.map_cons, List.mem_cons] at member ⊢
          rcases member with same | later
          · exact Or.inl same
          · exact Or.inr (Or.inr later)
        · simpa using member

theorem ascending_put
    {table : Table Nat value} (ascending : table.Ascending) (changed : Nat) (content : value) :
    (table.put changed content).Ascending := by
  rcases table with ⟨entries⟩
  simp only [Ascending, keys, put] at ascending ⊢
  induction entries with
  | nil => simp [insertEntry]
  | cons head tail inductionHypothesis =>
      rw [List.map_cons, List.pairwise_cons] at ascending
      obtain ⟨first, rest⟩ := ascending
      simp only [insertEntry]
      split
      · next before =>
          rw [List.map_cons, List.pairwise_cons]
          refine ⟨?_, inductionHypothesis rest⟩
          intro key member
          rcases mem_keys_insertEntry member with rfl | held
          · exact before
          · exact first key held
      · split
        · next same =>
            rw [List.map_cons, List.pairwise_cons]
            exact ⟨fun key member => same ▸ first key member, rest⟩
        · next notBefore different =>
            have before : changed < head.1 := by omega
            rw [List.map_cons, List.pairwise_cons, List.map_cons, List.pairwise_cons]
            refine ⟨?_, first, rest⟩
            intro key member
            rcases List.mem_cons.1 member with rfl | later
            · exact before
            · exact Nat.lt_trans before (first key later)

theorem nodup_keys {table : Table Nat value} (ascending : table.Ascending) :
    table.keys.Nodup :=
  List.Pairwise.imp Nat.ne_of_lt ascending

theorem length_entries_eq_length_keys (table : Table Nat value) :
    table.entries.length = table.keys.length := by
  simp [keys]

theorem mem_keys_iff (table : Table Nat value) (key : Nat) :
    key ∈ table.keys ↔ (table.get? key).isSome := by
  rw [← contains_eq_isSome_get?]
  simp [keys, contains]

/-- Ascending tables with the same keys list them alike, up to order. -/
theorem perm_keys_of_get?
    {other : Type} {left : Table Nat value} {right : Table Nat other}
    (leftAscending : left.Ascending) (rightAscending : right.Ascending)
    (same : ∀ key, (left.get? key).isSome ↔ (right.get? key).isSome) :
    left.keys.Perm right.keys := by
  rw [List.perm_ext_iff_of_nodup (nodup_keys leftAscending) (nodup_keys rightAscending)]
  intro key
  rw [mem_keys_iff, mem_keys_iff, same]

/-- Putting another value under a key of a table leaves as many entries. -/
theorem length_entries_put_of_get?
    {table : Table Nat value} (ascending : table.Ascending) {changed : Nat} {held : value}
    (found : table.get? changed = some held) (content : value) :
    (table.put changed content).entries.length = table.entries.length := by
  rw [length_entries_eq_length_keys, length_entries_eq_length_keys]
  apply List.Perm.length_eq
  apply perm_keys_of_get? (ascending_put ascending changed content) ascending
  intro key
  rw [get?_put]
  split
  · next same => simp [same, found]
  · rfl

theorem length_entries_put_of_absent
    {table : Table Nat value} (ascending : table.Ascending) {changed : Nat}
    (absent : table.get? changed = none) (content : value) :
    (table.put changed content).entries.length = table.entries.length + 1 := by
  have outside : changed ∉ table.keys := by simp [mem_keys_iff, absent]
  have listed : (table.put changed content).keys.Perm (changed :: table.keys) := by
    rw [List.perm_ext_iff_of_nodup (nodup_keys (ascending_put ascending changed content))
      (List.nodup_cons.2 ⟨outside, nodup_keys ascending⟩)]
    intro key
    rw [List.mem_cons, mem_keys_iff, mem_keys_iff, get?_put]
    split
    · next same => simp [same]
    · next different => simp [different]
  rw [length_entries_eq_length_keys, length_entries_eq_length_keys, listed.length_eq,
    List.length_cons]

/-- In an ascending table an entry is found by its key. -/
theorem get?_eq_some_iff
    {table : Table Nat value} (ascending : table.Ascending) (key : Nat) (content : value) :
    table.get? key = some content ↔ (key, content) ∈ table.entries := by
  refine ⟨mem_entries_of_get?, ?_⟩
  rcases table with ⟨entries⟩
  simp only [Ascending, keys] at ascending
  intro member
  induction entries with
  | nil => cases member
  | cons head tail inductionHypothesis =>
      rw [List.map_cons, List.pairwise_cons] at ascending
      rw [get?_cons]
      rcases List.mem_cons.1 member with rfl | later
      · simp
      · have before : head.1 < key :=
          ascending.1 key (List.mem_map_of_mem (f := Prod.fst) later)
        rw [if_neg (Nat.ne_of_lt before)]
        exact inductionHypothesis ascending.2 later

theorem mem_values_iff
    {table : Table Nat value} (ascending : table.Ascending) (content : value) :
    content ∈ table.values ↔ ∃ key, table.get? key = some content := by
  simp only [get?_eq_some_iff ascending, values, List.mem_map, Prod.exists]
  constructor
  · rintro ⟨key, _, member, rfl⟩
    exact ⟨key, member⟩
  · rintro ⟨key, member⟩
    exact ⟨key, content, member, rfl⟩

/-- Ascending tables that give every key values which look alike list their entries alike. -/
theorem map_entries_eq_of_get?
    {view : Type} (look : value → view) {left right : Table Nat value}
    (leftAscending : left.Ascending) (rightAscending : right.Ascending)
    (same : ∀ key, (left.get? key).map look = (right.get? key).map look) :
    (left.entries.map fun entry => (entry.1, look entry.2)) =
      right.entries.map fun entry => (entry.1, look entry.2) := by
  have listed {table : Table Nat value} (ascending : table.Ascending) (key : Nat) (seen : view) :
      (key, seen) ∈ (table.entries.map fun entry => (entry.1, look entry.2)) ↔
        (table.get? key).map look = some seen := by
    simp only [List.mem_map, Option.map_eq_some_iff, get?_eq_some_iff ascending, Prod.exists,
      Prod.mk.injEq]
    constructor
    · rintro ⟨_, content, member, rfl, seen⟩
      exact ⟨content, member, seen⟩
    · rintro ⟨content, member, seen⟩
      exact ⟨key, content, member, rfl, seen⟩
  have ordered {table : Table Nat value} (ascending : table.Ascending) :
      (table.entries.map fun entry => (entry.1, look entry.2)).Pairwise fun first second =>
        first.1 < second.1 := by
    rw [List.pairwise_map]
    exact List.pairwise_map.1 ascending
  have distinct {table : Table Nat value} (ascending : table.Ascending) :
      (table.entries.map fun entry => (entry.1, look entry.2)).Nodup :=
    (ordered ascending).imp fun before same => Nat.ne_of_lt before (congrArg Prod.fst same)
  have perm := (List.perm_ext_iff_of_nodup (distinct leftAscending) (distinct rightAscending)).2 (by
    intro entry
    rcases entry with ⟨key, seen⟩
    rw [listed leftAscending, listed rightAscending, same])
  refine List.Perm.eq_of_pairwise ?_ (ordered leftAscending) (ordered rightAscending) perm
  intro first second _ _ before behind
  exact absurd before (Nat.lt_asymm behind)

end Order

end Table
end Spead
