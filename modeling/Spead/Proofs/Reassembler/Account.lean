import Mathlib.Logic.Function.Basic
import Spead.Proofs.Reassembler.Assembly
import Spead.Proofs.Reassembler.Counters

/-!
Accounts of heaps.

Every heap that is begun has an account: the packet that began it, the packets accepted for it and
what became of it. Accounts are kept from the outside, by the packets and by what is told; that
the heaps in the table are those of the pending accounts is the invariant (`Keeps`).
-/

namespace Spead

/-- The number of the heap whose end an event tells. A heap that is too long is not begun. -/
def ReassemblyEvent.ends? : ReassemblyEvent → Option Nat
  | .heap received => some received.count
  | .dropped (.heapTooLarge _ _ _) => none
  | .dropped cause => some cause.heapCount
  | .endOfStream => none

theorem ReassemblyError.Blames.ends?_dropped
    {heapCount : Nat} {cause : ReassemblyError} (blames : cause.Blames heapCount) :
    (ReassemblyEvent.dropped cause).ends? = some heapCount := by
  cases blames <;> rfl

inductive Outcome where
  /-- It is still incomplete. -/
  | pending
  | told (event : ReassemblyEvent)
  /-- It was taken out without a word. -/
  | silent
  deriving DecidableEq

/-- What is on record of a heap that was begun. -/
structure Account where
  /-- The packet that began the heap. -/
  opener : Packet
  /-- The packets accepted for the heap, in the order in which they came. -/
  accepted : List Packet
  outcome : Outcome

instance (left right : Packet) : Decidable (left.Agrees right) :=
  decidable_of_iff
    (left.heapLength = right.heapLength ∧ left.addressBits = right.addressBits ∧
      left.pointers = right.pointers)
    ⟨fun ⟨length, bits, pointers⟩ => ⟨length, bits, pointers⟩,
      fun agrees => ⟨agrees.heapLength, agrees.addressBits, agrees.pointers⟩⟩

instance (packet : Packet) : Decidable packet.Fits :=
  decidable_of_iff
    (packet.payloadOffset + packet.payloadLength ≤ packet.heapLength ∧
      packet.payload.length = packet.payloadLength)
    ⟨fun ⟨inside, length⟩ => ⟨inside, length⟩, fun fits => ⟨fits.inside, fits.length⟩⟩

namespace Account

def count (account : Account) : Nat :=
  account.opener.heapCount

/-- The account of a heap that a packet begins, before the packet is recorded. -/
def begun (packet : Packet) : Account :=
  ⟨packet, [], .pending⟩

/-- Record a packet, if it is accepted for the heap: it has to agree with the packet that began
the heap, and its slice has to fit. -/
def credit (packet : Packet) (account : Account) : Account :=
  if account.outcome = .pending ∧ account.count = packet.heapCount ∧
      packet.Agrees account.opener ∧ packet.Fits then
    { account with accepted := account.accepted ++ [packet] }
  else
    account

/-- Record what became of the heap in a call after which `table` has the incomplete heaps. -/
def settle
    (table : Nat → Option PartialHeap) (events : List ReassemblyEvent) (account : Account) :
    Account :=
  match account.outcome with
  | .pending =>
      match events.find? fun event => event.ends? = some account.count with
      | some event => { account with outcome := .told event }
      | none =>
          if (table account.count).isSome then account else { account with outcome := .silent }
  | _ => account

def told? (account : Account) : Option ReassemblyEvent :=
  match account.outcome with
  | .told event => some event
  | _ => none

/-- An incomplete heap is the one of the account. -/
structure Holds (account : Account) (heap : PartialHeap) : Prop where
  count : heap.count = account.count
  heapLength : heap.heapLength = account.opener.heapLength
  addressBits : heap.addressBits = account.opener.addressBits
  pointers : heap.pointers = account.opener.pointers
  made : heap.MadeOf account.accepted

theorem Holds.objection?_eq_none_iff
    {account : Account} {heap : PartialHeap} (holds : account.Holds heap) (packet : Packet) :
    heap.objection? packet = none ↔ packet.Agrees account.opener ∧ packet.Fits := by
  rw [PartialHeap.objection?_eq_none_iff, holds.heapLength, holds.addressBits, holds.pointers]
  constructor
  · rintro ⟨length, bits, pointers, fits⟩
    exact ⟨⟨length, bits, pointers⟩, fits⟩
  · rintro ⟨agrees, fits⟩
    exact ⟨agrees.heapLength, agrees.addressBits, agrees.pointers, fits⟩

theorem holds_begin (packet : Packet) (sequence : Nat) :
    (begun packet).Holds (.begin packet sequence) :=
  ⟨rfl, rfl, rfl, rfl, PartialHeap.madeOf_begin packet sequence⟩

@[simp] theorem opener_credit (packet : Packet) (account : Account) :
    (account.credit packet).opener = account.opener := by
  unfold credit
  split <;> rfl

@[simp] theorem outcome_credit (packet : Packet) (account : Account) :
    (account.credit packet).outcome = account.outcome := by
  unfold credit
  split <;> rfl

@[simp] theorem count_credit (packet : Packet) (account : Account) :
    (account.credit packet).count = account.count := by
  rw [count, opener_credit, count]

theorem credit_of_not_pending
    (packet : Packet) {account : Account}
    (passed : account.outcome = .pending → account.count ≠ packet.heapCount) :
    account.credit packet = account := by
  rw [credit, if_neg]
  rintro ⟨pending, same, _⟩
  exact passed pending same

/-- A heap after a packet has been looked at: with it, unless the packet cannot belong to it. -/
theorem Holds.credit
    {account : Account} {heap : PartialHeap} {packet : Packet} (holds : account.Holds heap)
    (pending : account.outcome = .pending) (ofHeap : account.count = packet.heapCount) :
    (account.credit packet).Holds
      (if heap.objection? packet = none then heap.add packet else heap) := by
  have same := holds.objection?_eq_none_iff packet
  by_cases accepted : heap.objection? packet = none
  · rw [if_pos accepted, Account.credit, if_pos ⟨pending, ofHeap, same.1 accepted⟩]
    refine ⟨holds.count, holds.heapLength, holds.addressBits, holds.pointers, ?_⟩
    exact PartialHeap.madeOf_add holds.made (ofHeap.symm.trans holds.count.symm) accepted
  · rw [if_neg accepted, Account.credit, if_neg]
    · exact holds
    · rintro ⟨_, _, agrees⟩
      exact accepted (same.2 agrees)

/-! ## Settlement -/

section Settle

variable {table : Nat → Option PartialHeap} {events : List ReassemblyEvent} {account : Account}

@[simp] theorem opener_settle : (account.settle table events).opener = account.opener := by
  unfold settle
  split
  · split
    · rfl
    · split <;> rfl
  · rfl

@[simp] theorem accepted_settle : (account.settle table events).accepted = account.accepted := by
  unfold settle
  split
  · split
    · rfl
    · split <;> rfl
  · rfl

@[simp] theorem count_settle : (account.settle table events).count = account.count := by
  rw [count, opener_settle, count]

theorem settle_of_not_pending (settled : account.outcome ≠ .pending) :
    account.settle table events = account := by
  unfold settle
  split
  · next pending => exact absurd pending settled
  · rfl

theorem settle_of_kept
    (kept : (table account.count).isSome)
    (quiet : ∀ event ∈ events, event.ends? ≠ some account.count) :
    account.settle table events = account := by
  have nothing :
      (events.find? fun event => event.ends? = some account.count) = none := by
    simpa using quiet
  unfold settle
  split
  · rw [nothing, if_pos kept]
  · rfl

theorem ends?_of_settle
    {event : ReassemblyEvent} (pending : account.outcome = .pending)
    (told : (account.settle table events).outcome = .told event) :
    event.ends? = some account.count := by
  unfold settle at told
  rw [pending] at told
  dsimp only at told
  split at told
  · next found =>
      cases told
      simpa using List.find?_some found
  · split at told
    · rw [pending] at told
      cases told
    · cases told

/-- A pending account stays pending if its heap is still in the table and nothing is told of it,
and only then. -/
theorem outcome_settle_eq_pending_iff :
    (account.settle table events).outcome = .pending ↔
      account.outcome = .pending ∧ (table account.count).isSome ∧
        ∀ event ∈ events, event.ends? ≠ some account.count := by
  constructor
  · intro pending
    unfold settle at pending
    split at pending
    · next earlier =>
        split at pending
        · cases pending
        · next nothing =>
            split at pending
            · next kept =>
                refine ⟨earlier, kept, ?_⟩
                simpa using nothing
            · cases pending
    · next settled => exact absurd pending settled
  · rintro ⟨pending, kept, quiet⟩
    rw [settle_of_kept kept quiet]
    exact pending

end Settle

end Account

/-! ## Ledgers and tables -/

/-- The heaps of a table are those of the pending accounts; an account is found by the number that
its heap got when it was begun. -/
structure Keeps
    (accounts : List Account) (table : Nat → Option PartialHeap) (next : Nat) : Prop where
  length : accounts.length = next
  keyed : ∀ count heap, table count = some heap → heap.count = count
  held : ∀ count heap, table count = some heap →
    ∃ account, accounts[heap.sequence]? = some account ∧ account.outcome = .pending ∧
      account.Holds heap
  pending : ∀ (index : Nat) account, accounts[index]? = some account →
    account.outcome = .pending →
    ∃ heap, table account.count = some heap ∧ heap.sequence = index

theorem keeps_nil : Keeps [] (fun _ => none) 0 :=
  ⟨rfl, by simp, by simp, by simp⟩

section Keeps

variable {accounts : List Account} {table after : Nat → Option PartialHeap} {next : Nat}

theorem Keeps.unique
    (keeps : Keeps accounts table next) {left right : Nat} {account other : Account}
    (found : accounts[left]? = some account) (foundOther : accounts[right]? = some other)
    (pending : account.outcome = .pending) (pendingOther : other.outcome = .pending)
    (same : account.count = other.count) :
    left = right := by
  obtain ⟨heap, held, rfl⟩ := keeps.pending left account found pending
  obtain ⟨otherHeap, heldOther, rfl⟩ := keeps.pending right other foundOther pendingOther
  rw [same, heldOther] at held
  cases held
  rfl

theorem Keeps.begin
    (keeps : Keeps accounts table next) {packet : Packet}
    (absent : table packet.heapCount = none) :
    Keeps (accounts ++ [.begun packet])
      (Function.update table packet.heapCount (some (.begin packet next))) (next + 1) where
  length := by simp [keeps.length]
  keyed := by
    intro count heap found
    rw [Function.update_apply] at found
    split at found
    · next same =>
        cases found
        exact same.symm
    · exact keeps.keyed count heap found
  held := by
    intro count heap found
    rw [Function.update_apply] at found
    split at found
    · cases found
      refine ⟨.begun packet, ?_, rfl, Account.holds_begin packet next⟩
      change (accounts ++ [_])[next]? = _
      rw [← keeps.length, List.getElem?_concat_length]
    · obtain ⟨account, located, rest⟩ := keeps.held count heap found
      refine ⟨account, ?_, rest⟩
      rw [List.getElem?_append_left (List.getElem?_eq_some_iff.1 located).1]
      exact located
  pending := by
    intro index account located pending
    rcases Nat.lt_or_ge index accounts.length with old | new
    · rw [List.getElem?_append_left old] at located
      obtain ⟨heap, found, rest⟩ := keeps.pending index account located pending
      have different : account.count ≠ packet.heapCount := by
        intro same
        rw [same, absent] at found
        cases found
      exact ⟨heap, by rw [Function.update_of_ne different, found], rest⟩
    · rw [List.getElem?_append_right new, List.getElem?_singleton] at located
      split at located
      · next last =>
          cases located
          refine ⟨.begin packet next, Function.update_self _ _ _, ?_⟩
          change next = index
          rw [← keeps.length]
          omega
      · cases located

/-- A packet changes the account of its heap as it changes the heap. -/
theorem Keeps.credit
    (keeps : Keeps accounts table next) {packet : Packet} {own : PartialHeap}
    (present : table packet.heapCount = some own) :
    Keeps (accounts.map (Account.credit packet))
      (Function.update table packet.heapCount
        (some (if own.objection? packet = none then own.add packet else own))) next where
  length := by simp [keeps.length]
  keyed := by
    intro count heap found
    rw [Function.update_apply] at found
    split at found
    · next same =>
        cases found
        rw [same]
        have ofOwn := keeps.keyed _ own present
        split
        · exact ofOwn
        · exact ofOwn
    · exact keeps.keyed count heap found
  held := by
    intro count heap found
    rw [Function.update_apply] at found
    split at found
    · cases found
      obtain ⟨account, located, pending, holds⟩ := keeps.held _ own present
      have ofHeap : account.count = packet.heapCount :=
        holds.count.symm.trans (keeps.keyed _ own present)
      have sequence :
          (if own.objection? packet = none then own.add packet else own).sequence =
            own.sequence := by
        split <;> rfl
      refine ⟨account.credit packet, ?_, by simpa using pending, holds.credit pending ofHeap⟩
      rw [sequence, List.getElem?_map, located]
      rfl
    · next different =>
        obtain ⟨account, located, pending, holds⟩ := keeps.held count heap found
        have other : account.count ≠ packet.heapCount := by
          rw [← holds.count, keeps.keyed count heap found]
          exact different
        refine ⟨account, ?_, pending, holds⟩
        rw [List.getElem?_map, located, Option.map_some,
          Account.credit_of_not_pending packet fun _ => other]
  pending := by
    intro index account located pending
    rw [List.getElem?_map, Option.map_eq_some_iff] at located
    obtain ⟨before, foundBefore, rfl⟩ := located
    rw [Account.outcome_credit] at pending
    obtain ⟨heap, found, sequence⟩ := keeps.pending index before foundBefore pending
    rw [Account.count_credit]
    by_cases same : before.count = packet.heapCount
    · rw [same, present] at found
      cases found
      refine ⟨_, by rw [same, Function.update_self], ?_⟩
      split
      · exact sequence
      · exact sequence
    · exact ⟨heap, by rw [Function.update_of_ne same, found], sequence⟩

/-- Heaps leave a table. What is told of it names each of them once, and no others; of those that
are not named, `silent` holds. -/
structure Leaves
    (silent : PartialHeap → Prop) (table : Nat → Option PartialHeap)
    (events : List ReassemblyEvent) (after : Nat → Option PartialHeap) : Prop where
  kept : ∀ count, after count = table count ∨ after count = none
  named : ∀ event ∈ events, ∀ count, event.ends? = some count →
    (table count).isSome ∧ after count = none
  distinct : (events.filterMap ReassemblyEvent.ends?).Nodup
  unnamed : ∀ count heap, table count = some heap → after count = none →
    (∃ event ∈ events, event.ends? = some count) ∨ silent heap

variable {silent : PartialHeap → Prop} {events : List ReassemblyEvent}

theorem Leaves.held
    (leaves : Leaves silent table events after) {count : Nat} {heap : PartialHeap}
    (found : after count = some heap) :
    table count = some heap := by
  rcases leaves.kept count with same | gone
  · rwa [same] at found
  · rw [gone] at found
    cases found

theorem Leaves.absent
    (leaves : Leaves silent table events after) {count : Nat} (gone : table count = none) :
    after count = none := by
  rcases leaves.kept count with same | left
  · rw [same, gone]
  · exact left

theorem Keeps.settle
    (keeps : Keeps accounts table next) (leaves : Leaves silent table events after) :
    Keeps (accounts.map (Account.settle after events)) after next where
  length := by simp [keeps.length]
  keyed := fun count heap found => keeps.keyed count heap (leaves.held found)
  held := by
    intro count heap found
    have before := leaves.held found
    obtain ⟨account, located, pending, holds⟩ := keeps.held count heap before
    have ofHeap : account.count = count := holds.count.symm.trans (keeps.keyed count heap before)
    have unsettled : account.settle after events = account := by
      apply Account.settle_of_kept
      · rw [ofHeap, found]
        rfl
      · intro event told named
        rw [ofHeap] at named
        rw [(leaves.named event told count named).2] at found
        cases found
    refine ⟨account, ?_, pending, holds⟩
    rw [List.getElem?_map, located, Option.map_some, unsettled]
  pending := by
    intro index account located pending
    rw [List.getElem?_map, Option.map_eq_some_iff] at located
    obtain ⟨before, foundBefore, rfl⟩ := located
    obtain ⟨earlier, kept, _⟩ := Account.outcome_settle_eq_pending_iff.1 pending
    obtain ⟨heap, found, sequence⟩ := keeps.pending index before foundBefore earlier
    obtain ⟨own, foundAfter⟩ := Option.isSome_iff_exists.1 kept
    rw [leaves.held foundAfter] at found
    cases found
    rw [Account.count_settle]
    exact ⟨heap, foundAfter, sequence⟩

theorem Keeps.holds
    (keeps : Keeps accounts table next) {index : Nat} {account : Account}
    (found : accounts[index]? = some account) (pending : account.outcome = .pending) :
    ∃ heap, table account.count = some heap ∧ heap.sequence = index ∧ account.Holds heap := by
  obtain ⟨heap, held, sequence⟩ := keeps.pending index account found pending
  obtain ⟨same, located, _, holds⟩ := keeps.held account.count heap held
  rw [sequence, found] at located
  cases located
  exact ⟨heap, held, sequence, holds⟩

/-- An account that is settled without a word is that of a heap that left so. -/
theorem Keeps.silent_settle
    (keeps : Keeps accounts table next) (leaves : Leaves silent table events after)
    {index : Nat} {account : Account} (found : accounts[index]? = some account)
    (passed : (account.settle after events).outcome = .silent) :
    account.outcome = .silent ∨
      account.outcome = .pending ∧
        ∃ heap, table account.count = some heap ∧ account.Holds heap ∧ silent heap := by
  cases earlier : account.outcome with
  | silent => exact Or.inl rfl
  | told event =>
      rw [Account.settle_of_not_pending (by simp [earlier]), earlier] at passed
      cases passed
  | pending =>
      refine Or.inr ⟨rfl, ?_⟩
      obtain ⟨heap, held, _, holds⟩ := keeps.holds found earlier
      refine ⟨heap, held, holds, ?_⟩
      unfold Account.settle at passed
      rw [earlier] at passed
      dsimp only at passed
      split at passed
      · cases passed
      · next nothing =>
          split at passed
          · rw [earlier] at passed
            cases passed
          · next gone =>
              rw [Option.not_isSome_iff_eq_none] at gone
              rcases leaves.unnamed account.count heap held gone with ⟨event, told, named⟩ | quiet
              · rw [List.find?_eq_none] at nothing
                exact absurd (decide_eq_true named) (nothing event told)
              · exact quiet

/-! ## What is told, account by account -/

theorem Leaves.nodup_ends
    (leaves : Leaves silent table events after) :
    ((events.filter fun event => event.ends?.isSome).map ReassemblyEvent.ends?).Nodup := by
  have distinct := leaves.distinct
  rw [List.Nodup, List.pairwise_filterMap] at distinct
  rw [List.Nodup, List.pairwise_map, List.pairwise_filter]
  apply distinct.imp
  intro first later different named _ same
  obtain ⟨count, ofFirst⟩ := Option.isSome_iff_exists.1 named
  exact different count ofFirst count (same ▸ ofFirst) rfl

def newlyTold? (events : List ReassemblyEvent) (account : Account) : Option ReassemblyEvent :=
  if account.outcome = .pending then
    events.find? fun event => event.ends? = some account.count
  else
    none

theorem newlyTold?_eq_some
    {account : Account} {event : ReassemblyEvent}
    (told : newlyTold? events account = some event) :
    account.outcome = .pending ∧ event ∈ events ∧ event.ends? = some account.count := by
  unfold newlyTold? at told
  split at told
  · next pending =>
      have named := List.find?_some told
      rw [decide_eq_true_eq] at named
      exact ⟨pending, List.mem_of_find?_eq_some told, named⟩
  · cases told

theorem told?_settle (account : Account) :
    (account.settle after events).told? = account.told?.or (newlyTold? events account) := by
  unfold Account.settle newlyTold? Account.told?
  cases earlier : account.outcome with
  | pending =>
      dsimp only
      rw [if_pos rfl]
      cases found : events.find? fun event => event.ends? = some account.count with
      | some event => rfl
      | none =>
          dsimp only
          by_cases kept : (after account.count).isSome = true
          · rw [if_pos kept, earlier]
            rfl
          · rw [if_neg kept]
            rfl
  | told event =>
      dsimp only
      rw [earlier]
      rfl
  | silent =>
      dsimp only
      rw [earlier]
      rfl

private theorem perm_filterMap_or
    {element image : Type} (first later : element → Option image) (elements : List element)
    (apart : ∀ own ∈ elements, first own = none ∨ later own = none) :
    (elements.filterMap fun own => (first own).or (later own)).Perm
      (elements.filterMap first ++ elements.filterMap later) := by
  induction elements with
  | nil => exact .nil
  | cons head tail inductionHypothesis =>
      rw [List.forall_mem_cons] at apart
      have rest := inductionHypothesis apart.2
      simp only [List.filterMap_cons]
      rcases apart.1 with nothing | nothing
      · rw [nothing]
        cases later head with
        | none => exact rest
        | some own => exact (rest.cons own).trans List.perm_middle.symm
      · rw [nothing, Option.or_none]
        cases first head with
        | none => exact rest
        | some own => exact rest.cons own

theorem Keeps.nodup_newlyTold (keeps : Keeps accounts table next) :
    (accounts.filterMap (newlyTold? events)).Nodup := by
  rw [List.Nodup, List.pairwise_filterMap, List.pairwise_iff_getElem]
  intro left right leftBound rightBound before event toldLeft other toldRight same
  subst same
  obtain ⟨pending, _, named⟩ := newlyTold?_eq_some toldLeft
  obtain ⟨pendingOther, _, namedOther⟩ := newlyTold?_eq_some toldRight
  rw [named, Option.some_inj] at namedOther
  have equal := keeps.unique (List.getElem?_eq_getElem leftBound)
    (List.getElem?_eq_getElem rightBound) pending pendingOther namedOther
  omega

/-- Whatever names a heap that leaves is told of the heap's account. -/
theorem Keeps.exists_newlyTold
    (keeps : Keeps accounts table next) (leaves : Leaves silent table events after)
    {event : ReassemblyEvent} (member : event ∈ events) (named : event.ends?.isSome) :
    ∃ account ∈ accounts, newlyTold? events account = some event := by
  obtain ⟨count, ofCount⟩ := Option.isSome_iff_exists.1 named
  obtain ⟨heap, held⟩ := Option.isSome_iff_exists.1 (leaves.named event member count ofCount).1
  obtain ⟨account, located, pending, holds⟩ := keeps.held count heap held
  have same : account.count = count := holds.count.symm.trans (keeps.keyed count heap held)
  refine ⟨account, List.mem_of_getElem? located, ?_⟩
  obtain ⟨other, told⟩ : ∃ other, newlyTold? events account = some other := by
    rw [← Option.isSome_iff_exists, newlyTold?, if_pos pending, List.find?_isSome]
    exact ⟨event, member, by rw [same, ofCount, decide_eq_true_eq]⟩
  -- The event that is found first is this one, as no two name the same heap.
  obtain ⟨_, otherMember, otherNamed⟩ := newlyTold?_eq_some told
  rw [same, ← ofCount] at otherNamed
  rw [told, Option.some_inj]
  apply List.inj_on_of_nodup_map leaves.nodup_ends
  · rw [List.mem_filter, otherNamed]
    exact ⟨otherMember, named⟩
  · exact List.mem_filter.2 ⟨member, named⟩
  · exact otherNamed

theorem Keeps.perm_newlyTold
    (keeps : Keeps accounts table next) (leaves : Leaves silent table events after) :
    (accounts.filterMap (newlyTold? events)).Perm
      (events.filter fun event => event.ends?.isSome) := by
  have nodup := List.Nodup.of_map _ leaves.nodup_ends
  apply (List.perm_ext_iff_of_nodup keeps.nodup_newlyTold nodup).2
  intro event
  rw [List.mem_filterMap, List.mem_filter]
  constructor
  · rintro ⟨account, _, told⟩
    obtain ⟨_, member, named⟩ := newlyTold?_eq_some told
    exact ⟨member, by rw [named]; rfl⟩
  · rintro ⟨member, named⟩
    exact keeps.exists_newlyTold leaves member named

/-- The events that are told when heaps leave are those that settle their accounts. -/
theorem Keeps.perm_told_settle
    (keeps : Keeps accounts table next) (leaves : Leaves silent table events after) :
    ((accounts.map (Account.settle after events)).filterMap Account.told?).Perm
      (accounts.filterMap Account.told? ++
        events.filter fun event => event.ends?.isSome) := by
  rw [List.filterMap_map]
  have split : Account.told? ∘ Account.settle after events =
      fun account => account.told?.or (newlyTold? events account) :=
    funext told?_settle
  rw [split]
  refine (perm_filterMap_or _ _ _ ?_).trans ((keeps.perm_newlyTold leaves).append_left _)
  intro account _
  cases earlier : account.outcome with
  | pending => exact Or.inl (by rw [Account.told?, earlier])
  | told event => exact Or.inr (by simp [newlyTold?, earlier])
  | silent => exact Or.inr (by simp [newlyTold?, earlier])

end Keeps

/-! ## How heaps leave -/

section Leaves

variable {silent : PartialHeap → Prop} {table middle after : Nat → Option PartialHeap}
  {events later : List ReassemblyEvent}

theorem leaves_nothing
    (silent : PartialHeap → Prop) (table : Nat → Option PartialHeap)
    (quiet : ∀ event ∈ events, event.ends? = none) :
    Leaves silent table events table where
  kept := fun _ => Or.inl rfl
  named := by
    intro event member count named
    rw [quiet event member] at named
    cases named
  distinct := by
    rw [List.filterMap_eq_nil_iff.2 quiet]
    exact List.nodup_nil
  unnamed := by
    intro count heap held gone
    rw [held] at gone
    cases gone

/-- One heap leaves, and is named unless it may be silent. -/
theorem leaves_one
    {count : Nat} {heap : PartialHeap} (held : table count = some heap)
    (gone : ∀ other, after other = if other = count then none else table other)
    (told : (∃ event, events = [event] ∧ event.ends? = some count) ∨
      (events = [] ∧ silent heap)) :
    Leaves silent table events after where
  kept := by
    intro other
    rw [gone]
    split
    · exact Or.inr rfl
    · exact Or.inl rfl
  named := by
    intro event member other named
    rcases told with ⟨only, rfl, ofHeap⟩ | ⟨rfl, _⟩
    · rw [List.mem_singleton] at member
      rw [member, ofHeap, Option.some_inj] at named
      rw [← named, gone, if_pos rfl, held]
      exact ⟨rfl, rfl⟩
    · cases member
  distinct := by
    rcases told with ⟨only, rfl, ofHeap⟩ | ⟨rfl, _⟩
    · rw [List.filterMap_cons_some ofHeap]
      exact List.nodup_singleton count
    · exact List.nodup_nil
  unnamed := by
    intro other own present left
    rw [gone] at left
    split at left
    · next same =>
        rw [same, held] at present
        cases present
        rcases told with ⟨only, rfl, ofHeap⟩ | ⟨rfl, quiet⟩
        · exact Or.inl ⟨only, List.mem_singleton_self only, by rw [ofHeap, same]⟩
        · exact Or.inr quiet
    · rw [present] at left
      cases left

theorem Leaves.trans
    (first : Leaves silent table events middle) (second : Leaves silent middle later after) :
    Leaves silent table (events ++ later) after where
  kept := by
    intro count
    rcases second.kept count with same | gone
    · rw [same]
      exact first.kept count
    · exact Or.inr gone
  named := by
    intro event member count named
    rcases List.mem_append.1 member with early | late
    · obtain ⟨present, gone⟩ := first.named event early count named
      exact ⟨present, second.absent gone⟩
    · obtain ⟨present, gone⟩ := second.named event late count named
      obtain ⟨heap, found⟩ := Option.isSome_iff_exists.1 present
      exact ⟨Option.isSome_iff_exists.2 ⟨heap, first.held found⟩, gone⟩
  distinct := by
    -- What was named first has left when others are named.
    rw [List.filterMap_append]
    refine first.distinct.append second.distinct ?_
    intro count early late
    obtain ⟨event, member, named⟩ := List.mem_filterMap.1 early
    obtain ⟨other, otherMember, otherNamed⟩ := List.mem_filterMap.1 late
    have present := (second.named other otherMember count otherNamed).1
    rw [(first.named event member count named).2] at present
    cases present
  unnamed := by
    intro count heap held gone
    rcases first.kept count with same | left
    · rw [held] at same
      rcases second.unnamed count heap same gone with ⟨event, member, named⟩ | quiet
      · exact Or.inl ⟨event, List.mem_append_right _ member, named⟩
      · exact Or.inr quiet
    · rcases first.unnamed count heap held left with ⟨event, member, named⟩ | quiet
      · exact Or.inl ⟨event, List.mem_append_left _ member, named⟩
      · exact Or.inr quiet

end Leaves

end Spead
