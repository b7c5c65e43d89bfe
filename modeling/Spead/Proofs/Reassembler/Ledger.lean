import Spead.Proofs.Reassembler.Account

/-!
The ledger of a run.

A call enters its packet into the accounts, and what it tells settles them. So the accounts are
those of all heaps ever begun, in the order in which they were begun, and each of them has met one
end at most.
-/

namespace Spead

/-! ## Markers -/

/-- A complete heap that only marks the end of the stream. -/
def PartialHeap.IsMarker (compat : Compat) (heap : PartialHeap) : Prop :=
  heap.endOfStream = true ∧ heap.isComplete = true ∧
    ∃ received, heap.resolve compat = .ok received ∧ received.isControlOnly = true

/-- The packets accepted for a heap make up one that only marks the end of the stream. -/
def Account.IsMarker (compat : Compat) (account : Account) : Prop :=
  account.accepted.any Packet.carriesStop = true ∧
    ∃ received, AssembledFrom compat account.accepted received ∧ received.isControlOnly = true

theorem Account.Holds.isMarker
    {compat : Compat} {account : Account} {heap : PartialHeap} (holds : account.Holds heap)
    (marker : heap.IsMarker compat) :
    account.IsMarker compat := by
  obtain ⟨marked, complete, received, resolved, controlOnly⟩ := marker
  refine ⟨?_, received, holds.made.assembledFrom complete resolved, controlOnly⟩
  rw [← holds.made.endOfStream, marked]

namespace Reassembler

/-! ## How heaps leave -/

section Leaves

variable {reassembler after : Reassembler}

theorem leaves_evictOldest
    (silent : PartialHeap → Prop) (coherent : reassembler.Coherent) (keep excess : Nat) :
    Leaves silent reassembler.heaps.get? (evictOldest keep excess reassembler).2
      (evictOldest keep excess reassembler).1.heaps.get? := by
  induction excess generalizing reassembler with
  | zero => exact leaves_nothing silent _ (by simp [evictOldest])
  | succ excess inductionHypothesis =>
      simp only [evictOldest]
      split
      · exact leaves_nothing silent _ (by simp)
      · next heap found =>
          have member := (List.mem_filter.1 (oldest?_mem found)).1
          obtain ⟨count, located⟩ := (Table.mem_values_iff coherent.ascending heap).1 member
          rw [← coherent.keyed count heap located] at located
          have ends := ends_evict reassembler heap
          have evicted : Leaves silent reassembler.heaps.get? (reassembler.evict heap).2
              (reassembler.evict heap).1.heaps.get? :=
            leaves_one located ends.get? (Or.inl ⟨_, rfl, rfl⟩)
          exact evicted.trans (inductionHypothesis (ends.coherent coherent))

theorem Coherent.map_count_values (coherent : reassembler.Coherent) :
    reassembler.heaps.values.map PartialHeap.count = reassembler.heaps.keys := by
  rw [Table.values, Table.keys, List.map_map]
  apply List.map_congr_left
  intro entry member
  exact coherent.keyed entry.1 entry.2
    ((Table.get?_eq_some_iff coherent.ascending entry.1 entry.2).2 member)

theorem leaves_stop
    (silent : PartialHeap → Prop) (coherent : reassembler.Coherent)
    (running : reassembler.stopped = false) :
    Leaves silent reassembler.heaps.get? reassembler.stop.2 reassembler.stop.1.heaps.get? := by
  have empty (count : Nat) : reassembler.stop.1.heaps.get? count = none := by
    rw [heaps_stop coherent]
    rfl
  have truncates {count : Nat} {heap : PartialHeap}
      (held : reassembler.heaps.get? count = some heap) :
      ReassemblyEvent.dropped (.truncatedHeap heap.count heap.received.total heap.heapLength) ∈
        reassembler.stop.2 := by
    simp only [stop, running, Bool.false_eq_true, if_false, List.mem_append, List.mem_map,
      List.mem_mergeSort]
    exact Or.inl ⟨heap, (Table.mem_values_iff coherent.ascending heap).2 ⟨count, held⟩, rfl⟩
  constructor
  case kept => exact fun count => Or.inr (empty count)
  case named =>
    intro event told count named
    refine ⟨?_, empty count⟩
    rcases mem_stop coherent told with rfl | ⟨heap, held, rfl⟩
    · cases named
    · cases named
      rw [ReassemblyError.heapCount, held]
      rfl
  case distinct =>
    have names :
        reassembler.stop.2.filterMap ReassemblyEvent.ends? =
          (reassembler.heaps.values.mergeSort fun left right =>
            left.sequence ≤ right.sequence).map PartialHeap.count := by
      simp only [stop, running, Bool.false_eq_true, if_false, List.filterMap_append,
        List.filterMap_map]
      rw [List.filterMap_cons_none rfl, List.filterMap_nil, List.append_nil]
      change List.filterMap (some ∘ PartialHeap.count) _ = _
      rw [List.filterMap_eq_map]
    rw [names]
    refine ((List.mergeSort_perm _ _).map PartialHeap.count).nodup_iff.2 ?_
    rw [coherent.map_count_values]
    exact Table.nodup_keys coherent.ascending
  case unnamed =>
    intro count heap held _
    refine Or.inl ⟨_, truncates held, ?_⟩
    rw [← coherent.keyed count heap held]
    rfl

/-- The table with a packet looked at: added to its heap, unless it cannot belong to it. -/
def entered (reassembler : Reassembler) (packet : Packet) : Nat → Option PartialHeap :=
  let heap := reassembler.target packet
  Function.update reassembler.heaps.get? packet.heapCount
    (some (if heap.objection? packet = none then heap.add packet else heap))

theorem entered_self (reassembler : Reassembler) (packet : Packet) :
    reassembler.entered packet packet.heapCount =
      some (if (reassembler.target packet).objection? packet = none then
        (reassembler.target packet).add packet
      else
        reassembler.target packet) :=
  Function.update_self _ _ _

theorem entered_of_ne
    (reassembler : Reassembler) {packet : Packet} {count : Nat}
    (different : count ≠ packet.heapCount) :
    reassembler.entered packet count = reassembler.heaps.get? count :=
  Function.update_of_ne different _ _

theorem entered_of_accepted
    {packet : Packet} (accepted : (reassembler.target packet).objection? packet = none) :
    reassembler.entered packet = (reassembler.hold packet).heaps.get? := by
  funext count
  rw [get?_hold, entered, Function.update_apply, if_pos accepted]

/-- A heap that ends leaves the table in which its packet was entered. -/
theorem Ends.leaves_entered
    {packet : Packet} {fate : Fate} {events : List ReassemblyEvent}
    {silent : PartialHeap → Prop} (ends : reassembler.Ends packet.heapCount fate after)
    {heap : PartialHeap} (held : reassembler.entered packet packet.heapCount = some heap)
    (told : (∃ event, events = [event] ∧ event.ends? = some packet.heapCount) ∨
      (events = [] ∧ silent heap)) :
    Leaves silent (reassembler.entered packet) events after.heaps.get? := by
  refine leaves_one held ?_ told
  intro other
  rw [ends.get?]
  split
  · rfl
  · next different => rw [reassembler.entered_of_ne different]

theorem Accepts.leaves
    {packet : Packet} {events : List ReassemblyEvent}
    (accepts : reassembler.Accepts packet after events) (coherent : reassembler.Coherent)
    (running : reassembler.stopped = false)
    (fresh : reassembler.fate? packet.heapCount = none) (allows : reassembler.Allows packet) :
    Leaves (PartialHeap.IsMarker reassembler.settings.compat) (reassembler.entered packet) events
      after.heaps.get? := by
  have sameCount := count_target coherent packet
  have grownCount : ((reassembler.target packet).add packet).count = packet.heapCount := sameCount
  have held := reassembler.entered_self packet
  cases accepts with
  | oversized absent long _ _ => exact absurd (allows absent) (Nat.not_le.2 long)
  | refused objection ends _ =>
      have blames := PartialHeap.blames_of_objection? objection
      rw [sameCount] at blames
      exact ends.leaves_entered held (Or.inl ⟨_, rfl, blames.ends?_dropped⟩)
  | unresolved _ _ unresolved ends _ =>
      have blames := PartialHeap.blames_of_resolve unresolved
      rw [grownCount] at blames
      exact ends.leaves_entered held (Or.inl ⟨_, rfl, blames.ends?_dropped⟩)
  | completed accepted complete resolved ends _ =>
      rw [if_pos accepted] at held
      apply ends.leaves_entered held
      split
      · next marker =>
          rw [Bool.and_eq_true] at marker
          exact Or.inr ⟨rfl, marker.1, complete, _, resolved, marker.2⟩
      · refine Or.inl ⟨_, rfl, ?_⟩
        rw [ReassemblyEvent.ends?, PartialHeap.count_of_resolve resolved, grownCount]
  | @kept grown _ _ accepted _ recounts evicted _ =>
      have leaves := leaves_evictOldest (PartialHeap.IsMarker reassembler.settings.compat)
        (coherent_kept coherent running fresh recounts) packet.heapCount
        (grown.heaps.entries.length - grown.settings.maxHeaps)
      rwa [evicted, recounts.heaps, ← entered_of_accepted accepted] at leaves

end Leaves

/-! ## Entries -/

/-- The accounts with a packet entered: it opens an account if it begins a heap, and is recorded
if it is accepted. -/
def enterPacket
    (reassembler : Reassembler) (packet : Packet) (accounts : List Account) : List Account :=
  match reassembler.heapState packet.heapCount with
  | .assembling => accounts.map (Account.credit packet)
  | .unseen =>
      if reassembler.stopped = false ∧
          packet.heapLength ≤ reassembler.settings.maxHeapSize then
        (accounts ++ [Account.begun packet]).map (Account.credit packet)
      else
        accounts
  | .finished _ => accounts

def enter (reassembler : Reassembler) (call : Call) (accounts : List Account) : List Account :=
  call.packet?.elim accounts fun packet => reassembler.enterPacket packet accounts

/-- A packet that is neither late nor behind the end of the stream, nor too long. -/
def Enters (reassembler : Reassembler) (packet : Packet) : Prop :=
  reassembler.stopped = false ∧ reassembler.fate? packet.heapCount = none ∧
    reassembler.Allows packet

instance (reassembler : Reassembler) (packet : Packet) : Decidable (reassembler.Enters packet) :=
  inferInstanceAs (Decidable (_ ∧ _ ∧ _))

/-- The table with the packet of a call looked at. -/
def midway (reassembler : Reassembler) (call : Call) : Nat → Option PartialHeap :=
  match call.packet?.filter fun packet => reassembler.Enters packet with
  | some packet => reassembler.entered packet
  | none => reassembler.heaps.get?

section Entries

variable {reassembler : Reassembler} {call : Call} {accounts : List Account}

theorem heapState_of_get?
    {count : Nat} {heap : PartialHeap} (held : reassembler.heaps.get? count = some heap) :
    reassembler.heapState count = .assembling := by
  rw [heapState, Table.contains_eq_isSome_get?, held]
  rfl

theorem heapState_of_absent
    {count : Nat} (absent : reassembler.heaps.get? count = none) :
    reassembler.heapState count =
      (reassembler.fate? count).elim HeapState.unseen HeapState.finished := by
  rw [heapState, Table.contains_eq_isSome_get?, absent]
  cases reassembler.fate? count <;> rfl

theorem enterPacket_of_not_enters
    {packet : Packet} (coherent : reassembler.Coherent) (passed : ¬ reassembler.Enters packet)
    (accounts : List Account) :
    reassembler.enterPacket packet accounts = accounts := by
  unfold enterPacket
  cases held : reassembler.heaps.get? packet.heapCount with
  | some heap =>
      refine absurd ⟨?_, ?_, ?_⟩ passed
      · rw [← Bool.not_eq_true]
        intro stopped
        rw [coherent.emptied stopped] at held
        cases held
      · exact coherent.fate?_of_get? held
      · rw [Allows, held]
        rintro ⟨⟩
  | none =>
      rw [heapState_of_absent held]
      cases fate : reassembler.fate? packet.heapCount with
      | some known => rfl
      | none =>
          dsimp only [Option.elim]
          rw [if_neg]
          rintro ⟨running, short⟩
          exact passed ⟨running, fate, fun _ => short⟩

theorem keeps_enterPacket
    {packet : Packet} (enters : reassembler.Enters packet)
    (keeps : Keeps accounts reassembler.heaps.get? reassembler.nextSequence) :
    Keeps (reassembler.enterPacket packet accounts) (reassembler.entered packet)
      (reassembler.taking packet).nextSequence := by
  obtain ⟨running, fresh, allows⟩ := enters
  unfold enterPacket entered
  cases held : reassembler.heaps.get? packet.heapCount with
  | some heap =>
      rw [heapState_of_get? held, target_of_get? held, nextSequence_taking_of_get? held]
      exact keeps.credit held
  | none =>
      rw [heapState_of_absent held, target_of_absent held, nextSequence_taking_of_absent held,
        fresh]
      dsimp only [Option.elim]
      rw [if_pos ⟨running, allows held⟩]
      have begun := (keeps.begin held).credit (Function.update_self _ _ _)
      rwa [Function.update_idem] at begun

theorem nextSequence_stop (reassembler : Reassembler) :
    reassembler.stop.1.nextSequence = reassembler.nextSequence := by
  unfold stop
  split <;> rfl

theorem Accepts.nextSequence
    {packet : Packet} {after : Reassembler} {events : List ReassemblyEvent}
    (accepts : reassembler.Accepts packet after events) (allows : reassembler.Allows packet) :
    after.nextSequence = (reassembler.taking packet).nextSequence := by
  cases accepts with
  | oversized absent long _ _ => exact absurd (allows absent) (Nat.not_le.2 long)
  | refused _ _ admits => exact admits.nextSequence
  | unresolved _ _ _ _ admits => exact admits.nextSequence
  | completed _ _ _ _ admits => exact admits.nextSequence
  | kept _ _ _ _ admits => exact admits.nextSequence

theorem Accepts.of_not_allows
    {packet : Packet} {after : Reassembler} {events : List ReassemblyEvent}
    (accepts : reassembler.Accepts packet after events)
    (tooLong : ¬ reassembler.Allows packet) :
    events = [.dropped (.heapTooLarge packet.heapCount packet.heapLength
        reassembler.settings.maxHeapSize)] ∧
      after.heaps.get? = reassembler.heaps.get? ∧
      after.nextSequence = reassembler.nextSequence := by
  cases accepts with
  | oversized absent _ ends sequence =>
      refine ⟨rfl, ?_, sequence⟩
      funext count
      rw [ends.get?]
      split
      · next same => rw [same, absent]
      · rfl
  | refused _ _ admits => exact absurd admits.fits tooLong
  | unresolved _ _ _ _ admits => exact absurd admits.fits tooLong
  | completed _ _ _ _ admits => exact absurd admits.fits tooLong
  | kept _ _ _ _ admits => exact absurd admits.fits tooLong

/-! ## Calls -/

theorem enter_of_not_enters
    (coherent : reassembler.Coherent)
    (passed : ∀ packet, call.packet? = some packet → ¬ reassembler.Enters packet)
    (accounts : List Account) :
    reassembler.enter call accounts = accounts ∧
      reassembler.midway call = reassembler.heaps.get? := by
  unfold enter midway
  cases brought : call.packet? with
  | none => exact ⟨rfl, rfl⟩
  | some packet =>
      have outside := passed packet brought
      rw [Option.filter_some, if_neg (by simpa using outside)]
      exact ⟨enterPacket_of_not_enters coherent outside accounts, rfl⟩

theorem enter_of_refused
    {packet : Packet} (coherent : reassembler.Coherent) (brought : call.packet? = some packet)
    (refused : ¬ reassembler.Enters packet) (accounts : List Account) :
    reassembler.enter call accounts = accounts ∧
      reassembler.midway call = reassembler.heaps.get? := by
  apply enter_of_not_enters coherent
  intro other broughtOther
  rw [brought, Option.some_inj] at broughtOther
  rwa [← broughtOther]

theorem enter_of_stopped
    (coherent : reassembler.Coherent) (stopped : reassembler.stopped = true) (call : Call)
    (accounts : List Account) :
    reassembler.enter call accounts = accounts ∧
      reassembler.midway call = reassembler.heaps.get? := by
  apply enter_of_not_enters coherent
  intro packet _ enters
  rw [enters.1] at stopped
  cases stopped

/-- What a call enters and what leaves by its own effects. -/
theorem keeps_midway
    (coherent : reassembler.Coherent) (running : reassembler.stopped = false)
    (keeps : Keeps accounts reassembler.heaps.get? reassembler.nextSequence) (call : Call) :
    Keeps (reassembler.enter call accounts) (reassembler.midway call)
        (reassembler.effects call).1.nextSequence ∧
      Leaves (PartialHeap.IsMarker reassembler.settings.compat) (reassembler.midway call)
        (reassembler.effects call).2 (reassembler.effects call).1.heaps.get? := by
  rcases reassembler.effects_cases call with ⟨same, known⟩ | ⟨packet, brought, fresh, same⟩
  · have recounts := recounts_overlook reassembler call
    obtain ⟨unchanged, table⟩ := enter_of_not_enters coherent (by
      intro packet brought enters
      have late := known packet brought
      rw [enters.2.1] at late
      cases late) accounts
    rw [unchanged, table, same, recounts.nextSequence, recounts.heaps]
    exact ⟨keeps, leaves_nothing _ _ (by simp)⟩
  · have accepts := accepts_effects coherent brought fresh
    by_cases allows : reassembler.Allows packet
    · have enters : reassembler.Enters packet := ⟨running, fresh, allows⟩
      -- The packet is entered first; whatever its heap comes to, leaves that table.
      rw [enter, midway, brought, Option.filter_some, if_pos (decide_eq_true enters),
        accepts.nextSequence allows]
      exact ⟨keeps_enterPacket enters keeps, accepts.leaves coherent running fresh allows⟩
    · have refused : ¬ reassembler.Enters packet := fun enters => allows enters.2.2
      obtain ⟨unchanged, table⟩ := enter_of_refused coherent brought refused accounts
      obtain ⟨told, heaps, sequence⟩ := accepts.of_not_allows allows
      rw [unchanged, table, sequence, told, heaps]
      exact ⟨keeps, leaves_nothing _ _ (by simp [ReassemblyEvent.ends?])⟩

theorem keeps_call
    (coherent : reassembler.Coherent)
    (keeps : Keeps accounts reassembler.heaps.get? reassembler.nextSequence) (call : Call) :
    Keeps (reassembler.enter call accounts) (reassembler.midway call)
        (reassembler.call call).1.nextSequence ∧
      Leaves (PartialHeap.IsMarker reassembler.settings.compat) (reassembler.midway call)
        (reassembler.call call).2 (reassembler.call call).1.heaps.get? := by
  rcases reassembler.call_cases call with ⟨stopped, same⟩ | ⟨running, _, same⟩ | ⟨running, _, same⟩
  · have recounts := recounts_overlook reassembler call
    obtain ⟨unchanged, table⟩ := enter_of_stopped coherent stopped call accounts
    rw [unchanged, table, same, recounts.nextSequence, recounts.heaps]
    exact ⟨keeps, leaves_nothing _ _ (by simp)⟩
  · rw [same]
    exact keeps_midway coherent running keeps call
  · obtain ⟨entered, leaves⟩ := keeps_midway coherent running keeps call
    rw [same, nextSequence_stop]
    exact ⟨entered, leaves.trans (leaves_stop _ (coherent_effects coherent running call)
      (stopped_effects coherent running call))⟩

/-- In a stream that goes on no heap of the table has the mark of the end. -/
def Unmarked (reassembler : Reassembler) : Prop :=
  ∀ count heap, reassembler.heaps.get? count = some heap → heap.endOfStream = false

theorem Unmarked.target (unmarked : reassembler.Unmarked) (packet : Packet) :
    (reassembler.target packet).endOfStream = false := by
  cases found : reassembler.heaps.get? packet.heapCount with
  | none =>
      rw [target_of_absent found]
      rfl
  | some own =>
      rw [target_of_get? found]
      exact unmarked packet.heapCount own found

/-- The mark of the end is brought by the call that ends the stream. -/
theorem midway_marked
    (unmarked : reassembler.Unmarked) {count : Nat} {heap : PartialHeap}
    (held : reassembler.midway call count = some heap) (marked : heap.endOfStream = true) :
    reassembler.EndsStream call ∧
      ∃ packet, call.packet? = some packet ∧ count = packet.heapCount := by
  unfold midway at held
  cases entering : call.packet?.filter fun packet => reassembler.Enters packet with
  | none =>
      rw [entering] at held
      rw [unmarked count heap held] at marked
      cases marked
  | some packet =>
      rw [entering] at held
      dsimp only at held
      rw [Option.filter_eq_some_iff, decide_eq_true_eq] at entering
      obtain ⟨brought, _, fresh, _⟩ := entering
      by_cases same : count = packet.heapCount
      · rw [same, entered_self, Option.some_inj] at held
        refine ⟨(endsStream_of_packet? brought).2 ⟨?_, fresh⟩, packet, brought, same⟩
        rw [← held] at marked
        split at marked
        · simpa [PartialHeap.add, unmarked.target packet] using marked
        · rw [unmarked.target packet] at marked
          cases marked
      · rw [entered_of_ne reassembler same] at held
        rw [unmarked count heap held] at marked
        cases marked

theorem enter_cases (reassembler : Reassembler) (call : Call) (accounts : List Account) :
    reassembler.enter call accounts = accounts ∨
      ∃ packet opened, reassembler.enter call accounts =
          (accounts ++ opened).map (Account.credit packet) ∧
        (opened = [] ∨ opened = [.begun packet]) := by
  unfold enter
  cases call.packet? with
  | none => exact Or.inl rfl
  | some packet =>
      rw [Option.elim_some, enterPacket]
      split
      · exact Or.inr ⟨packet, [], by rw [List.append_nil], Or.inl rfl⟩
      · split
        · exact Or.inr ⟨packet, [.begun packet], rfl, Or.inr rfl⟩
        · exact Or.inl rfl
      · exact Or.inl rfl

/-- Entering a packet changes pending accounts only. -/
theorem mem_of_mem_enter
    {account : Account} (member : account ∈ reassembler.enter call accounts)
    (settled : account.outcome ≠ .pending) :
    account ∈ accounts := by
  rcases reassembler.enter_cases call accounts with same | ⟨packet, opened, same, new⟩
  · rwa [same] at member
  · rw [same] at member
    obtain ⟨before, held, rfl⟩ := List.mem_map.1 member
    rw [Account.outcome_credit] at settled
    rw [Account.credit_of_not_pending packet fun pending => absurd pending settled]
    rcases List.mem_append.1 held with old | begun
    · exact old
    · rcases new with rfl | rfl
      · cases begun
      · rw [List.mem_singleton] at begun
        rw [begun] at settled
        exact absurd rfl settled

theorem filterMap_told?_enter (accounts : List Account) :
    (reassembler.enter call accounts).filterMap Account.told? =
      accounts.filterMap Account.told? := by
  rcases reassembler.enter_cases call accounts with same | ⟨packet, opened, same, new⟩
  · rw [same]
  · have credited : Account.told? ∘ Account.credit packet = Account.told? := by
      funext account
      rw [Function.comp_apply, Account.told?, Account.told?, Account.outcome_credit]
    rw [same, List.filterMap_map, credited, List.filterMap_append, List.append_right_eq_self]
    rcases new with rfl | rfl <;> rfl

end Entries

theorem perm_pending
    {reassembler : Reassembler} {accounts : List Account} {next : Nat}
    (coherent : reassembler.Coherent) (keeps : Keeps accounts reassembler.heaps.get? next) :
    ((accounts.filter fun account => account.outcome = .pending).map Account.count).Perm
      reassembler.heaps.keys := by
  apply (List.perm_ext_iff_of_nodup ?_ (Table.nodup_keys coherent.ascending)).2
  · intro count
    rw [Table.mem_keys_iff, Option.isSome_iff_exists, List.mem_map]
    constructor
    · rintro ⟨account, member, rfl⟩
      rw [List.mem_filter, decide_eq_true_eq] at member
      obtain ⟨index, found⟩ := List.mem_iff_getElem?.1 member.1
      obtain ⟨heap, held, _⟩ := keeps.pending index account found member.2
      exact ⟨heap, held⟩
    · rintro ⟨heap, held⟩
      obtain ⟨account, located, pending, holds⟩ := keeps.held count heap held
      refine ⟨account, ?_, holds.count.symm.trans (keeps.keyed count heap held)⟩
      rw [List.mem_filter, decide_eq_true_eq]
      exact ⟨List.mem_of_getElem? located, pending⟩
  · rw [List.Nodup, List.pairwise_map, List.pairwise_filter, List.pairwise_iff_getElem]
    intro left right leftBound rightBound before pending pendingOther same
    rw [decide_eq_true_eq] at pending pendingOther
    have equal := keeps.unique (List.getElem?_eq_getElem leftBound)
      (List.getElem?_eq_getElem rightBound) pending pendingOther same
    omega

/-! ## Silence -/

/-- Only a marker of the end of the stream is taken out without a word, and only one. -/
structure Silence
    (compat : Compat) (reassembler : Reassembler) (accounts : List Account) : Prop where
  unmarked : reassembler.stopped = false → reassembler.Unmarked
  spoken : reassembler.stopped = false → ∀ account ∈ accounts, account.outcome ≠ .silent
  once : accounts.Pairwise fun left right => left.outcome = .silent → right.outcome ≠ .silent
  marker : ∀ account ∈ accounts, account.outcome = .silent → account.IsMarker compat

section Silence

variable {reassembler : Reassembler} {accounts : List Account}

/-- Once the stream has ended, accounts do not change any more. -/
theorem settle_enter_of_stopped
    (coherent : reassembler.Coherent)
    (keeps : Keeps accounts reassembler.heaps.get? reassembler.nextSequence)
    (stopped : reassembler.stopped = true) (call : Call) (table : Nat → Option PartialHeap)
    (events : List ReassemblyEvent) :
    (reassembler.enter call accounts).map (Account.settle table events) = accounts := by
  rw [(enter_of_stopped coherent stopped call accounts).1]
  refine (List.map_congr_left ?_).trans (List.map_id accounts)
  intro account member
  apply Account.settle_of_not_pending
  intro pending
  obtain ⟨index, found⟩ := List.mem_iff_getElem?.1 member
  obtain ⟨heap, held, _⟩ := keeps.pending index account found pending
  rw [coherent.emptied stopped] at held
  cases held

theorem Silence.silent_settle
    (coherent : reassembler.Coherent)
    (keeps : Keeps accounts reassembler.heaps.get? reassembler.nextSequence)
    (silence : Silence reassembler.settings.compat reassembler accounts)
    (running : reassembler.stopped = false) {call : Call} {index : Nat} {account : Account}
    (found : (reassembler.enter call accounts)[index]? = some account)
    (silent : (account.settle (reassembler.call call).1.heaps.get?
      (reassembler.call call).2).outcome = .silent) :
    account.outcome = .pending ∧ account.IsMarker reassembler.settings.compat ∧
      reassembler.EndsStream call ∧
      ∃ packet, call.packet? = some packet ∧ account.count = packet.heapCount := by
  obtain ⟨entered, leaves⟩ := keeps_call coherent keeps call
  rcases entered.silent_settle leaves found silent with
    earlier | ⟨pending, heap, held, holds, marker⟩
  · have member := mem_of_mem_enter (List.mem_of_getElem? found) (by simp [earlier])
    exact absurd earlier (silence.spoken running account member)
  · obtain ⟨ends, brought⟩ := midway_marked (silence.unmarked running) held marker.1
    exact ⟨pending, holds.isMarker marker, ends, brought⟩

theorem Silence.after
    (coherent : reassembler.Coherent)
    (keeps : Keeps accounts reassembler.heaps.get? reassembler.nextSequence)
    (silence : Silence reassembler.settings.compat reassembler accounts) (call : Call) :
    Silence reassembler.settings.compat (reassembler.call call).1
      ((reassembler.enter call accounts).map
        (Account.settle (reassembler.call call).1.heaps.get? (reassembler.call call).2)) := by
  cases stopped : reassembler.stopped with
  | true =>
      have still : (reassembler.call call).1.stopped = true := by
        rw [call_of_stopped stopped]
        exact (recounts_overlook reassembler call).stopped.trans stopped
      rw [settle_enter_of_stopped coherent keeps stopped]
      exact ⟨by simp [still], by simp [still], silence.once, silence.marker⟩
  | false =>
      obtain ⟨entered, leaves⟩ := keeps_call coherent keeps call
      have passed {account : Account} (member : account ∈ reassembler.enter call accounts)
          (silent : (account.settle (reassembler.call call).1.heaps.get?
            (reassembler.call call).2).outcome = .silent) :=
        have ⟨_, found⟩ := List.mem_iff_getElem?.1 member
        silence.silent_settle coherent keeps stopped found silent
      have goesOn (running : (reassembler.call call).1.stopped = false) :
          ¬ reassembler.EndsStream call := by
        intro ends
        rw [(stopped_call coherent call).2 (Or.inr ends)] at running
        cases running
      constructor
      case unmarked =>
        intro running count heap held
        by_contra marked
        rw [Bool.not_eq_false] at marked
        have entered := leaves.held held
        exact goesOn running (midway_marked (silence.unmarked stopped) entered marked).1
      case spoken =>
        intro running account member silent
        obtain ⟨before, held, rfl⟩ := List.mem_map.1 member
        exact goesOn running (passed held silent).2.2.1
      case once =>
        -- Two markers taken out by one call would be of one heap, and so of one account.
        rw [List.pairwise_map, List.pairwise_iff_getElem]
        intro left right leftBound rightBound before silent silentOther
        have found := List.getElem?_eq_getElem leftBound
        have foundOther := List.getElem?_eq_getElem rightBound
        obtain ⟨pending, _, _, packet, brought, ofPacket⟩ :=
          silence.silent_settle coherent keeps stopped found silent
        obtain ⟨pendingOther, _, _, other, broughtOther, ofOther⟩ :=
          silence.silent_settle coherent keeps stopped foundOther silentOther
        rw [brought, Option.some_inj] at broughtOther
        rw [← broughtOther] at ofOther
        have equal := entered.unique found foundOther pending pendingOther
          (ofPacket.trans ofOther.symm)
        omega
      case marker =>
        intro account member silent
        obtain ⟨before, held, rfl⟩ := List.mem_map.1 member
        have marker := (passed held silent).2.1
        rw [Account.IsMarker, Account.accepted_settle]
        exact marker

end Silence

/-! ## Ledgers -/

/-- A reassembler with the accounts of all heaps that were begun and with all that was told. -/
structure Ledger where
  reassembler : Reassembler
  accounts : List Account
  told : List ReassemblyEvent

namespace Ledger

def start (settings : ReassemblerSettings) : Ledger :=
  ⟨.new settings, [], []⟩

def next (ledger : Ledger) (call : Call) : Ledger :=
  let (after, events) := ledger.reassembler.call call
  ⟨after,
    (ledger.reassembler.enter call ledger.accounts).map
      (Account.settle after.heaps.get? events),
    ledger.told ++ events⟩

def run (settings : ReassemblerSettings) (calls : List Call) : Ledger :=
  calls.foldl next (start settings)

theorem run_append_singleton (settings : ReassemblerSettings) (calls : List Call) (call : Call) :
    run settings (calls ++ [call]) = (run settings calls).next call := by
  simp [run]

/-- A ledger follows the same run as a recording. -/
theorem reassembler_run (settings : ReassemblerSettings) (calls : List Call) :
    (run settings calls).reassembler = (Recording.run settings calls).reassembler := by
  induction calls using List.reverseRecOn with
  | nil => rfl
  | append_singleton calls call inductionHypothesis =>
      rw [run_append_singleton, Recording.run_append_singleton, next, Recording.next,
        inductionHypothesis]

theorem coherent_run (settings : ReassemblerSettings) (calls : List Call) :
    (run settings calls).reassembler.Coherent := by
  rw [reassembler_run]
  exact (Recording.faithful_run settings calls).coherent

theorem coherent_call
    (settings : ReassemblerSettings) (calls : List Call) (call : Call) :
    ((run settings calls).reassembler.call call).1.Coherent :=
  (coherent_run settings calls).answer call

theorem settings_run (settings : ReassemblerSettings) (calls : List Call) :
    (run settings calls).reassembler.settings = (new settings).settings := by
  rw [reassembler_run, Recording.settings_run]

theorem keeps_run (settings : ReassemblerSettings) (calls : List Call) :
    Keeps (run settings calls).accounts (run settings calls).reassembler.heaps.get?
      (run settings calls).reassembler.nextSequence := by
  induction calls using List.reverseRecOn with
  | nil => exact keeps_nil
  | append_singleton calls call inductionHypothesis =>
      obtain ⟨keeps, leaves⟩ := keeps_call (coherent_run settings calls) inductionHypothesis call
      rw [run_append_singleton]
      exact keeps.settle leaves

theorem length_accounts_next (settings : ReassemblerSettings) (calls : List Call) (call : Call) :
    ((run settings calls).next call).accounts.length =
      ((run settings calls).reassembler.call call).1.nextSequence := by
  have keeps := keeps_run settings (calls ++ [call])
  rw [run_append_singleton] at keeps
  exact keeps.length

/-- Everything that is told of the end of a heap is on record with the heap's account, once. -/
theorem perm_told_run (settings : ReassemblerSettings) (calls : List Call) :
    ((run settings calls).accounts.filterMap Account.told?).Perm
      ((run settings calls).told.filter fun event => event.ends?.isSome) := by
  induction calls using List.reverseRecOn with
  | nil => exact .nil
  | append_singleton calls call inductionHypothesis =>
      obtain ⟨keeps, leaves⟩ :=
        keeps_call (coherent_run settings calls) (keeps_run settings calls) call
      rw [run_append_singleton]
      refine (keeps.perm_told_settle leaves).trans ?_
      rw [filterMap_told?_enter, next, List.filter_append]
      exact inductionHypothesis.append_right _

theorem ends?_told_run
    (settings : ReassemblerSettings) (calls : List Call) {account : Account}
    {event : ReassemblyEvent} (member : account ∈ (run settings calls).accounts)
    (told : account.outcome = .told event) :
    event.ends? = some account.count := by
  induction calls using List.reverseRecOn generalizing account with
  | nil => cases member
  | append_singleton calls call inductionHypothesis =>
      rw [run_append_singleton] at member
      obtain ⟨before, entered, rfl⟩ := List.mem_map.1 member
      rw [Account.count_settle]
      cases earlier : before.outcome with
      | pending => exact Account.ends?_of_settle earlier told
      | silent =>
          rw [Account.settle_of_not_pending (by simp [earlier]), earlier] at told
          cases told
      | told own =>
          have settled : before.outcome ≠ .pending := by simp [earlier]
          rw [Account.settle_of_not_pending settled] at told
          exact inductionHypothesis (mem_of_mem_enter entered settled) told

theorem silence_run (settings : ReassemblerSettings) (calls : List Call) :
    Silence settings.compat (run settings calls).reassembler (run settings calls).accounts := by
  induction calls using List.reverseRecOn with
  | nil =>
      refine ⟨?_, ?_, ?_, ?_⟩ <;> simp [run, start, Unmarked, new]
  | append_singleton calls call inductionHypothesis =>
      have compat : (run settings calls).reassembler.settings.compat = settings.compat := by
        rw [settings_run]
        rfl
      rw [← compat] at inductionHypothesis
      rw [run_append_singleton, ← compat]
      exact inductionHypothesis.after (coherent_run settings calls) (keeps_run settings calls) call

end Ledger
end Reassembler
end Spead
