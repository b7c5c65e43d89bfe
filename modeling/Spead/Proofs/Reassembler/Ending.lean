import Spead.Proofs.Reassembler.Ledger

/-!
The end of the stream.

The first request to stop, or the first packet with the mark of the end that is not late, ends the
stream: the heaps that the call leaves incomplete are given up in the order in which they were
begun, the end is told, and nothing follows.
-/

namespace Spead

/-- How the heap of an account is given up when the stream ends. -/
def Account.truncation (account : Account) : ReassemblyEvent :=
  .dropped (.truncatedHeap account.count (gathered account.accepted).card
    account.opener.heapLength)

theorem Account.Holds.truncation_eq
    {account : Account} {heap : PartialHeap} (holds : account.Holds heap) :
    account.truncation =
      .dropped (.truncatedHeap heap.count heap.received.total heap.heapLength) := by
  rw [Account.truncation, holds.count, holds.heapLength, holds.made.total_eq_card]

namespace Reassembler

/-! ## Heaps in the order in which they were begun -/

section Order

variable {reassembler : Reassembler} {accounts : List Account} {next : Nat}

def oldestFirst (reassembler : Reassembler) : List PartialHeap :=
  reassembler.heaps.values.mergeSort fun left right => left.sequence ≤ right.sequence

theorem mem_oldestFirst (coherent : reassembler.Coherent) (heap : PartialHeap) :
    heap ∈ reassembler.oldestFirst ↔ ∃ count, reassembler.heaps.get? count = some heap := by
  rw [oldestFirst, List.mem_mergeSort, Table.mem_values_iff coherent.ascending]

/-- Heaps of one table differ in their sequence numbers, as their accounts do. -/
theorem nodup_sequence
    (coherent : reassembler.Coherent) (keeps : Keeps accounts reassembler.heaps.get? next) :
    (reassembler.oldestFirst.map PartialHeap.sequence).Nodup := by
  have counts := Table.nodup_keys coherent.ascending
  rw [← coherent.map_count_values, List.Nodup, List.pairwise_map] at counts
  refine ((List.mergeSort_perm _ _).map PartialHeap.sequence).nodup_iff.2 ?_
  rw [List.Nodup, List.pairwise_map]
  apply counts.imp_of_mem
  intro left right leftMember rightMember different same
  obtain ⟨_, found⟩ := (Table.mem_values_iff coherent.ascending left).1 leftMember
  obtain ⟨_, foundOther⟩ := (Table.mem_values_iff coherent.ascending right).1 rightMember
  obtain ⟨account, located, _, holds⟩ := keeps.held _ left found
  obtain ⟨other, locatedOther, _, holdsOther⟩ := keeps.held _ right foundOther
  rw [same, locatedOther, Option.some_inj] at located
  rw [located] at holdsOther
  exact different (holds.count.trans holdsOther.count.symm)

theorem pairwise_sequence
    (coherent : reassembler.Coherent) (keeps : Keeps accounts reassembler.heaps.get? next) :
    (reassembler.oldestFirst.map PartialHeap.sequence).Pairwise (· < ·) := by
  have ascending : (reassembler.oldestFirst.map PartialHeap.sequence).Pairwise (· ≤ ·) := by
    rw [List.pairwise_map]
    refine (List.pairwise_mergeSort ?_ ?_ _).imp of_decide_eq_true
    · intro left middle right
      simpa using Nat.le_trans
    · intro left right
      simpa using Nat.le_total left.sequence right.sequence
  exact (ascending.and (nodup_sequence coherent keeps)).imp fun both =>
    Nat.lt_of_le_of_ne both.1 both.2

def pendingPlaces (accounts : List Account) : List Nat :=
  (accounts.zipIdx.filter fun place => place.1.outcome = .pending).map Prod.snd

theorem pairwise_pendingPlaces (accounts : List Account) :
    (pendingPlaces accounts).Pairwise (· < ·) := by
  have places : (accounts.zipIdx.map Prod.snd).Pairwise (· < ·) := by
    rw [List.zipIdx_map_snd]
    exact List.pairwise_lt_range' 1
  exact places.sublist (List.filter_sublist.map Prod.snd)

theorem mem_pendingPlaces (accounts : List Account) (place : Nat) :
    place ∈ pendingPlaces accounts ↔
      ∃ account, accounts[place]? = some account ∧ account.outcome = .pending := by
  simp only [pendingPlaces, List.mem_map, List.mem_filter, decide_eq_true_eq, Prod.exists,
    List.mk_mem_zipIdx_iff_getElem?, exists_eq_right]

/-- The heaps of a table, sorted by sequence numbers, are those of the pending accounts in the
order of the ledger. -/
theorem map_sequence_oldestFirst
    (coherent : reassembler.Coherent) (keeps : Keeps accounts reassembler.heaps.get? next) :
    reassembler.oldestFirst.map PartialHeap.sequence = pendingPlaces accounts := by
  have sorted := pairwise_sequence coherent keeps
  have places := pairwise_pendingPlaces accounts
  refine List.Perm.eq_of_pairwise ?_ sorted places ?_
  · intro left right _ _ before behind
    exact absurd before (Nat.lt_asymm behind)
  · apply (List.perm_ext_iff_of_nodup (sorted.imp Nat.ne_of_lt) (places.imp Nat.ne_of_lt)).2
    intro place
    rw [mem_pendingPlaces, List.mem_map]
    constructor
    · rintro ⟨heap, member, rfl⟩
      obtain ⟨count, held⟩ := (mem_oldestFirst coherent heap).1 member
      obtain ⟨account, located, pending, _⟩ := keeps.held count heap held
      exact ⟨account, located, pending⟩
    · rintro ⟨account, located, pending⟩
      obtain ⟨heap, held, sequence⟩ := keeps.pending place account located pending
      exact ⟨heap, (mem_oldestFirst coherent heap).2 ⟨_, held⟩, sequence⟩

theorem map_truncated_oldestFirst
    (coherent : reassembler.Coherent) (keeps : Keeps accounts reassembler.heaps.get? next) :
    (reassembler.oldestFirst.map fun heap =>
        ReassemblyEvent.dropped
          (.truncatedHeap heap.count heap.received.total heap.heapLength)) =
      (accounts.filter fun account => account.outcome = .pending).map Account.truncation := by
  -- Both sides are read off the places of the pending accounts.
  let truncationAt (place : Nat) : Option ReassemblyEvent :=
    accounts[place]?.map Account.truncation
  calc reassembler.oldestFirst.map _
      = (reassembler.oldestFirst.map PartialHeap.sequence).filterMap truncationAt := by
        rw [List.filterMap_map, ← List.filterMap_eq_map]
        apply List.filterMap_congr
        intro heap member
        obtain ⟨count, held⟩ := (mem_oldestFirst coherent heap).1 member
        obtain ⟨account, located, _, holds⟩ := keeps.held count heap held
        simp only [Function.comp_apply, truncationAt, located, Option.map_some,
          holds.truncation_eq]
    _ = (pendingPlaces accounts).filterMap truncationAt := by
        rw [map_sequence_oldestFirst coherent keeps]
    _ = ((accounts.zipIdx.filter fun place => place.1.outcome = .pending).map Prod.fst).map
          Account.truncation := by
        rw [pendingPlaces, List.filterMap_map, List.map_map, ← List.filterMap_eq_map]
        apply List.filterMap_congr
        intro place member
        have located := List.mem_zipIdx_iff_getElem?.1 (List.mem_filter.1 member).1
        simp only [Function.comp_apply, truncationAt, located, Option.map_some]
    _ = (accounts.filter fun account => account.outcome = .pending).map Account.truncation := by
        have whole := List.filter_map (f := Prod.fst)
          (p := fun account : Account => account.outcome = .pending) (l := accounts.zipIdx)
        rw [List.zipIdx_map_fst] at whole
        rw [whole]
        rfl

end Order

/-! ## The call that ends the stream -/

section Calls

variable {reassembler : Reassembler} {call : Call}

theorem stop_of_running (running : reassembler.stopped = false) :
    reassembler.stop.2 =
      (reassembler.oldestFirst.map fun heap =>
        ReassemblyEvent.dropped
          (.truncatedHeap heap.count heap.received.total heap.heapLength)) ++
        [.endOfStream] := by
  rw [stop, if_neg (by simp [running])]
  rfl

theorem Accepts.kind_ne
    {after : Reassembler} {packet : Packet} {events : List ReassemblyEvent}
    (accepts : reassembler.Accepts packet after events) (coherent : reassembler.Coherent)
    (running : reassembler.stopped = false)
    (fresh : reassembler.fate? packet.heapCount = none) :
    ∀ event ∈ events, event.kind ≠ .ending ∧ event.kind ≠ .truncation := by
  intro event told
  cases accepts with
  | oversized _ _ _ _ =>
      rw [List.mem_singleton] at told
      simp [told, ReassemblyEvent.kind]
  | refused objection _ _ =>
      rw [List.mem_singleton] at told
      have blames := PartialHeap.blames_of_objection? objection
      simp [told, blames.kind_dropped]
  | unresolved _ _ unresolved _ _ =>
      rw [List.mem_singleton] at told
      have blames := PartialHeap.blames_of_resolve unresolved
      simp [told, blames.kind_dropped]
  | completed _ _ _ _ _ =>
      split at told
      · cases told
      · rw [List.mem_singleton] at told
        simp [told, ReassemblyEvent.kind]
  | kept _ _ recounts evicted _ =>
      have evicts := evicts_kept coherent running fresh recounts evicted
      obtain ⟨heap, _, rfl⟩ := evicts.events event told
      simp [ReassemblyEvent.kind]

/-- The effects that a call has of its own give nothing up because of the end. -/
theorem kind_ne_of_mem_effects
    (coherent : reassembler.Coherent) (running : reassembler.stopped = false) (call : Call) :
    ∀ event ∈ (reassembler.effects call).2, event.kind ≠ .ending ∧ event.kind ≠ .truncation := by
  rcases reassembler.effects_cases call with ⟨same, _⟩ | ⟨packet, brought, fresh, _⟩
  · simp [same]
  · exact (accepts_effects coherent brought fresh).kind_ne coherent running fresh

theorem not_endOfStream_mem_effects
    (coherent : reassembler.Coherent) (running : reassembler.stopped = false) (call : Call) :
    .endOfStream ∉ (reassembler.effects call).2 := by
  intro told
  exact (kind_ne_of_mem_effects coherent running call _ told).1 rfl

theorem endOfStream_mem_call
    (coherent : reassembler.Coherent) (call : Call) :
    .endOfStream ∈ (reassembler.call call).2 ↔
      reassembler.stopped = false ∧ reassembler.EndsStream call := by
  rcases reassembler.call_cases call with ⟨stopped, same⟩ | ⟨running, goesOn, same⟩ |
    ⟨running, ends, same⟩
  · simp [same, stopped]
  · have quiet := not_endOfStream_mem_effects coherent running call
    simp [same, goesOn, quiet]
  · rw [same, stop_of_running (stopped_effects coherent running call)]
    simp [running, ends]

/-- Whether the stream has ended can be told from the events. -/
theorem stopped_call_eq
    (coherent : reassembler.Coherent) (call : Call) :
    (reassembler.call call).1.stopped =
      (reassembler.stopped || (reassembler.call call).2.contains .endOfStream) := by
  rw [Bool.eq_iff_iff, stopped_call coherent, Bool.or_eq_true, List.contains_iff_mem,
    endOfStream_mem_call coherent]
  cases reassembler.stopped <;> simp

end Calls

/-! ## Whole runs -/

namespace Ledger

/-- The accounts of the heaps that a call leaves incomplete, but for the end of the stream. -/
def left (ledger : Ledger) (call : Call) : List Account :=
  let (after, events) := ledger.reassembler.effects call
  ((ledger.reassembler.enter call ledger.accounts).map
    (Account.settle after.heaps.get? events)).filter fun account => account.outcome = .pending

theorem stopped_run_iff (settings : ReassemblerSettings) (calls : List Call) :
    (run settings calls).reassembler.stopped = true ↔
      ∃ earlier call, earlier ++ [call] <+: calls ∧
        (run settings earlier).reassembler.EndsStream call := by
  induction calls using List.reverseRecOn with
  | nil => simp [run, start, new]
  | append_singleton calls call inductionHypothesis =>
      rw [run_append_singleton]
      change ((run settings calls).reassembler.call call).1.stopped = true ↔ _
      rw [stopped_call (coherent_run settings calls), inductionHypothesis]
      constructor
      · rintro (⟨earlier, other, before, ends⟩ | ends)
        · exact ⟨earlier, other, before.trans (List.prefix_append calls [call]), ends⟩
        · exact ⟨calls, call, List.prefix_rfl, ends⟩
      · rintro ⟨earlier, other, before, ends⟩
        rcases List.prefix_concat_iff.1 before with same | shorter
        · obtain ⟨rfl, rfl⟩ := List.append_singleton_inj.1 same
          exact Or.inr ends
        · exact Or.inl ⟨earlier, other, shorter, ends⟩

theorem endOfStream_mem_told_iff (settings : ReassemblerSettings) (calls : List Call) :
    .endOfStream ∈ (run settings calls).told ↔
      (run settings calls).reassembler.stopped = true := by
  induction calls using List.reverseRecOn with
  | nil => simp [run, start, new]
  | append_singleton calls call inductionHypothesis =>
      have coherent := coherent_run settings calls
      rw [run_append_singleton, next]
      dsimp only
      rw [List.mem_append, inductionHypothesis, endOfStream_mem_call coherent,
        stopped_call coherent]
      cases (run settings calls).reassembler.stopped <;> simp

theorem call_of_endsStream
    (settings : ReassemblerSettings) (calls : List Call) {call : Call}
    (running : (run settings calls).reassembler.stopped = false)
    (ends : (run settings calls).reassembler.EndsStream call) :
    ((run settings calls).reassembler.call call).2 =
      ((run settings calls).reassembler.effects call).2 ++
        ((run settings calls).left call).map Account.truncation ++ [.endOfStream] := by
  have coherent := coherent_run settings calls
  obtain ⟨keeps, leaves⟩ := keeps_midway coherent running (keeps_run settings calls) call
  rw [Reassembler.call_of_endsStream running ends,
    stop_of_running (stopped_effects coherent running call), List.append_assoc,
    map_truncated_oldestFirst (coherent_effects coherent running call) (keeps.settle leaves)]
  rfl

theorem told_eq_of_endOfStream_mem
    (settings : ReassemblerSettings) (calls : List Call) {before behind : List ReassemblyEvent}
    (told : (run settings calls).told = before ++ .endOfStream :: behind) :
    behind = [] ∧ .endOfStream ∉ before := by
  induction calls using List.reverseRecOn generalizing before behind with
  | nil => simp [run, start] at told
  | append_singleton calls call inductionHypothesis =>
      have coherent := coherent_run settings calls
      have quiet := endOfStream_mem_told_iff settings calls
      rw [run_append_singleton, next] at told
      dsimp only at told
      rcases (run settings calls).reassembler.call_cases call with
        ⟨_, same⟩ | ⟨running, goesOn, _⟩ | ⟨running, ends, _⟩
      · rw [same, List.append_nil] at told
        exact inductionHypothesis told
      · have nothing : .endOfStream ∉
            (run settings calls).told ++ ((run settings calls).reassembler.call call).2 := by
          rw [List.mem_append, quiet, endOfStream_mem_call coherent]
          simp [running, goesOn]
        rw [told] at nothing
        simp at nothing
      · have own := not_endOfStream_mem_effects coherent running call
        rw [call_of_endsStream settings calls running ends, ← List.append_assoc,
          ← List.append_assoc] at told
        have silent : .endOfStream ∉
            (run settings calls).told ++ ((run settings calls).reassembler.effects call).2 ++
              ((run settings calls).left call).map Account.truncation := by
          simp [quiet, running, own, Account.truncation]
        -- The end is the last of what is told, so a second one would stand in front of it.
        rcases List.eq_nil_or_concat behind with rfl | ⟨rest, last, rfl⟩
        · obtain ⟨front, _⟩ := List.append_singleton_inj.1 told
          rw [← front]
          exact ⟨rfl, silent⟩
        · rw [List.concat_eq_append, ← List.cons_append, ← List.append_assoc] at told
          obtain ⟨front, _⟩ := List.append_singleton_inj.1 told
          rw [front] at silent
          simp at silent

end Ledger

/-- What holds of the end of the stream at a call, with the ledger of the calls before it and what
is told of it. -/
structure Ending
    (settings : ReassemblerSettings) (calls : List Call) (call : Call)
    (ledger : Ledger) (events : List ReassemblyEvent) : Prop where
  /-- The end is told once, and nothing behind it. -/
  last : ∀ before behind, ledger.told ++ events = before ++ .endOfStream :: behind →
    behind = [] ∧ .endOfStream ∉ before
  /-- The end is told of the first call that asks for it. -/
  first : .endOfStream ∈ events ↔
    ledger.reassembler.EndsStream call ∧
      ∀ earlier other, earlier ++ [other] <+: calls →
        ¬ (Ledger.run settings earlier).reassembler.EndsStream other
  /-- Behind the effects of its own, that call gives up the heaps that are left, in the order in
  which they were begun. -/
  gives_up : .endOfStream ∈ events →
    events = (ledger.reassembler.effects call).2 ++
      (ledger.left call).map Account.truncation ++ [.endOfStream]
  left_perm : .endOfStream ∈ events →
    ((ledger.left call).map Account.count).Perm (ledger.reassembler.effects call).1.heaps.keys
  own : .endOfStream ∈ events → ∀ event ∈ (ledger.reassembler.effects call).2,
    event.kind ≠ .ending ∧ event.kind ≠ .truncation
  closed : .endOfStream ∈ events →
    (ledger.reassembler.call call).1.stopped = true ∧
      (ledger.reassembler.call call).1.isIdle = true
  /-- Behind the end, a call is counted and that is all. -/
  afterwards : .endOfStream ∈ ledger.told →
    ledger.reassembler.call call = (ledger.reassembler.overlook call, []) ∧
      ledger.reassembler.stopped = true ∧ ledger.reassembler.isIdle = true
  /-- A packet of a heap that is remembered as finished is ignored, whatever it carries. -/
  late : ∀ packet, call.packet? = some packet →
    (ledger.reassembler.fate? packet.heapCount).isSome →
    ledger.reassembler.call call =
      ({ ledger.reassembler with
        stats.packetsIgnored := ledger.reassembler.stats.packetsIgnored + 1 }, [])

/-- In every run the end of the stream is final, and all that is left incomplete is told of before
it. -/
theorem ending_run (settings : ReassemblerSettings) (calls : List Call) (call : Call) :
    Ending settings calls call (Ledger.run settings calls)
      ((Ledger.run settings calls).reassembler.call call).2 := by
  have coherent := Ledger.coherent_run settings calls
  have keeps := Ledger.keeps_run settings calls
  have asks := endOfStream_mem_call coherent call
  constructor
  case last =>
    intro before behind told
    apply Ledger.told_eq_of_endOfStream_mem settings (calls ++ [call])
    rw [Ledger.run_append_singleton]
    exact told
  case first =>
    have earlier := Ledger.stopped_run_iff settings calls
    rw [asks, ← Bool.not_eq_true, earlier, and_comm]
    push Not
    rfl
  case gives_up =>
    intro told
    obtain ⟨running, ends⟩ := asks.1 told
    exact Ledger.call_of_endsStream settings calls running ends
  case left_perm =>
    intro told
    have running := (asks.1 told).1
    obtain ⟨entered, leaves⟩ := keeps_midway coherent running keeps call
    exact perm_pending (coherent_effects coherent running call) (entered.settle leaves)
  case own =>
    intro told
    exact kind_ne_of_mem_effects coherent (asks.1 told).1 call
  case closed =>
    intro told
    have stopped := (stopped_call coherent call).2 (Or.inr (asks.1 told).2)
    refine ⟨stopped, ?_⟩
    rw [isIdle, (Ledger.coherent_call settings calls call).emptied stopped]
    rfl
  case afterwards =>
    intro told
    have stopped := (Ledger.endOfStream_mem_told_iff settings calls).1 told
    refine ⟨call_of_stopped stopped call, stopped, ?_⟩
    rw [isIdle, coherent.emptied stopped]
    rfl
  case late =>
    intro packet brought known
    rw [call_of_packet? brought, insertPacket_of_passed (Or.inr known) brought,
      overlook_of_packet? _ brought]

end Reassembler
end Spead
