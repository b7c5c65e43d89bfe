import Spead.Proofs.Reassembler.Ledger

/-!
The balance of a run.

Counters and ledger agree: no heap vanishes, each one meets one end, and the counters of packets
and of bytes count what they say.
-/

namespace Spead

/-! ## Bytes and repetitions -/

theorem card_gathered_append_singleton (block : List Packet) (packet : Packet) :
    (gathered (block ++ [packet])).card =
      (gathered block).card + (gathered [packet] \ gathered block).card := by
  rw [gathered_append, ← Finset.union_sdiff_self_eq_union]
  exact Finset.card_union_of_disjoint Finset.disjoint_sdiff

/-- How many packets have a slice that brings nothing new, behind the packets `before`. -/
def repetitionsBehind (before : List Packet) : List Packet → Nat
  | [] => 0
  | packet :: rest =>
      (if 0 < packet.payloadLength ∧ gathered [packet] ⊆ gathered before then 1 else 0) +
        repetitionsBehind (before ++ [packet]) rest

/-- How many packets of a block have a slice that brings nothing new. -/
def repetitions (block : List Packet) : Nat :=
  repetitionsBehind [] block

theorem repetitionsBehind_append_singleton
    (before block : List Packet) (packet : Packet) :
    repetitionsBehind before (block ++ [packet]) =
      repetitionsBehind before block +
        if 0 < packet.payloadLength ∧ gathered [packet] ⊆ gathered (before ++ block) then 1
        else 0 := by
  induction block generalizing before with
  | nil => simp [repetitionsBehind]
  | cons first rest inductionHypothesis =>
      rw [List.cons_append, repetitionsBehind, repetitionsBehind, inductionHypothesis,
        List.append_assoc, List.singleton_append, Nat.add_assoc]

theorem repetitions_append_singleton (block : List Packet) (packet : Packet) :
    repetitions (block ++ [packet]) =
      repetitions block +
        if 0 < packet.payloadLength ∧ gathered [packet] ⊆ gathered block then 1 else 0 :=
  repetitionsBehind_append_singleton [] block packet

/-! ## Sums over accounts -/

def Account.total (weight : List Packet → Nat) (accounts : List Account) : Nat :=
  (accounts.map fun account => weight account.accepted).sum

private theorem sum_map_set
    {element : Type} (weigh : element → Nat) {elements : List element} {index : Nat}
    {own : element} (located : elements[index]? = some own) (changed : element) :
    ((elements.set index changed).map weigh).sum + weigh own =
      (elements.map weigh).sum + weigh changed := by
  induction elements generalizing index with
  | nil => cases located
  | cons head tail inductionHypothesis =>
      cases index with
      | zero =>
          cases located
          simp only [List.set_cons_zero, List.map_cons, List.sum_cons]
          omega
      | succ index =>
          have rest := inductionHypothesis located
          simp only [List.set_cons_succ, List.map_cons, List.sum_cons]
          omega

theorem Account.total_settle
    (weight : List Packet → Nat) (table : Nat → Option PartialHeap)
    (events : List ReassemblyEvent) (accounts : List Account) :
    total weight (accounts.map (settle table events)) = total weight accounts := by
  simp only [total, List.map_map, Function.comp_def, accepted_settle]

section Keeps

variable {accounts : List Account} {table : Nat → Option PartialHeap} {next : Nat}

theorem Keeps.map_credit
    (keeps : Keeps accounts table next) {packet : Packet} {index : Nat} {own : Account}
    (located : accounts[index]? = some own) (pending : own.outcome = .pending)
    (ofHeap : own.count = packet.heapCount) :
    accounts.map (Account.credit packet) = accounts.set index (own.credit packet) := by
  apply List.ext_getElem?
  intro position
  rw [List.getElem?_map, List.getElem?_set]
  split
  · next same =>
      rw [← same, located, if_pos (List.getElem?_eq_some_iff.1 located).1]
      rfl
  · next different =>
      cases found : accounts[position]? with
      | none => rfl
      | some other =>
          rw [Option.map_some, Account.credit_of_not_pending]
          intro pendingOther same
          exact different
            (keeps.unique located found pending pendingOther (ofHeap.trans same.symm))

theorem Keeps.total_credit
    (keeps : Keeps accounts table next) {packet : Packet} {heap : PartialHeap}
    (present : table packet.heapCount = some heap) (weight : List Packet → Nat) :
    ∃ block, heap.MadeOf block ∧
      Account.total weight (accounts.map (Account.credit packet)) + weight block =
        Account.total weight accounts +
          weight (if heap.objection? packet = none then block ++ [packet] else block) := by
  obtain ⟨account, located, pending, holds⟩ := keeps.held _ heap present
  have ofHeap : account.count = packet.heapCount :=
    holds.count.symm.trans (keeps.keyed _ heap present)
  have credited :
      (account.credit packet).accepted =
        if heap.objection? packet = none then account.accepted ++ [packet]
        else account.accepted := by
    simp only [Account.credit, pending, ofHeap, holds.objection?_eq_none_iff, true_and]
    split <;> rfl
  refine ⟨account.accepted, holds.made, ?_⟩
  rw [keeps.map_credit located pending ofHeap, ← credited]
  exact sum_map_set (fun account => weight account.accepted) located (account.credit packet)

end Keeps

namespace Reassembler

open ReassemblyEvent

section Totals

variable {reassembler : Reassembler} {call : Call} {accounts : List Account}

theorem taken?_eq_some_iff_enters (packet : Packet) :
    reassembler.taken? call = some packet ↔
      call.packet? = some packet ∧ reassembler.Enters packet ∧
        (reassembler.target packet).objection? packet = none := by
  rw [taken?_eq_some_iff, Enters, Takes]
  tauto

/-- What is accepted grows by a packet that enters, unless it cannot belong to its heap. -/
theorem total_enterPacket
    (keeps : Keeps accounts reassembler.heaps.get? reassembler.nextSequence) {packet : Packet}
    (enters : reassembler.Enters packet) (weight : List Packet → Nat) (nothing : weight [] = 0) :
    ∃ block, (reassembler.target packet).MadeOf block ∧
      Account.total weight (reassembler.enterPacket packet accounts) + weight block =
        Account.total weight accounts +
          weight (if (reassembler.target packet).objection? packet = none then
            block ++ [packet] else block) := by
  rw [enterPacket]
  cases held : reassembler.heaps.get? packet.heapCount with
  | some heap =>
      rw [heapState_of_get? held, target_of_get? held]
      exact keeps.total_credit held weight
  | none =>
      obtain ⟨running, fresh, allows⟩ := enters
      obtain ⟨block, made, total⟩ := (keeps.begin held).total_credit
        (Function.update_self _ _ _) weight
      rw [heapState_of_absent held, target_of_absent held, fresh]
      dsimp only [Option.elim]
      rw [if_pos ⟨running, allows held⟩]
      refine ⟨block, made, total.trans ?_⟩
      simp [Account.total, Account.begun, nothing]

theorem total_enter
    (coherent : reassembler.Coherent)
    (keeps : Keeps accounts reassembler.heaps.get? reassembler.nextSequence) (call : Call)
    (weight : List Packet → Nat) (nothing : weight [] = 0) :
    match reassembler.taken? call with
    | none =>
        Account.total weight (reassembler.enter call accounts) = Account.total weight accounts
    | some packet =>
        ∃ block, (reassembler.target packet).MadeOf block ∧
          Account.total weight (reassembler.enter call accounts) + weight block =
            Account.total weight accounts + weight (block ++ [packet]) := by
  by_cases entering : ∃ packet, call.packet? = some packet ∧ reassembler.Enters packet
  · obtain ⟨packet, brought, enters⟩ := entering
    obtain ⟨block, made, total⟩ := total_enterPacket keeps enters weight nothing
    rw [enter, brought, Option.elim_some]
    cases taking : reassembler.taken? call with
    | some other =>
        obtain ⟨broughtOther, _, accepted⟩ := (taken?_eq_some_iff_enters other).1 taking
        rw [brought, Option.some_inj] at broughtOther
        rw [← broughtOther] at accepted ⊢
        rw [if_pos accepted] at total
        exact ⟨block, made, total⟩
    | none =>
        have refused : ¬ (reassembler.target packet).objection? packet = none := by
          intro accepted
          rw [(taken?_eq_some_iff_enters packet).2 ⟨brought, enters, accepted⟩] at taking
          cases taking
        rw [if_neg refused] at total
        exact Nat.add_right_cancel total
  · have passed (packet : Packet) (brought : call.packet? = some packet) :
        ¬ reassembler.Enters packet := fun enters => entering ⟨packet, brought, enters⟩
    have untaken : reassembler.taken? call = none := by
      rw [← Option.not_isSome_iff_eq_none, Option.isSome_iff_exists]
      rintro ⟨packet, taking⟩
      obtain ⟨brought, enters, _⟩ := (taken?_eq_some_iff_enters packet).1 taking
      exact passed packet brought enters
    rw [untaken]
    dsimp only
    rw [(enter_of_not_enters coherent passed accounts).1]

theorem repeats_eq
    {packet : Packet} {block : List Packet} (made : (reassembler.target packet).MadeOf block) :
    (reassembler.repeats packet).toNat =
      if 0 < packet.payloadLength ∧ gathered [packet] ⊆ gathered block then 1 else 0 := by
  have newBytes : reassembler.newBytes packet = 0 ↔ gathered [packet] ⊆ gathered block := by
    rw [Reassembler.newBytes, made.missing_eq_card, Finset.card_eq_zero,
      Finset.sdiff_eq_empty_iff_subset]
  simp only [repeats, ← newBytes]
  by_cases new : reassembler.newBytes packet = 0 <;>
    by_cases positive : 0 < packet.payloadLength <;> simp [new, positive]

end Totals

/-! ## Whole runs -/

namespace Ledger

theorem total_run (settings : ReassemblerSettings) (calls : List Call) :
    (run settings calls).reassembler.stats.bytesReceived =
        Account.total (fun block => (gathered block).card) (run settings calls).accounts ∧
      (run settings calls).reassembler.stats.packetsDuplicate =
        Account.total repetitions (run settings calls).accounts := by
  induction calls using List.reverseRecOn with
  | nil => exact ⟨rfl, rfl⟩
  | append_singleton calls call inductionHypothesis =>
      have coherent := coherent_run settings calls
      have keeps := keeps_run settings calls
      have counts := countsSlice_call coherent call
      have bytes := total_enter coherent keeps call (fun block => (gathered block).card) rfl
      have duplicates := total_enter coherent keeps call repetitions rfl
      obtain ⟨countedBytes, countedDuplicates⟩ := counts
      rw [run_append_singleton, next]
      dsimp only
      rw [Account.total_settle, Account.total_settle, countedBytes, countedDuplicates]
      generalize (run settings calls).reassembler.taken? call = taken at bytes duplicates
      cases taken with
      | none =>
          rw [bytes, duplicates]
          exact inductionHypothesis
      | some packet =>
          obtain ⟨block, made, more⟩ := bytes
          obtain ⟨other, madeOther, moreOther⟩ := duplicates
          rw [card_gathered_append_singleton, ← made.missing_eq_card] at more
          rw [repetitions_append_singleton, ← repeats_eq madeOther] at moreOther
          simp only [Option.elim_some, newBytes]
          omega

theorem countsEnds_run (settings : ReassemblerSettings) (calls : List Call) :
    (run settings calls).reassembler.stats.CountsEnds (run settings calls).told := by
  induction calls using List.reverseRecOn with
  | nil => exact ⟨rfl, rfl, rfl, rfl⟩
  | append_singleton calls call inductionHypothesis =>
      rw [run_append_singleton]
      exact countsEnds_call (coherent_run settings calls) inductionHypothesis call

theorem packets_run (settings : ReassemblerSettings) (calls : List Call) :
    (run settings calls).reassembler.stats.packets = calls.countP Call.inserts := by
  induction calls using List.reverseRecOn with
  | nil => rfl
  | append_singleton calls call inductionHypothesis =>
      rw [run_append_singleton, List.countP_append, ← inductionHypothesis]
      refine (packets_call (coherent_run settings calls) call).trans ?_
      rw [List.countP_singleton]
      cases call.inserts <;> rfl

/-! ## The balance -/

/-- Every end of a heap that was begun is told as a completion, as an eviction, as a truncation or
as an abandonment. -/
theorem length_filter_ends? (told : List ReassemblyEvent) :
    (told.filter fun event => event.ends?.isSome).length =
      tally .completion told + tally .eviction told + tally .truncation told +
        tally .abandonment told := by
  induction told with
  | nil => rfl
  | cons event later inductionHypothesis =>
      have named :
          event.ends?.isSome =
            (event.kind = .completion ∨ event.kind = .eviction ∨ event.kind = .truncation ∨
              event.kind = .abandonment : Bool) := by
        cases event with
        | heap received => rfl
        | endOfStream => rfl
        | dropped cause => cases cause <;> rfl
      rw [List.filter_cons, named]
      simp only [tally_cons]
      cases event.kind <;> simp [inductionHypothesis] <;> omega

theorem length_accounts (accounts : List Account) :
    accounts.length =
      (accounts.filterMap Account.told?).length +
        accounts.countP (fun account => account.outcome = .silent) +
        (accounts.filter fun account => account.outcome = .pending).length := by
  induction accounts with
  | nil => rfl
  | cons account rest inductionHypothesis =>
      rw [List.length_cons, List.countP_cons, List.filter_cons, List.filterMap_cons,
        Account.told?]
      cases account.outcome <;> simp <;> omega

theorem countP_silent_le_one
    {compat : Compat} {reassembler : Reassembler} {accounts : List Account}
    (silence : Silence compat reassembler accounts) :
    accounts.countP (fun account => account.outcome = .silent) ≤ 1 := by
  have once := silence.once.filter fun account => account.outcome = .silent
  have all : ∀ account ∈ accounts.filter fun account => account.outcome = .silent,
      account.outcome = .silent := by
    intro account member
    simpa using (List.mem_filter.1 member).2
  rw [List.countP_eq_length_filter]
  generalize accounts.filter (fun account => account.outcome = .silent) = silent at once all ⊢
  match silent with
  | [] => exact Nat.zero_le 1
  | [_] => exact Nat.le_refl 1
  | first :: second :: _ =>
      have apart := (List.pairwise_cons.1 once).1 second List.mem_cons_self
      exact absurd (all second (by simp)) (apart (all first (by simp)))

end Ledger

/-- Counters, events and accounts of a run agree with each other. -/
structure Ledger.Balanced
    (settings : ReassemblerSettings) (calls : List Call) (ledger : Ledger) : Prop where
  heapsCompleted : ledger.reassembler.stats.heapsCompleted = tally .completion ledger.told
  heapsEvicted : ledger.reassembler.stats.heapsEvicted = tally .eviction ledger.told
  heapsTruncated : ledger.reassembler.stats.heapsTruncated = tally .truncation ledger.told
  heapsAbandoned : ledger.reassembler.stats.heapsAbandoned =
    tally .oversize ledger.told + tally .abandonment ledger.told
  packets :
    ledger.reassembler.stats.packetsReceived + ledger.reassembler.stats.packetsIgnored +
      ledger.reassembler.stats.packetsMalformed = calls.countP Call.inserts
  /-- There is an account for every heap that was begun. -/
  begun : ledger.accounts.length = ledger.reassembler.nextSequence
  /-- Each end that was told is the one of an account. -/
  told_perm : (ledger.accounts.filterMap Account.told?).Perm
    (ledger.told.filter fun event => event.ends?.isSome)
  told_of : ∀ account ∈ ledger.accounts, ∀ event, account.outcome = .told event →
    event.ends? = some account.count
  /-- Pending are the heaps in the table. -/
  pending_iff : ∀ (index : Nat) account, ledger.accounts[index]? = some account →
    (account.outcome = .pending ↔
      ∃ heap, ledger.reassembler.heaps.get? account.count = some heap ∧ heap.sequence = index)
  silent_le_one : ledger.accounts.countP (fun account => account.outcome = .silent) ≤ 1
  silent_marker : ∀ account ∈ ledger.accounts, account.outcome = .silent →
    account.IsMarker settings.compat
  /-- No heap vanishes. -/
  conserved : ledger.accounts.length + tally .oversize ledger.told =
    ledger.reassembler.stats.heapsCompleted + ledger.reassembler.stats.heapsEvicted +
      ledger.reassembler.stats.heapsTruncated + ledger.reassembler.stats.heapsAbandoned +
      ledger.accounts.countP (fun account => account.outcome = .silent) +
      ledger.reassembler.heaps.entries.length
  bytesReceived : ledger.reassembler.stats.bytesReceived =
    (ledger.accounts.map fun account => (gathered account.accepted).card).sum
  packetsDuplicate : ledger.reassembler.stats.packetsDuplicate =
    (ledger.accounts.map fun account => repetitions account.accepted).sum

/-- After any calls the counters tell the truth, and every heap that was begun is accounted for:
it was told of once, or it is the marker that ended the stream, or it is in the table. -/
theorem balanced_run (settings : ReassemblerSettings) (calls : List Call) :
    (Ledger.run settings calls).Balanced settings calls := by
  have coherent := Ledger.coherent_run settings calls
  have keeps := Ledger.keeps_run settings calls
  have counts := Ledger.countsEnds_run settings calls
  have told := Ledger.perm_told_run settings calls
  have silence := Ledger.silence_run settings calls
  obtain ⟨bytes, duplicates⟩ := Ledger.total_run settings calls
  constructor
  case heapsCompleted => exact counts.completed
  case heapsEvicted => exact counts.evicted
  case heapsTruncated => exact counts.truncated
  case heapsAbandoned => exact counts.abandoned
  case packets => exact Ledger.packets_run settings calls
  case begun => exact keeps.length
  case told_perm => exact told
  case told_of => exact fun account member event => Ledger.ends?_told_run settings calls member
  case pending_iff =>
    intro index account found
    refine ⟨keeps.pending index account found, ?_⟩
    rintro ⟨heap, held, rfl⟩
    obtain ⟨other, located, pending, _⟩ := keeps.held account.count heap held
    rw [found] at located
    cases located
    exact pending
  case silent_le_one => exact Ledger.countP_silent_le_one silence
  case silent_marker => exact silence.marker
  case conserved =>
    have pending := (perm_pending coherent keeps).length_eq
    rw [List.length_map, ← Table.length_entries_eq_length_keys] at pending
    have ends := told.length_eq
    rw [Ledger.length_filter_ends?] at ends
    have each := Ledger.length_accounts (Ledger.run settings calls).accounts
    rw [counts.completed, counts.evicted, counts.truncated, counts.abandoned]
    omega
  case bytesReceived => exact bytes
  case packetsDuplicate => exact duplicates

end Reassembler
end Spead
