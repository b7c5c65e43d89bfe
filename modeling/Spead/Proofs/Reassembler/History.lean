import Spead.Proofs.Reassembler.Ledger

/-!
What a reassembler remembers of its past.

As long as the stream goes on, every heap that ends is told of, so that the ends can be read off
the events. The history is the end of that list, however numbers come back; and a number comes
back only when it has left the history.
-/

namespace Spead

/-! ## Numbers that come back -/

/-- No item is among the last ones, as many as `count` says, before it. -/
def Spaced {element : Type} (count : Nat) (items : List element) : Prop :=
  ∀ before item behind, items = before ++ item :: behind → item ∉ before.rtake count

section Spaced

variable {element : Type} {count : Nat} {items : List element} {item : element}

theorem spaced_nil : Spaced count ([] : List element) := by
  intro before item behind split
  simp at split

theorem Spaced.append_singleton
    (spaced : Spaced count items) (fresh : item ∉ items.rtake count) :
    Spaced count (items ++ [item]) := by
  intro before own behind split
  rcases List.eq_nil_or_concat behind with rfl | ⟨rest, last, rfl⟩
  · obtain ⟨rfl, same⟩ := List.append_inj' split rfl
    cases same
    exact fresh
  · rw [List.concat_eq_append, ← List.cons_append, ← List.append_assoc] at split
    obtain ⟨front, _⟩ := List.append_inj' split rfl
    exact spaced before own rest front

theorem Spaced.of_append
    {later : List element} (spaced : Spaced count (items ++ later)) :
    Spaced count items := by
  intro before own behind split
  apply spaced before own (behind ++ later)
  rw [split, List.append_assoc, List.cons_append]

theorem rtake_sublist_rtake_succ (items : List element) (count : Nat) :
    (items.rtake count).Sublist (items.rtake (count + 1)) := by
  rw [List.rtake, List.rtake]
  exact List.drop_sublist_drop_left items (by omega)

theorem rtake_append_of_le
    (earlier : List element) {later : List element} (long : count ≤ later.length) :
    (earlier ++ later).rtake count = later.rtake count := by
  rw [List.rtake, List.rtake, List.drop_append, List.length_append,
    List.drop_eq_nil_of_le (by omega), List.nil_append]
  congr 1
  omega

/-- The last items are distinct. -/
theorem Spaced.nodup_rtake (spaced : Spaced count items) : (items.rtake count).Nodup := by
  induction items using List.reverseRecOn with
  | nil => simp
  | append_singleton items last inductionHypothesis =>
      have fresh := spaced items last [] rfl
      have rest := inductionHypothesis spaced.of_append
      cases count with
      | zero => simp
      | succ count =>
          have shorter := rtake_sublist_rtake_succ items count
          rw [List.rtake_concat_succ, List.nodup_append_comm, List.singleton_append,
            List.nodup_cons]
          exact ⟨fun member => fresh (shorter.mem member), rest.sublist shorter⟩

/-- Between two places of an item there are at least as many others as are kept apart. -/
theorem Spaced.between
    {earlier middle later : List element}
    (spaced : Spaced count (earlier ++ item :: middle ++ item :: later)) :
    count ≤ middle.length ∧ (middle.rtake count).Nodup ∧ item ∉ middle.rtake count := by
  have apart := spaced (earlier ++ item :: middle) item later rfl
  have distinct := spaced.of_append.nodup_rtake
  have long : count ≤ middle.length := by
    by_contra short
    refine apart (mem_rtake_append ?_ List.mem_cons_self)
    rw [List.length_cons]
    omega
  rw [List.append_cons, rtake_append_of_le _ long] at apart distinct
  exact ⟨long, distinct, apart⟩

theorem Spaced.others_between
    [DecidableEq element] {earlier middle later : List element}
    (spaced : Spaced count (earlier ++ item :: middle ++ item :: later)) :
    count ≤ (middle.filter fun other => other ≠ item).length := by
  obtain ⟨long, _, absent⟩ := spaced.between
  have others : (middle.rtake count).filter (fun other => other ≠ item) = middle.rtake count := by
    rw [List.filter_eq_self]
    intro other member
    rw [decide_eq_true_eq]
    rintro rfl
    exact absent member
  have parts : ((middle.rtake count).filter fun other => other ≠ item).Sublist
      (middle.filter fun other => other ≠ item) :=
    (List.drop_sublist _ middle).filter _
  rw [others] at parts
  have length := parts.length_le
  rw [List.rtake, List.length_drop] at length
  omega

end Spaced

/-! ## Heaps that end -/

/-- The heap that ends with an event, and how. Heaps that are given up at the end of the stream
are not remembered. -/
def ReassemblyEvent.finish? : ReassemblyEvent → Option (Nat × Fate)
  | .heap received => some (received.count, .complete)
  | .dropped (.truncatedHeap _ _ _) => none
  | .dropped cause => some (cause.heapCount, .abandoned)
  | .endOfStream => none

def finishes (told : List ReassemblyEvent) : List (Nat × Fate) :=
  told.filterMap ReassemblyEvent.finish?

theorem finishes_append (first later : List ReassemblyEvent) :
    finishes (first ++ later) = finishes first ++ finishes later :=
  List.filterMap_append

theorem ReassemblyError.Blames.finish?_dropped
    {heapCount : Nat} {cause : ReassemblyError} (blames : cause.Blames heapCount) :
    (ReassemblyEvent.dropped cause).finish? = some (heapCount, .abandoned) := by
  cases blames <;> rfl

namespace Reassembler

/-- A reassembler remembers the last of the heaps that ended. -/
structure Recalls (reassembler : Reassembler) (ended : List (Nat × Fate)) : Prop where
  history : reassembler.history =
    (ended.map Prod.fst).rtake reassembler.settings.historyLength
  fate?_iff : ∀ count fate, reassembler.fate? count = some fate ↔
    (count, fate) ∈ ended.rtake reassembler.settings.historyLength
  spaced : Spaced reassembler.settings.historyLength (ended.map Prod.fst)

theorem recalls_new (settings : ReassemblerSettings) : (new settings).Recalls [] :=
  ⟨by simp [new], by simp [new, fate?], spaced_nil⟩

section Recalls

variable {before after : Reassembler} {ended : List (Nat × Fate)} {packet : Packet}
  {events : List ReassemblyEvent}

theorem Recounts.recalls (recounts : before.Recounts after) (recalls : before.Recalls ended) :
    after.Recalls ended := by
  refine ⟨?_, ?_, ?_⟩
  · rw [recounts.history, recounts.settings]
    exact recalls.history
  · intro count fate
    rw [recounts.fate?, recounts.settings]
    exact recalls.fate?_iff count fate
  · rw [recounts.settings]
    exact recalls.spaced

theorem map_rtake {element image : Type} (into : element → image) (items : List element)
    (count : Nat) :
    (items.rtake count).map into = (items.map into).rtake count := by
  rw [List.rtake, List.rtake, List.map_drop, List.length_map]

/-- What is known of numbers after one more has been put behind some of the known ones. -/
theorem known_after_one_more
    {known : Nat → Option Fate} {kept all : List (Nat × Fate)} {count : Nat}
    (ofAll : ∀ other fate, known other = some fate ↔ (other, fate) ∈ all)
    (shorter : ∀ own ∈ kept, own ∈ all) (fresh : known count = none)
    (fate : Fate) (other : Nat) (otherFate : Fate) :
    (if other ∈ kept.map Prod.fst ++ [count] then
        if other = count then some fate else known other
      else none) = some otherFate ↔
      (other, otherFate) ∈ kept ++ [(count, fate)] := by
  simp only [List.mem_append, List.mem_singleton, Prod.mk.injEq]
  by_cases same : other = count
  · have unknown : (count, otherFate) ∉ kept := by
      intro member
      rw [(ofAll count otherFate).2 (shorter _ member)] at fresh
      cases fresh
    simp [same, unknown, eq_comm]
  · by_cases member : other ∈ kept.map Prod.fst
    · obtain ⟨⟨_, own⟩, held, rfl⟩ := List.mem_map.1 member
      have found := (ofAll _ own).2 (shorter _ held)
      rw [if_pos (Or.inl member), if_neg same, found, Option.some_inj]
      constructor
      · rintro rfl
        exact Or.inl held
      · rintro (ofKept | ⟨equal, _⟩)
        · rw [(ofAll _ otherFate).2 (shorter _ ofKept), Option.some_inj] at found
          exact found.symm
        · exact absurd equal same
    · have outside : (other, otherFate) ∉ kept := fun held =>
        member (List.mem_map_of_mem (f := Prod.fst) held)
      rw [if_neg (not_or.2 ⟨member, same⟩)]
      simp [same, outside]

/-- A heap that ends joins those that are remembered. -/
theorem Ends.recalls
    {count : Nat} {fate : Fate} (ends : before.Ends count fate after)
    (remembers : before.Remembers) (fresh : before.fate? count = none)
    (recalls : before.Recalls ended) :
    after.Recalls (ended ++ [(count, fate)]) := by
  have history :
      after.history =
        ((ended ++ [(count, fate)]).map Prod.fst).rtake before.settings.historyLength := by
    rw [ends.history_eq remembers fresh, recalls.history, rtake_rtake_append, List.map_append]
    rfl
  have absent : count ∉ (ended.map Prod.fst).rtake before.settings.historyLength := by
    rw [← recalls.history, remembers.listed, fresh]
    simp
  constructor
  case history => rw [history, ends.settings]
  case spaced =>
    rw [ends.settings, List.map_append]
    exact recalls.spaced.append_singleton absent
  case fate?_iff =>
    intro other otherFate
    have known := recalls.fate?_iff
    rw [ends.fate?, fate?_remember remembers, ← ends.history, history, ends.settings]
    cases limit : before.settings.historyLength with
    | zero => simp
    | succ length =>
        rw [limit] at known
        have shorter := rtake_sublist_rtake_succ ended length
        rw [List.map_append, List.map_singleton, List.rtake_concat_succ, List.rtake_concat_succ,
          ← map_rtake]
        exact known_after_one_more known (fun own => shorter.mem) fresh fate other otherFate

theorem recalls_evictOldest
    {reassembler : Reassembler} (coherent : reassembler.Coherent)
    (recalls : reassembler.Recalls ended) (keep excess : Nat) :
    (evictOldest keep excess reassembler).1.Recalls
      (ended ++ finishes (evictOldest keep excess reassembler).2) := by
  induction excess generalizing reassembler ended with
  | zero => simpa [evictOldest, finishes] using recalls
  | succ excess inductionHypothesis =>
      simp only [evictOldest]
      split
      · simpa [finishes] using recalls
      · next heap found =>
          have member := (List.mem_filter.1 (oldest?_mem found)).1
          obtain ⟨count, located⟩ := (Table.mem_values_iff coherent.ascending heap).1 member
          rw [← coherent.keyed count heap located] at located
          have fresh := coherent.fate?_of_get? located
          have ends := ends_evict reassembler heap
          have evicted := ends.recalls coherent.remembers fresh recalls
          rw [finishes_append, ← List.append_assoc]
          exact inductionHypothesis (ends.coherent coherent) evicted

/-- What an accepted packet makes end is told, unless it is the marker of the end of the
stream. -/
theorem Accepts.recalls
    (accepts : before.Accepts packet after events) (coherent : before.Coherent)
    (running : before.stopped = false) (fresh : before.fate? packet.heapCount = none)
    (unmarked : ((before.target packet).add packet).endOfStream = false)
    (recalls : before.Recalls ended) :
    after.Recalls (ended ++ finishes events) := by
  have sameCount := count_target coherent packet
  have grownCount : ((before.target packet).add packet).count = packet.heapCount := sameCount
  have remembers := coherent.remembers
  cases accepts with
  | oversized _ _ ends _ => exact ends.recalls remembers fresh recalls
  | refused objection ends _ =>
      have blames := PartialHeap.blames_of_objection? objection
      rw [sameCount] at blames
      rw [finishes, List.filterMap_cons_some blames.finish?_dropped]
      exact ends.recalls remembers fresh recalls
  | unresolved _ _ unresolved ends _ =>
      have blames := PartialHeap.blames_of_resolve unresolved
      rw [grownCount] at blames
      rw [finishes, List.filterMap_cons_some blames.finish?_dropped]
      exact ends.recalls remembers fresh recalls
  | completed _ _ resolved ends _ =>
      have told := PartialHeap.count_of_resolve resolved
      rw [grownCount] at told
      rw [← told] at ends fresh
      rw [unmarked, Bool.false_and, if_neg Bool.false_ne_true]
      exact ends.recalls remembers fresh recalls
  | @kept grown _ _ _ _ recounts evicted _ =>
      have held : (before.hold packet).Recalls ended :=
        ⟨recalls.history, recalls.fate?_iff, recalls.spaced⟩
      have shortened := recalls_evictOldest (coherent_kept coherent running fresh recounts)
        (recounts.recalls held) packet.heapCount
        (grown.heaps.entries.length - grown.settings.maxHeaps)
      rwa [evicted] at shortened

end Recalls

/-! ## Whole runs -/

namespace Ledger

/-- As long as the stream goes on, all ends of heaps are told, and the last of them are
remembered. -/
theorem recalls_run
    {settings : ReassemblerSettings} {calls : List Call}
    (running : (run settings calls).reassembler.stopped = false) :
    (run settings calls).reassembler.Recalls (finishes (run settings calls).told) := by
  induction calls using List.reverseRecOn with
  | nil => exact recalls_new settings
  | append_singleton calls call inductionHypothesis =>
      have coherent := coherent_run settings calls
      have unmarked := (silence_run settings calls).unmarked
      rw [run_append_singleton] at running ⊢
      change ((run settings calls).reassembler.call call).1.stopped = false at running
      change ((run settings calls).reassembler.call call).1.Recalls
        (finishes ((run settings calls).told ++ ((run settings calls).reassembler.call call).2))
      rcases (run settings calls).reassembler.call_cases call with
        ⟨stopped, same⟩ | ⟨earlier, goesOn, same⟩ | ⟨_, _, same⟩
      · have recounts := recounts_overlook (run settings calls).reassembler call
        rw [same, recounts.stopped, stopped] at running
        cases running
      · have recalls := inductionHypothesis earlier
        rw [same, finishes_append]
        rcases (run settings calls).reassembler.effects_cases call with
          ⟨passed, _⟩ | ⟨packet, brought, fresh, _⟩
        · rw [passed, finishes, finishes, List.filterMap_nil, List.append_nil]
          exact (recounts_overlook _ call).recalls recalls
        · have accepts := accepts_effects coherent brought fresh
          rw [endsStream_of_packet? brought] at goesOn
          -- Only a heap with the mark of the end leaves without a word, and there is none.
          have unmarkedGrown :
              (((run settings calls).reassembler.target packet).add packet).endOfStream =
                false := by
            rw [PartialHeap.add, (unmarked earlier).target packet, Bool.false_or,
              ← Bool.not_eq_true]
            exact fun carries => goesOn ⟨carries, fresh⟩
          exact accepts.recalls coherent earlier fresh unmarkedGrown recalls
      · rw [same, stopped_stop] at running
        cases running

end Ledger

/-! ## What becomes of a packet -/

section Packets

variable {reassembler : Reassembler} {call : Call} {packet : Packet}

theorem heapState_eq_finished_iff
    (coherent : reassembler.Coherent) (count : Nat) (fate : Fate) :
    reassembler.heapState count = .finished fate ↔ reassembler.fate? count = some fate := by
  cases held : reassembler.heaps.get? count with
  | some heap =>
      rw [heapState_of_get? held, coherent.fate?_of_get? held]
      simp
  | none =>
      rw [heapState_of_absent held]
      cases reassembler.fate? count <;> simp

theorem fate?_stop (reassembler : Reassembler) (count : Nat) :
    reassembler.stop.1.fate? count = reassembler.fate? count := by
  unfold stop
  split <;> rfl

theorem finishes_stop (coherent : reassembler.Coherent) : finishes reassembler.stop.2 = [] := by
  rw [finishes, List.filterMap_eq_nil_iff]
  intro event told
  rcases mem_stop coherent told with rfl | ⟨heap, _, rfl⟩
  · rfl
  · rfl

/-- A packet of an unknown heap that is not too long opens an account. -/
theorem enter_of_unknown
    (brought : call.packet? = some packet) (running : reassembler.stopped = false)
    (fresh : reassembler.fate? packet.heapCount = none)
    (absent : reassembler.heaps.get? packet.heapCount = none)
    (short : packet.heapLength ≤ reassembler.settings.maxHeapSize) (accounts : List Account) :
    reassembler.enter call accounts =
      (accounts ++ [Account.begun packet]).map (Account.credit packet) := by
  rw [enter, brought, Option.elim_some, enterPacket, heapState_of_absent absent, fresh]
  exact if_pos ⟨running, short⟩

/-- A packet of an unknown heap that is too long ends the heap at once. -/
theorem effects_of_too_long
    (brought : call.packet? = some packet)
    (fresh : reassembler.fate? packet.heapCount = none)
    (absent : reassembler.heaps.get? packet.heapCount = none)
    (long : reassembler.settings.maxHeapSize < packet.heapLength) :
    reassembler.effects call =
      reassembler.receiving.abandon packet.heapCount
        (.heapTooLarge packet.heapCount packet.heapLength reassembler.settings.maxHeapSize) := by
  rw [effects, brought]
  dsimp only
  have unknown : reassembler.receiving.heaps.get? packet.heapCount = none := absent
  rw [if_neg (by simp [fresh]), accept, unknown]
  exact if_pos long

/-- What a call tells begins with what it tells of its own, and so does what ends by it. -/
theorem finishes_call
    (coherent : reassembler.Coherent) (running : reassembler.stopped = false) (call : Call) :
    (∃ rest, (reassembler.call call).2 = (reassembler.effects call).2 ++ rest) ∧
      finishes (reassembler.call call).2 = finishes (reassembler.effects call).2 ∧
      ∀ count, (reassembler.call call).1.fate? count =
        (reassembler.effects call).1.fate? count := by
  rcases reassembler.call_cases call with ⟨stopped, _⟩ | ⟨_, _, same⟩ | ⟨_, _, same⟩
  · rw [running] at stopped
    cases stopped
  · rw [same]
    exact ⟨⟨[], (List.append_nil _).symm⟩, rfl, fun _ => rfl⟩
  · have nothing := finishes_stop (coherent_effects coherent running call)
    rw [same, finishes_append, nothing, List.append_nil]
    exact ⟨⟨_, rfl⟩, rfl, fate?_stop _⟩

/-- A packet of an unknown heap that is too long is answered with the cause, and the heap has
ended. -/
theorem call_of_too_long
    {ended : List (Nat × Fate)} (coherent : reassembler.Coherent)
    (running : reassembler.stopped = false) (recalls : reassembler.Recalls ended)
    (brought : call.packet? = some packet)
    (fresh : reassembler.fate? packet.heapCount = none)
    (absent : reassembler.heaps.get? packet.heapCount = none)
    (long : reassembler.settings.maxHeapSize < packet.heapLength) :
    (reassembler.call call).2.head? = some (.dropped
        (.heapTooLarge packet.heapCount packet.heapLength reassembler.settings.maxHeapSize)) ∧
      finishes (reassembler.call call).2 = [(packet.heapCount, .abandoned)] ∧
      (0 < reassembler.settings.historyLength →
        (reassembler.call call).1.fate? packet.heapCount = some .abandoned) := by
  obtain ⟨⟨rest, told⟩, finished, fates⟩ := finishes_call coherent running call
  have own := effects_of_too_long brought fresh absent long
  refine ⟨?_, ?_, ?_⟩
  · rw [told, own]
    rfl
  · rw [finished, own]
    rfl
  · intro positive
    have recounts := recounts_receiving reassembler
    have ends := ends_abandon reassembler.receiving packet.heapCount
      (.heapTooLarge packet.heapCount packet.heapLength reassembler.settings.maxHeapSize)
    have remembered := ends.recalls (recounts.coherent coherent).remembers
      (by rw [recounts.fate?, fresh]) (recounts.recalls recalls)
    rw [fates, own, remembered.fate?_iff, ends.settings]
    exact mem_rtake_append positive (List.mem_singleton_self _)

end Packets

/-! ## The last heaps that ended -/

/-- A reassembler in a stream that goes on remembers the last heaps that ended, as many as the
settings say. -/
structure RemembersLast (settings : ReassemblerSettings) (ledger : Ledger) : Prop where
  history : ledger.reassembler.history =
    ((finishes ledger.told).map Prod.fst).rtake settings.historyLength
  state_iff : ∀ count fate, ledger.reassembler.heapState count = .finished fate ↔
    (count, fate) ∈ (finishes ledger.told).rtake settings.historyLength
  /-- A packet of a heap that is remembered is only counted. -/
  ignores : ∀ (call : Call) packet, call.packet? = some packet →
    packet.heapCount ∈ ((finishes ledger.told).map Prod.fst).rtake settings.historyLength →
    ledger.reassembler.call call =
      ({ ledger.reassembler with
        stats.packetsIgnored := ledger.reassembler.stats.packetsIgnored + 1 }, [])
  /-- Any other packet begins its heap, if that is not in the table. -/
  begins : ∀ (call : Call) packet, call.packet? = some packet →
    packet.heapCount ∉ ((finishes ledger.told).map Prod.fst).rtake settings.historyLength →
    ledger.reassembler.heaps.get? packet.heapCount = none →
    packet.heapLength ≤ settings.maxHeapSize →
    (ledger.reassembler.call call).1.nextSequence = ledger.reassembler.nextSequence + 1 ∧
      (ledger.next call).accounts.length = ledger.accounts.length + 1 ∧
      (ledger.next call).accounts.getLast?.map Account.opener = some packet
  /-- One that is too long has ended at once. -/
  refuses : ∀ (call : Call) packet, call.packet? = some packet →
    packet.heapCount ∉ ((finishes ledger.told).map Prod.fst).rtake settings.historyLength →
    ledger.reassembler.heaps.get? packet.heapCount = none →
    settings.maxHeapSize < packet.heapLength →
    (ledger.reassembler.call call).1.nextSequence = ledger.reassembler.nextSequence ∧
      (ledger.reassembler.call call).2.head? = some (.dropped
        (.heapTooLarge packet.heapCount packet.heapLength settings.maxHeapSize)) ∧
      finishes (ledger.reassembler.call call).2 = [(packet.heapCount, .abandoned)] ∧
      (0 < settings.historyLength →
        (ledger.reassembler.call call).1.heapState packet.heapCount = .finished .abandoned)
  /-- Between two ends of one number there are as many others as are remembered, and the last of
  them are distinct. -/
  apart : ∀ earlier count middle later,
    (finishes ledger.told).map Prod.fst = earlier ++ count :: middle ++ count :: later →
    settings.historyLength ≤ (middle.filter fun other => other ≠ count).length ∧
      (middle.rtake settings.historyLength).Nodup ∧
      count ∉ middle.rtake settings.historyLength

/-- The history of a stream that goes on is that of the last heaps that ended. -/
theorem remembersLast_run
    {settings : ReassemblerSettings} {calls : List Call}
    (running : (Ledger.run settings calls).reassembler.stopped = false) :
    RemembersLast settings (Ledger.run settings calls) := by
  have coherent := Ledger.coherent_run settings calls
  have recalls := Ledger.recalls_run running
  have keeps := Ledger.keeps_run settings calls
  have limits := Ledger.settings_run settings calls
  have length : (Ledger.run settings calls).reassembler.settings.historyLength =
      settings.historyLength := by rw [limits]; rfl
  have size : (Ledger.run settings calls).reassembler.settings.maxHeapSize =
      settings.maxHeapSize := by rw [limits]; rfl
  have history := recalls.history
  rw [length] at history
  have fresh {packet : Packet}
      (unknown : packet.heapCount ∉
        ((finishes (Ledger.run settings calls).told).map Prod.fst).rtake
          settings.historyLength) :
      (Ledger.run settings calls).reassembler.fate? packet.heapCount = none := by
    rw [← history, coherent.remembers.listed] at unknown
    simpa using unknown
  constructor
  case history => exact history
  case state_iff =>
    intro count fate
    rw [heapState_eq_finished_iff coherent, recalls.fate?_iff, length]
  case ignores =>
    intro call packet brought known
    rw [← history, coherent.remembers.listed] at known
    rw [call_of_packet? brought, insertPacket_of_passed (Or.inr known) brought,
      overlook_of_packet? _ brought]
  case begins =>
    intro call packet brought unknown absent short
    rw [← size] at short
    have entered := enter_of_unknown brought running (fresh unknown) absent short
      (Ledger.run settings calls).accounts
    have opened :
        ((Ledger.run settings calls).next call).accounts.length =
          (Ledger.run settings calls).accounts.length + 1 := by
      simp [Ledger.next, entered]
    refine ⟨?_, opened, ?_⟩
    · rw [← keeps.length, ← Ledger.length_accounts_next]
      exact opened
    · simp [Ledger.next, entered, Account.begun]
  case refuses =>
    intro call packet brought unknown absent long
    rw [← size] at long
    have refused : ¬ (Ledger.run settings calls).reassembler.Enters packet := fun enters =>
      Nat.not_le.2 long (enters.2.2 absent)
    obtain ⟨first, finished, remembered⟩ :=
      call_of_too_long coherent running recalls brought (fresh unknown) absent long
    rw [size] at first
    refine ⟨?_, first, finished, ?_⟩
    · rw [← keeps.length, ← Ledger.length_accounts_next, Ledger.next]
      dsimp only
      rw [List.length_map, (enter_of_refused coherent brought refused _).1]
    · intro positive
      rw [← length] at positive
      rw [heapState_eq_finished_iff (Ledger.coherent_call settings calls call)]
      exact remembered positive
  case apart =>
    intro earlier count middle later split
    have spaced := recalls.spaced
    rw [length, split] at spaced
    obtain ⟨_, distinct, absent⟩ := spaced.between
    exact ⟨spaced.others_between, distinct, absent⟩

/-- With room for one heap in the history, the one that ended first is forgotten. -/
theorem remembersLast_run_two_too_long :
    let packet (count : Nat) : Packet := ⟨count, 5, 0, 2, 48, [], [1, 2]⟩
    let settings : ReassemblerSettings := { historyLength := 1, maxHeapSize := 4 }
    let ledger := Ledger.run settings [.insert (packet 7), .insert (packet 8)]
    RemembersLast settings ledger ∧ ledger.reassembler.heapState 7 = .unseen ∧
      ledger.reassembler.heapState 8 = .finished .abandoned := by
  intro packet settings ledger
  have remembers : RemembersLast settings ledger := remembersLast_run rfl
  refine ⟨remembers, rfl, ?_⟩
  rw [remembers.state_iff]
  exact List.mem_singleton_self _

end Reassembler
end Spead
