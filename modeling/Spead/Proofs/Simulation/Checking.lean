import Spead.Proofs.Simulation.Sending
import Spead.Proofs.Stream.Sent

/-!
What the receiver of a simulation finds.

The receiver knows the items by the descriptors that have arrived so far. Whatever arrives, and in
whatever order, a heap that is applied to them tells of one step, so that the values that it sets
are those with which they are compared.
-/

namespace Spead
namespace Simulation

/-! ## Values of one step -/

/-- If the item of the step has been set, then it holds a step, and whatever else has been set with
it holds its value in that step. -/
def Items.ShowsOneStep (course : Items.Course) (group : Group) (updated : List Nat) : Prop :=
  Items.stepId ∈ updated →
    ∃ step < Items.stepLimit, Items.stepOf? group = some step ∧
      ∀ id ∈ updated, ∃ value, (id, value) ∈ course step ∧
        (group.get? id).bind Item.value = some value

theorem Items.stepOf?_eq
    {group : Group} {step : Nat} (small : step < Items.stepLimit)
    (held : (group.get? Items.stepId).bind Item.value =
      some (Items.array .uint32 [] [step])) :
    Items.stepOf? group = some step := by
  obtain ⟨item, found, hasValue⟩ := Option.bind_eq_some_iff.1 held
  have words : step % ElementType.uint32.wordBound = step := Nat.mod_eq_of_lt small
  unfold Items.stepOf?
  simp [found, hasValue, Items.array, ElementArray.ofWords, words]

theorem Items.Shows.oneStep
    {course : Items.Course} (documented : course.Documented) {step : Nat}
    (small : step < Items.stepLimit) {progress : Group × UpdateReport}
    (shown : Items.Shows (course step) progress) :
    Items.ShowsOneStep course progress.1 progress.2.values := by
  intro set
  obtain ⟨value, member, held⟩ := shown.stored _ set
  rw [documented.value_eq small member (documented.named step small)] at held
  exact ⟨step, small, Items.stepOf?_eq small held, shown.stored⟩

namespace Verification

/-- Values that are those of one step are not found to differ. -/
theorem mismatched_check
    {course : Items.Course} (documented : course.Documented) (comparable : course.Comparable)
    {group : Group} {updated : List Nat} (oneStep : Items.ShowsOneStep course group updated)
    (verification : Verification) :
    (check course verification group updated).mismatched = verification.mismatched := by
  unfold check
  split
  · next contained =>
      obtain ⟨step, small, named, held⟩ := oneStep (List.contains_iff_mem.1 contained)
      rw [named]
      dsimp only
      have agreed : ∀ entry ∈ (course step).filter fun item => updated.contains item.1,
          ((group.get? entry.1).bind Item.value).any entry.2.agrees = true := by
        intro entry member
        obtain ⟨ofStep, reported⟩ := List.mem_filter.1 member
        obtain ⟨value, member, found⟩ := held entry.1 (List.contains_iff_mem.1 reported)
        rw [found, ← documented.value_eq small ofStep member]
        exact comparable step small entry ofStep
      generalize (course step).filter _ = expected at agreed
      induction expected generalizing verification with
      | nil => rfl
      | cons entry rest inductionHypothesis =>
          rw [List.forall_mem_cons] at agreed
          rw [List.foldl_cons, inductionHypothesis _ agreed.2]
          simp only [checkItem, if_pos agreed.1]
  · rfl

/-- A result tells of one step, or of a heap that was given up. -/
def Harmless (course : Items.Course) : ReceiveResult → Prop
  | .ok heap => ∃ step < Items.stepLimit, Items.Tells (course step) heap
  | .error error => error.isFatal = false

section Hear

variable {course : Items.Course} (documented : course.Documented)

include documented

/-- The receiver goes on after a result. -/
theorem hear_eq_ok
    {group : Group} (populate : Items.Populate group) (verification : Verification)
    {result : ReceiveResult} (harmless : Harmless course result) :
    ∃ next found, hear course (group, verification) result = .ok (next, found) ∧
      Items.Populate next ∧ (course.Comparable → found.mismatched = verification.mismatched) := by
  cases result with
  | error error =>
      simp only [Harmless] at harmless
      refine ⟨group, { verification with lost := verification.lost + 1 }, ?_, populate, fun _ => rfl⟩
      simp [hear, harmless]
  | ok heap =>
      obtain ⟨step, small, tells⟩ := harmless
      have shown := populate.update tells
      refine ⟨_, _, rfl, shown.populate, ?_⟩
      intro comparable
      exact mismatched_check documented comparable (shown.oneStep documented small) _

theorem foldlM_hear_eq_ok
    {results : List ReceiveResult} (harmless : ∀ result ∈ results, Harmless course result)
    {group : Group} (populate : Items.Populate group) (verification : Verification) :
    ∃ next found, results.foldlM (hear course) (group, verification) = .ok (next, found) ∧
      Items.Populate next ∧ (course.Comparable → found.mismatched = verification.mismatched) := by
  induction results generalizing group verification with
  | nil => exact ⟨group, verification, rfl, populate, fun _ => rfl⟩
  | cons result rest inductionHypothesis =>
      rw [List.forall_mem_cons] at harmless
      obtain ⟨between, first, heard, populated, same⟩ :=
        hear_eq_ok documented populate verification harmless.1
      obtain ⟨next, found, others, populatedNext, sameNext⟩ :=
        inductionHypothesis harmless.2 populated first
      refine ⟨next, found, ?_, populatedNext, ?_⟩
      · rw [List.foldlM_cons, heard]
        exact others
      · intro comparable
        rw [sameNext comparable, same comparable]

end Hear

/-- The receiver comes to the end of the results. Each heap sets values of the step that it names
and no others; so nothing is found to differ, as long as no value differs from itself. -/
structure RaisesNoAlarm (course : Items.Course) (results : List ReceiveResult) : Prop where
  completes : ∃ group found, results.foldlM (hear course) (.empty, {}) = .ok (group, found) ∧
    (course.Comparable → found.mismatched = 0)
  agrees : ∀ before heap behind, results = before ++ .ok heap :: behind →
    ∃ group found, before.foldlM (hear course) (.empty, {}) = .ok (group, found) ∧
      Items.ShowsOneStep course (group.update heap).1 (group.update heap).2.values

theorem raisesNoAlarm_of_harmless
    {course : Items.Course} (documented : course.Documented) {results : List ReceiveResult}
    (harmless : ∀ result ∈ results, Harmless course result) : RaisesNoAlarm course results := by
  constructor
  case completes =>
    obtain ⟨group, found, heard, _, same⟩ :=
      foldlM_hear_eq_ok documented harmless Items.populate_empty {}
    exact ⟨group, found, heard, same⟩
  case agrees =>
    rintro before heap behind rfl
    rw [List.forall_mem_append, List.forall_mem_cons] at harmless
    obtain ⟨earlier, ⟨step, small, tells⟩, _⟩ := harmless
    obtain ⟨group, found, heard, populate, _⟩ :=
      foldlM_hear_eq_ok documented earlier Items.populate_empty {}
    exact ⟨group, found, heard, (populate.update tells).oneStep documented small⟩

end Verification

end Simulation

/-! ## Whole runs -/

theorem StreamSettings.exists_reassembler_of_flavour
    {settings : StreamSettings} {flavour : Flavour} (configured : settings.flavour = .ok flavour) :
    ∃ reassembler, settings.reassembler = .ok reassembler ∧
      reassembler.compat = flavour.compat := by
  obtain ⟨compat, known, made⟩ := Except.bind_eq_ok_iff.1 configured
  refine ⟨{ maxHeaps := settings.maxHeaps
            compat
            historyLength := settings.historyLength
            maxHeapSize := settings.maxHeapSize },
    Except.bind_eq_ok_iff.2 ⟨compat, known, rfl⟩, ?_⟩
  split at made
  · next allowed =>
      cases made
      unfold Flavour.of at allowed
      split at allowed
      · split at allowed
        · cases allowed
          rfl
        · cases allowed
      · cases allowed
  · cases made

theorem Link.drawnFrom_readings
    [RandomSource] {link : Link} {packets : List Bytes}
    (carried : ∀ flight ∈ link.network.queue, flight.packet ∈ packets) :
    ∀ reading ∈ link.readings, reading.DrawnFrom packets := by
  intro reading member
  rcases List.mem_append.1 member with packet | closed
  · obtain ⟨bytes, arrives, rfl⟩ := List.mem_map.1 packet
    obtain ⟨flight, onItsWay, rfl⟩ := List.mem_map.1 arrives
    exact carried flight (List.mem_reverse.1 onItsWay)
  · rw [List.mem_singleton.1 closed]
    trivial

namespace Simulation

section Runs

variable {course : Items.Course} {plan : Plan}

/-- A run ends with what the receiver finds. -/
theorem exists_runCourse_eq_ok
    [RandomSource] {sender : Sender} (sent : Sender.sendAll course plan = .ok sender) {stream : ReceiveStream}
    (opened : ReceiveStream.new plan.stream sender.stream.sink.close.readings = .ok stream)
    {group : Group} {found : Verification}
    (heard : stream.collect.1.foldlM (Verification.hear course) (.empty, {}) =
      .ok (group, found)) :
    ∃ outcome, runCourse course plan = .ok outcome ∧ outcome.verification = found := by
  refine ⟨{ sent := sender.stream.stats
            network := sender.stream.sink.close.network.drain.2.stats
            received := stream.collect.2.reassembler.stats
            verification := found }, ?_, rfl⟩
  unfold runCourse
  simp only [Except.bind_eq_ok_iff, liftM_eq_ok_iff]
  exact ⟨sender, sent, stream, opened, (group, found), heard, rfl⟩

/-- The program reports success if nothing was found to differ. -/
theorem Transcript.exitCode_ofOutcome_ok (plan : Plan) (outcome : Outcome) (duration : Nat) :
    (ofOutcome plan (.ok outcome) duration).exitCode = 0 ↔ outcome.verification.mismatched = 0 := by
  simp [ofOutcome, Outcome.isClean]

variable {flavour : Flavour} (documented : course.Documented)
  (configured : plan.stream.flavour = .ok flavour) (room : plan.heaps + 2 ≤ flavour.maxAddress)

include documented configured room

/-- Whatever becomes of the packets of a work, each heap that arrives tells of one step. -/
theorem Verification.raisesNoAlarm_of_delivered
    {work : Work} (made : Author.work course plan = .ok work)
    (cut : ∀ heap ∈ work.heaps, ∃ wires, heap.packetBytes plan.stream.maxPacketSize = .ok wires)
    {packets : List Bytes}
    (ofWork : ∀ bytes ∈ packets, ∃ heap ∈ work.heaps, ∃ wires,
      heap.packetBytes plan.stream.maxPacketSize = .ok wires ∧ bytes ∈ wires)
    {settings : ReassemblerSettings} (compat : settings.compat = flavour.compat)
    {readings : List Reading} (drawn : ∀ reading ∈ readings, reading.DrawnFrom packets)
    {halted : Bool} {results : List ReceiveResult}
    (given : ∀ result ∈ results, result ∈ ReceiveStream.delivered settings readings halted) :
    RaisesNoAlarm course results := by
  obtain ⟨sound, length⟩ := Author.sound_work documented configured made
  have numbered := sound.produces.numbered
  have oneWindow : work.heaps = [] ++ work.heaps ++ [] := by
    simp
  have distinct : (work.heaps.map Heap.count).Nodup :=
    numbered.nodup_counts oneWindow (length ▸ room)
  have sameCompat : ∀ heap ∈ work.heaps, heap.flavour.compat = settings.compat := by
    intro heap listed
    rw [numbered.heapFlavour heap listed, compat]
  have ofSent : ∀ bytes ∈ packets, Reassembler.Drawn work.heaps (.receive bytes) := by
    intro bytes listed
    obtain ⟨heap, ofHeaps, wires, cutInto, ofWires⟩ := ofWork bytes listed
    exact .wire ofHeaps cutInto ofWires
  apply raisesNoAlarm_of_harmless documented
  intro result member
  rcases ReceiveStream.sent_or_reassembly_of_mem_delivered distinct sound.avoids sameCompat ofSent
    drawn (given result member) with ⟨heap, listed, received, delivered, rfl⟩ | ⟨cause, rfl⟩
  · rw [Heap.eq_of_delivered? delivered]
    obtain ⟨wires, cutInto⟩ := cut heap listed
    obtain ⟨own, cutPackets, _⟩ := Except.map_eq_ok_iff.1 cutInto
    exact sound.tells heap listed _ own cutPackets
  · rfl

/-- The run over the network of the plan comes to its end. -/
theorem exists_runCourse_of_sendAll
    [RandomSource] {sender : Sender} (sent : Sender.sendAll course plan = .ok sender) :
    ∃ outcome, runCourse course plan = .ok outcome ∧
      (course.Comparable → outcome.verification.mismatched = 0) := by
  obtain ⟨valid, work, made, sends⟩ := Sender.sendAll_eq_ok sent
  obtain ⟨settings, assembled, compat⟩ := StreamSettings.exists_reassembler_of_flavour configured
  obtain ⟨packets, _, ofWork, carried⟩ := sends.exists_packets made
  have opened :
      ReceiveStream.new plan.stream sender.stream.sink.close.readings =
        .ok (.fresh settings plan.stream.ringCapacity sender.stream.sink.close.readings) :=
    ReceiveStream.new_eq_ok_iff.2 ⟨valid, settings, assembled, rfl⟩
  obtain ⟨heard, halted, consumed, collected⟩ :=
    ReceiveStream.exists_collect_eq_delivered assembled opened
  have drawn : ∀ reading ∈ sender.stream.sink.close.readings, reading.DrawnFrom packets :=
    Link.drawnFrom_readings carried
  rw [consumed, List.forall_mem_append] at drawn
  have quiet : Verification.RaisesNoAlarm course (ReceiveStream.delivered settings heard halted) :=
    Verification.raisesNoAlarm_of_delivered documented configured room made sends.cut ofWork compat
      drawn.1 fun _ member => member
  obtain ⟨group, found, completes, same⟩ := quiet.completes
  rw [← collected] at completes
  obtain ⟨outcome, ended, rfl⟩ := exists_runCourse_eq_ok sent opened completes
  exact ⟨outcome, ended, same⟩

end Runs

/-- When a sender has sent what its plan asks for, with no more heaps than there are numbers, then
its receiver raises no alarm: whichever packets are lost, doubled or moved, however little the
receiver can hold, and whenever it is stopped. So it is in the run of the plan, over its own
network. -/
theorem Verification.raisesNoAlarm_of_sendAll
    [RandomSource] {course : Items.Course} (documented : course.Documented) {plan : Plan} {flavour : Flavour}
    (configured : plan.stream.flavour = .ok flavour)
    (room : plan.heaps + 2 ≤ flavour.maxAddress) {sender : Sender}
    (sent : Sender.sendAll course plan = .ok sender) :
    (∃ packets, Sender.packets course plan = .ok packets ∧
      ∀ readings, (∀ reading ∈ readings, reading.DrawnFrom packets) →
        ∃ stream, ReceiveStream.new plan.stream readings = .ok stream ∧
          ∀ schedule, RaisesNoAlarm course (Watched.run ⟨stream, [], false⟩ schedule).taken) ∧
    ∃ outcome, runCourse course plan = .ok outcome ∧
      (course.Comparable → outcome.verification.mismatched = 0 ∧
        ∀ duration, (Transcript.ofOutcome plan (.ok outcome) duration).exitCode = 0) := by
  constructor
  · obtain ⟨valid, work, made, sends⟩ := Sender.sendAll_eq_ok sent
    obtain ⟨settings, assembled, compat⟩ :=
      StreamSettings.exists_reassembler_of_flavour configured
    obtain ⟨packets, listed, ofWork, _⟩ := sends.exists_packets made
    refine ⟨packets, listed, ?_⟩
    intro readings drawn
    have opened :
        ReceiveStream.new plan.stream readings =
          .ok (.fresh settings plan.stream.ringCapacity readings) :=
      ReceiveStream.new_eq_ok_iff.2 ⟨valid, settings, assembled, rfl⟩
    refine ⟨_, opened, ?_⟩
    intro schedule
    have delivers := (ReceiveStream.delivers_new assembled opened).run schedule
    obtain ⟨heard, consumed, owes⟩ := delivers.owes
    rw [consumed, List.forall_mem_append] at drawn
    apply raisesNoAlarm_of_delivered documented configured room made sends.cut ofWork compat drawn.1
    intro result taken
    rw [← owes.delivered, List.append_assoc]
    exact List.mem_append_left _ taken
  · obtain ⟨outcome, ended, same⟩ := exists_runCourse_of_sendAll documented configured room sent
    refine ⟨outcome, ended, ?_⟩
    intro comparable
    have clean := same comparable
    exact ⟨clean, fun duration => (Transcript.exitCode_ofOutcome_ok plan outcome duration).2 clean⟩

/-- Over this network two packets are doubled, and one is lost with its heap. -/
theorem Verification.raisesNoAlarm_of_sendAll_losing_a_heap :
    let network : NetworkSettings :=
      { jitter := 9, lossRate := .ofRatio 1 10, duplicateRate := .ofRatio 1 5, seed := 3 }
    let plan : Plan := ⟨3, 3, 2, { maxPacketSize := 512 }, network, false, false⟩
    ∃ outcome, runCourse (Items.course 3) plan = .ok outcome ∧
      outcome.verification.mismatched = 0 := by
  intro network plan
  have configured : plan.stream.flavour = .ok .standard := by
    decide +kernel
  have room : plan.heaps + 2 ≤ Flavour.standard.maxAddress := by
    decide
  have ends : (Sender.sendAll (Items.course 3) plan).toOption.isSome := by
    decide +kernel
  cases sent : Sender.sendAll (Items.course 3) plan with
  | error _ =>
      rw [sent] at ends
      cases ends
  | ok sender =>
      obtain ⟨_, outcome, ended, clean⟩ :=
        raisesNoAlarm_of_sendAll (Items.documented_course 3) configured room sent
      exact ⟨outcome, ended, (clean (Items.comparable_course 3)).1⟩

/-- A simulation whose sender comes to its end reports success. -/
theorem exitCode_run
    [RandomSource] {plan : Plan} {flavour : Flavour} (configured : plan.stream.flavour = .ok flavour)
    (room : plan.heaps + 2 ≤ flavour.maxAddress) {sender : Sender}
    (sent : Sender.sendAll (Items.course plan.seed) plan = .ok sender) (duration : Nat) :
    (Transcript.ofOutcome plan (run plan) duration).exitCode = 0 := by
  obtain ⟨outcome, ended, same⟩ :=
    exists_runCourse_of_sendAll (Items.documented_course plan.seed) configured room sent
  rw [run, ended, Transcript.exitCode_ofOutcome_ok]
  exact same (Items.comparable_course plan.seed)

end Simulation
end Spead
