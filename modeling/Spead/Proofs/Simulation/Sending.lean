import Spead.Proofs.Generator.Numbers
import Spead.Proofs.Heap.Cutting
import Spead.Proofs.Network
import Spead.Proofs.Simulation.Items
import Spead.Proofs.Stream.Sending
import Spead.Simulation.Run

/-!
What the sender of a simulation sends.

The heaps that an author makes depend on the course and the plan alone, each of them tells of one
step, and no two of them have the same number. Whatever is on its way in the network is a packet of
one of them.
-/

namespace Spead

/-! ## The size of what is laid out -/

theorem Heap.length_le_of_mem
    (flavour : Flavour) (address : Nat) {items : List HeapItem} {id : Nat} {data : Bytes}
    {allowImmediate : Bool} (member : ⟨id, .bytes data allowImmediate⟩ ∈ items) :
    data.length ≤
      ((placeAll flavour address items).flatMap Prod.snd).length + flavour.addressBytes := by
  induction items generalizing address with
  | nil => cases member
  | cons item rest inductionHypothesis =>
      simp only [placeAll, List.flatMap_cons, List.length_append]
      rcases List.mem_cons.1 member with rfl | later
      · unfold place
        dsimp only
        split
        · next immediate =>
            rw [Bool.and_eq_true] at immediate
            have := Flavour.le_addressBytes_of_fitsImmediate immediate.2
            omega
        · dsimp only
          omega
      · have := inductionHypothesis (address + (place flavour address item).2.length) later
        omega

/-- The bits of what a heap carries can be counted if the heap can be cut into packets. -/
theorem Heap.length_mul_lt_of_packets
    {heap : Heap} {maxPacketSize : Nat} {packets : List Packet}
    (cut : heap.packets maxPacketSize = .ok packets) {id : Nat} {data : Bytes}
    {allowImmediate : Bool} (member : ⟨id, .bytes data allowImmediate⟩ ∈ heap.items) :
    data.length * 8 < wordLimit := by
  obtain ⟨pointers, payload, _, cutInto⟩ := cutInto_of_packets cut
  have laidOut := laidOut_of_layout cutInto.layout
  have inside := length_le_of_mem heap.flavour 0 member
  rw [← placed, ← laidOut.payload] at inside
  have := cutInto.heapLength
  have := heap.flavour.maxAddress_lt_wordLimit
  have := heap.flavour.addressBits_lt
  have limit : wordLimit = 18446744073709551616 := rfl
  unfold Flavour.addressBytes at inside
  omega

namespace Simulation

/-! ## Heaps of one step -/

/-- Stream control says nothing of items. -/
theorem Items.tells_of_control
    {heap : Heap} (control : ∀ item ∈ heap.items, item.id = ItemId.streamControl)
    (values : List (Nat × Value)) :
    Items.Tells values ⟨heap.count, heap.flavour, heap.receivedItems⟩ := by
  have ids : ∀ arrived ∈ heap.receivedItems, arrived.id = ItemId.streamControl := by
    intro arrived member
    obtain ⟨item, ofHeap, rfl⟩ := List.mem_map.1 (List.mem_filter.1 member).1
    rw [Heap.id_arrival, control item ofHeap]
  constructor
  case described =>
    intro parsed member
    obtain ⟨arrived, carrier, _⟩ := List.mem_map.1 member
    obtain ⟨ofItems, own⟩ := List.mem_filter.1 carrier
    rw [ids arrived ofItems] at own
    exact absurd own (by decide)
  case valued =>
    intro arrived member user
    rw [ids arrived member] at user
    exact absurd user (by decide)

section Makes

variable {course : Items.Course} (documented : course.Documented) {step : Nat}
  (small : step < Items.stepLimit) {group : Group} (populate : Items.Populate group)
  (holds : ∀ id item, group.get? id = some item → Items.Holds (course step) id item)
  {generator next : Generator} {descriptors : Selection}
  {descriptorCarriers valueCarriers : List HeapItem} {heap : Heap}
  (makes : generator.Makes group descriptors .all descriptorCarriers valueCarriers heap next)
  {maxPacketSize : Nat} {packets : List Packet} (cut : heap.packets maxPacketSize = .ok packets)

include documented small populate holds makes cut

/-- A heap of all values can only be cut if each of them is short enough to be read back. -/
theorem Items.roundTrips_of_makes
    {item : Item} (listed : item ∈ group.toList) {value : Value}
    (hasValue : item.value = some value) : value.RoundTrips item.descriptor := by
  obtain ⟨_, bytes, written, member, encoded⟩ :=
    holds _ item ((populate.sound.mem_toList_iff item).1 listed)
  rw [hasValue, Option.some_inj] at written
  subst written
  have selected : item ∈ generator.valued group .all :=
    List.mem_filter.2 ⟨listed, by rw [Generator.selectsValue, hasValue]; rfl⟩
  have ofEntries : (item, value) ∈ Generator.withValues (generator.valued group .all) :=
    Generator.mem_withValues_iff.2 ⟨selected, hasValue⟩
  obtain ⟨_, ofCarriers, again, encodedAgain, rfl⟩ :=
    exists_of_forall₂_left makes.conveys ofEntries
  rw [encoded] at encodedAgain
  cases encodedAgain
  apply Items.roundTrips_of_encode (populate.mem_of_mem_toList listed)
    (documented.counted step small _ member) encoded
  apply Heap.length_mul_lt_of_packets cut
  rw [makes.heap]
  exact List.mem_append_right _ ofCarriers

/-- A heap that is made of a group tells of what the items of the group hold. -/
theorem Items.tells_of_makes :
    Items.Tells (course step) ⟨heap.count, heap.flavour, heap.receivedItems⟩ := by
  have checked : ∀ item ∈ group.toList, item.descriptor.check = .ok () :=
    fun item => populate.check_of_mem_toList
  constructor
  case described =>
    intro parsed member
    have sameFlavour : heap.flavour = generator.flavour := by rw [makes.heap]
    rw [sameFlavour, makes.descriptors_received checked] at member
    obtain ⟨item, selected, rfl⟩ := List.mem_map.1 member
    have listed := populate.mem_of_mem_toList (List.mem_filter.1 selected).1
    exact ⟨_, listed, congrArg _ (Items.canonical_of_mem listed)⟩
  case valued =>
    intro arrived member user
    have carried := makes.values_carried checked fun item listed value =>
      Items.roundTrips_of_makes documented small populate holds makes cut listed
    obtain ⟨entry, ofEntries, same, read⟩ :=
      exists_of_forall₂_right carried (List.mem_filter.2 ⟨member, decide_eq_true user⟩)
    obtain ⟨selected, hasValue⟩ := Generator.mem_withValues_iff.1 ofEntries
    have ofGroup := (List.mem_filter.1 selected).1
    have listed := populate.mem_of_mem_toList ofGroup
    obtain ⟨_, _, written, ofStep, _⟩ :=
      holds _ entry.1 ((populate.sound.mem_toList_iff entry.1).1 ofGroup)
    rw [hasValue, Option.some_inj] at written
    subst written
    rw [Items.canonical_of_mem listed] at read
    exact ⟨_, listed, entry.2, same.symm, same ▸ ofStep, read⟩

end Makes

/-- What an author does when it makes a heap. -/
structure Author.Writes
    (course : Items.Course) (author : Author) (heap : Heap) (next : Author) : Prop where
  gives : author.generator.Gives heap next.generator
  populate : Items.Populate next.group
  avoids : heap.AvoidsPacketItems
  tells : ∀ maxPacketSize packets, heap.packets maxPacketSize = .ok packets →
    ∃ step < Items.stepLimit,
      Items.Tells (course step) ⟨heap.count, heap.flavour, heap.receivedItems⟩

section Writes

variable {course : Items.Course} {author next : Author} {heap : Heap}

theorem Author.writes_of_control
    (populate : Items.Populate next.group) (gives : author.generator.Gives heap next.generator)
    (control : ∀ item ∈ heap.items, item.id = ItemId.streamControl) :
    author.Writes course heap next where
  gives := gives
  populate := populate
  avoids := by
    intro item member
    rw [control item member]
    decide
  tells := fun _ _ _ => ⟨0, by decide, Items.tells_of_control control _⟩

variable (populate : Items.Populate author.group)

include populate

theorem Author.writes_startHeap (made : author.startHeap = .ok (heap, next)) :
    author.Writes course heap next := by
  obtain ⟨⟨heap, generator⟩, started, done⟩ := Except.bind_eq_ok_iff.1 made
  cases done
  rw [liftM_eq_ok_iff] at started
  refine Author.writes_of_control populate (.start started) ?_
  obtain ⟨_, _, done⟩ := Except.bind_eq_ok_iff.1 started
  cases done
  simp [Heap.addStart, Heap.addInline, Heap.add]

theorem Author.writes_endHeap (made : author.endHeap = .ok (heap, next)) :
    author.Writes course heap next := by
  obtain ⟨⟨heap, generator⟩, stopped, done⟩ := Except.bind_eq_ok_iff.1 made
  cases done
  rw [liftM_eq_ok_iff] at stopped
  refine Author.writes_of_control populate (.stop stopped) ?_
  obtain ⟨_, _, done⟩ := Except.bind_eq_ok_iff.1 stopped
  cases done
  simp [Heap.addEnd, Heap.addInline, Heap.add]

theorem Author.writes_stepHeap
    (documented : course.Documented) {descriptorInterval step : Nat}
    (made : author.stepHeap course descriptorInterval step = .ok (heap, next)) :
    author.Writes course heap next := by
  obtain ⟨group, set, made⟩ := Except.bind_eq_ok_iff.1 made
  obtain ⟨⟨heap, generator⟩, given, done⟩ := Except.bind_eq_ok_iff.1 made
  cases done
  have small : step % 2 ^ 32 < Items.stepLimit := Nat.mod_lt _ (by decide)
  obtain ⟨populated, holds⟩ := populate.setStep documented small set
  obtain ⟨_, _, makes⟩ := Generator.heap_eq_ok given
  constructor
  case gives => exact .ofGroup given
  case populate => exact populated
  case avoids => exact makes.avoidsPacketItems fun _ => populated.check_of_mem_toList
  case tells =>
    intro maxPacketSize packets cut
    exact ⟨_, small, Items.tells_of_makes documented small populated holds makes cut⟩

end Writes

/-! ## All heaps of a run -/

/-- An author with the heaps that it has made. -/
structure Work where
  author : Author
  heaps : List Heap := []

def Work.add (make : Author → Except Error (Heap × Author)) (work : Work) : Except Error Work := do
  let (heap, author) ← make work.author
  return { author, heaps := work.heaps ++ [heap] }

/-- The heaps of a run, which nobody has sent yet. -/
def Author.work (course : Items.Course) (plan : Plan) : Except Error Work := do
  let author ← Author.start course (← plan.stream.flavour)
  let started ← Work.add startHeap { author }
  let stepped ← (List.range plan.heaps).foldlM
    (fun work step => work.add (stepHeap course plan.descriptorInterval step)) started
  stepped.add endHeap

/-- The packets of a run, in the order in which they are sent. What becomes of them on their way
is up to the network. -/
def Sender.packets (course : Items.Course) (plan : Plan) : Except Error (List Bytes) := do
  let work ← Author.work course plan
  let wires ← work.heaps.mapM fun heap => heap.packetBytes plan.stream.maxPacketSize
  return wires.flatten

/-- All heaps have been numbered by one generator, and each of them tells of one step. -/
structure Work.Sound (course : Items.Course) (flavour : Flavour) (work : Work) : Prop where
  produces : Generator.Produces flavour work.heaps work.author.generator
  populate : Items.Populate work.author.group
  avoids : ∀ heap ∈ work.heaps, heap.AvoidsPacketItems
  tells : ∀ heap ∈ work.heaps, ∀ maxPacketSize packets,
    heap.packets maxPacketSize = .ok packets →
    ∃ step < Items.stepLimit,
      Items.Tells (course step) ⟨heap.count, heap.flavour, heap.receivedItems⟩

section Work

variable {course : Items.Course} {flavour : Flavour} {work next : Work}
  {make : Author → Except Error (Heap × Author)}

theorem Work.add_eq_ok_iff :
    work.add make = .ok next ↔
      ∃ heap author, make work.author = .ok (heap, author) ∧
        next = ⟨author, work.heaps ++ [heap]⟩ := by
  unfold add
  rw [Except.bind_eq_ok_iff]
  constructor
  · rintro ⟨⟨heap, author⟩, made, done⟩
    exact ⟨heap, author, made, (Except.ok.inj done).symm⟩
  · rintro ⟨heap, author, made, rfl⟩
    exact ⟨(heap, author), made, rfl⟩

theorem Work.Sound.add
    (sound : work.Sound course flavour)
    (writes : ∀ heap author, make work.author = .ok (heap, author) →
      work.author.Writes course heap author)
    (added : work.add make = .ok next) : next.Sound course flavour := by
  obtain ⟨heap, author, made, rfl⟩ := Work.add_eq_ok_iff.1 added
  obtain ⟨gives, populate, avoids, tells⟩ := writes heap author made
  constructor
  case produces => exact sound.produces.next gives
  case populate => exact populate
  case avoids =>
    rw [List.forall_mem_append, List.forall_mem_singleton]
    exact ⟨sound.avoids, avoids⟩
  case tells =>
    rw [List.forall_mem_append, List.forall_mem_singleton]
    exact ⟨sound.tells, tells⟩

theorem Work.length_add (added : work.add make = .ok next) :
    next.heaps.length = work.heaps.length + 1 := by
  obtain ⟨heap, author, _, rfl⟩ := Work.add_eq_ok_iff.1 added
  simp

theorem Work.Sound.addSteps
    (sound : work.Sound course flavour) (documented : course.Documented)
    {descriptorInterval : Nat} {steps : List Nat}
    (added : steps.foldlM
      (fun work step => Work.add (Author.stepHeap course descriptorInterval step) work) work =
        .ok next) :
    next.Sound course flavour ∧ next.heaps.length = work.heaps.length + steps.length := by
  refine foldlM_induction
    (fun done next => next.Sound course flavour ∧
      next.heaps.length = work.heaps.length + done.length) ?_ ⟨sound, rfl⟩ added
  rintro done before ⟨soundBefore, length⟩ step _ after stepped
  refine ⟨soundBefore.add (fun _ _ => Author.writes_stepHeap soundBefore.populate documented)
    stepped, ?_⟩
  rw [Work.length_add stepped, length, List.length_append]
  rfl

/-- One heap for the start, one for each step and one for the end. -/
theorem Author.sound_work
    (documented : course.Documented) {plan : Plan} (configured : plan.stream.flavour = .ok flavour)
    (made : Author.work course plan = .ok work) :
    work.Sound course flavour ∧ work.heaps.length = plan.heaps + 2 := by
  unfold Author.work at made
  simp only [Except.bind_eq_ok_iff, liftM_eq_ok_iff, configured, Except.ok.injEq] at made
  obtain ⟨_, rfl, author, begun, started, first, stepped, middle, last⟩ := made
  obtain ⟨group, initial, done⟩ := Except.bind_eq_ok_iff.1 begun
  cases done
  have populate := Items.populate_initial documented initial
  have sound : Work.Sound course flavour { author := ⟨group, { flavour }⟩ } :=
    ⟨.nothing, populate, nofun, nofun⟩
  have soundStarted := sound.add (fun _ _ => Author.writes_startHeap populate) first
  obtain ⟨soundStepped, length⟩ := soundStarted.addSteps documented middle
  refine ⟨soundStepped.add (fun _ _ => Author.writes_endHeap soundStepped.populate) last, ?_⟩
  rw [Work.length_add last, length, Work.length_add first, List.length_range, List.length_nil]
  omega

end Work

end Simulation

/-! ## What is on its way -/

theorem Network.mem_insertInFlight
    {new flight : PacketInFlight} {queue : List PacketInFlight}
    (member : flight ∈ insertInFlight new queue) : flight = new ∨ flight ∈ queue := by
  obtain ⟨later, earlier, rfl, inserted, _⟩ := exists_insertInFlight new queue
  rw [inserted, List.perm_middle.mem_iff] at member
  exact List.mem_cons.1 member

/-- Whatever a packet meets with, nothing else comes upon its way. -/
theorem Network.packet_of_mem_send
    {network : Network} {now : Nat} {fate : PacketFate} {packet : Bytes} {flight : PacketInFlight}
    (member : flight ∈ (network.send now fate packet).queue) :
    flight.packet = packet ∨ flight ∈ network.queue := by
  cases fate with
  | lost => exact Or.inr member
  | delivered delay =>
      rcases mem_insertInFlight member with rfl | before
      · exact Or.inl rfl
      · exact Or.inr before
  | doubled copyDelay delay =>
      rcases mem_insertInFlight member with rfl | before
      · exact Or.inl rfl
      · rcases mem_insertInFlight before with rfl | earlier
        · exact Or.inl rfl
        · exact Or.inr earlier

section Links

variable [RandomSource]

theorem Link.packet_of_mem_accept
    {link next : Link} {now : Nat} {packet : Bytes} {answer : Except Error Unit}
    (said : link.accept now packet = (answer, next))
    {flight : PacketInFlight} (member : flight ∈ next.network.queue) :
    flight.packet ∈ SendStream.accepted [⟨packet, answer⟩] ∨ flight ∈ link.network.queue := by
  unfold accept at said
  split at said
  · cases said
    exact Or.inr member
  · next sentLink sent =>
      cases said
      unfold send at sent
      split at sent
      · cases sent
      · cases sent
        exact (Network.packet_of_mem_send member).imp_left List.mem_singleton.2

namespace SendStream

variable {now : Nat}

theorem packet_of_mem_answered
    {link final : Link} {offers : List Offer}
    (answered : Answered (Link.accept now) link offers final)
    {flight : PacketInFlight} (member : flight ∈ final.network.queue) :
    flight.packet ∈ accepted offers ∨ flight ∈ link.network.queue := by
  induction answered with
  | nil _ => exact Or.inr member
  | @cons _ _ _ packet answer rest said _ inductionHypothesis =>
      rw [← List.singleton_append, accepted_append, List.mem_append]
      rcases inductionHypothesis member with ofRest | before
      · exact Or.inl (Or.inr ofRest)
      · exact (Link.packet_of_mem_accept said before).imp_left Or.inl

theorem packet_of_mem_sendHeap
    {stream done : SendStream Link} {heap : Heap}
    (sent : stream.sendHeap (Link.accept now) heap = (.ok (), done)) :
    done.maxPacketSize = stream.maxPacketSize ∧
      ∃ packets, heap.packetBytes stream.maxPacketSize = .ok packets ∧
        ∀ flight ∈ done.sink.network.queue,
          flight.packet ∈ packets ∨ flight ∈ stream.sink.network.queue := by
  obtain ⟨attempt, attempts, answer, offered, _⟩ :=
    exists_attempts_sendHeap (Link.accept now) stream heap
  rw [sent] at answer offered
  exact ⟨offered.maxPacketSize, _, attempts.answer_eq_ok_iff.1 answer.symm,
    fun _ => packet_of_mem_answered offered.answered⟩

end SendStream

end Links

namespace Simulation

theorem Sender.packets_eq_ok_iff
    {course : Items.Course} {plan : Plan} {packets : List Bytes} :
    Sender.packets course plan = .ok packets ↔
      ∃ work, Author.work course plan = .ok work ∧ ∃ wires,
        List.Forall₂ (fun heap own => heap.packetBytes plan.stream.maxPacketSize = .ok own)
          work.heaps wires ∧
        packets = wires.flatten := by
  unfold Sender.packets
  simp only [Except.bind_eq_ok_iff, mapM_eq_ok_iff, liftM_eq_ok_iff]
  constructor
  · rintro ⟨work, made, wires, cut, done⟩
    exact ⟨work, made, wires, cut, (Except.ok.inj done).symm⟩
  · rintro ⟨work, made, wires, cut, rfl⟩
    exact ⟨work, made, wires, cut, rfl⟩

variable [RandomSource]

/-- A sender has sent the heaps of a work, and only packets of theirs are on their way. -/
structure Sender.Sends (plan : Plan) (work : Work) (sender : Sender) : Prop where
  author : sender.author = work.author
  maxPacketSize : sender.stream.maxPacketSize = plan.stream.maxPacketSize
  cut : ∀ heap ∈ work.heaps, ∃ wires, heap.packetBytes plan.stream.maxPacketSize = .ok wires
  carried : ∀ flight ∈ sender.stream.sink.network.queue, ∃ heap ∈ work.heaps, ∃ wires,
    heap.packetBytes plan.stream.maxPacketSize = .ok wires ∧ flight.packet ∈ wires

section Sends

variable {plan : Plan} {work : Work} {sender next : Sender}

theorem Sender.Sends.send
    (sends : sender.Sends plan work) {now : Nat} {make : Author → Except Error (Heap × Author)}
    (sent : sender.send now make = .ok next) :
    ∃ nextWork, work.add make = .ok nextWork ∧ next.Sends plan nextWork := by
  obtain ⟨⟨heap, author⟩, made, sent⟩ := Except.bind_eq_ok_iff.1 sent
  dsimp only at sent
  split at sent
  · next stream handedOver =>
      cases sent
      obtain ⟨same, wires, cut, carried⟩ := SendStream.packet_of_mem_sendHeap handedOver
      rw [sends.author] at made
      rw [sends.maxPacketSize] at same cut
      refine ⟨_, Work.add_eq_ok_iff.2 ⟨heap, author, made, rfl⟩, ?_⟩
      constructor
      case author => rfl
      case maxPacketSize => exact same
      case cut =>
        rw [List.forall_mem_append, List.forall_mem_singleton]
        exact ⟨sends.cut, wires, cut⟩
      case carried =>
        intro flight member
        rcases carried flight member with new | before
        · exact ⟨heap, List.mem_append_right _ List.mem_cons_self, wires, cut, new⟩
        · obtain ⟨other, ofWork, others⟩ := sends.carried flight before
          exact ⟨other, List.mem_append_left _ ofWork, others⟩
  · cases sent

theorem Sender.Sends.sendSteps
    (sends : sender.Sends plan work) {course : Items.Course} {steps : List Nat}
    (sent : steps.foldlM
      (fun sender step => sender.send 0 (Author.stepHeap course plan.descriptorInterval step))
      sender = .ok next) :
    ∃ nextWork, steps.foldlM
        (fun work step => work.add (Author.stepHeap course plan.descriptorInterval step)) work =
          .ok nextWork ∧
      next.Sends plan nextWork := by
  induction steps generalizing sender work with
  | nil =>
      cases sent
      exact ⟨work, rfl, sends⟩
  | cons step rest inductionHypothesis =>
      rw [List.foldlM_cons, Except.bind_eq_ok_iff] at sent
      obtain ⟨middle, first, others⟩ := sent
      obtain ⟨middleWork, added, sendsMiddle⟩ := sends.send first
      obtain ⟨nextWork, folded, sendsNext⟩ := inductionHypothesis sendsMiddle others
      refine ⟨nextWork, ?_, sendsNext⟩
      rw [List.foldlM_cons, Except.bind_eq_ok_iff]
      exact ⟨middleWork, added, folded⟩

end Sends

/-- A sender that comes to its end has sent the heaps of a run over a stream with valid settings. -/
theorem Sender.sendAll_eq_ok
    {course : Items.Course} {plan : Plan} {sender : Sender}
    (sent : sendAll course plan = .ok sender) :
    plan.stream.validate = .ok () ∧
      ∃ work, Author.work course plan = .ok work ∧ sender.Sends plan work := by
  unfold sendAll at sent
  obtain ⟨begun, start, sent⟩ := Except.bind_eq_ok_iff.1 sent
  obtain ⟨started, first, sent⟩ := Except.bind_eq_ok_iff.1 sent
  obtain ⟨stepped, steps, last⟩ := Except.bind_eq_ok_iff.1 sent
  obtain ⟨stream, opened, start⟩ := Except.bind_eq_ok_iff.1 start
  obtain ⟨author, authored, done⟩ := Except.bind_eq_ok_iff.1 start
  cases done
  rw [liftM_eq_ok_iff] at opened
  obtain ⟨⟨⟩, valid, opened⟩ := Except.bind_eq_ok_iff.1 opened
  obtain ⟨flavour, configured, done⟩ := Except.bind_eq_ok_iff.1 opened
  cases done
  refine ⟨valid, ?_⟩
  have sends : Sender.Sends plan { author }
      ⟨{ sink := .new plan.network, flavour, maxPacketSize := plan.stream.maxPacketSize },
        author⟩ :=
    ⟨rfl, rfl, nofun, nofun⟩
  obtain ⟨startedWork, added, sendsStarted⟩ := sends.send first
  obtain ⟨steppedWork, folded, sendsStepped⟩ := sendsStarted.sendSteps steps
  obtain ⟨work, ended, sendsAll⟩ := sendsStepped.send last
  refine ⟨work, ?_, sendsAll⟩
  unfold Author.work
  simp only [Except.bind_eq_ok_iff, liftM_eq_ok_iff]
  exact ⟨flavour, configured, author, authored, startedWork, added, steppedWork, folded, ended⟩

/-- The packets of a run are those of its heaps, and whatever is on its way is one of them. -/
theorem Sender.Sends.exists_packets
    {course : Items.Course} {plan : Plan} {work : Work} {sender : Sender}
    (sends : sender.Sends plan work) (made : Author.work course plan = .ok work) :
    ∃ packets, Sender.packets course plan = .ok packets ∧
      (∀ bytes ∈ packets, ∃ heap ∈ work.heaps, ∃ wires,
        heap.packetBytes plan.stream.maxPacketSize = .ok wires ∧ bytes ∈ wires) ∧
      ∀ flight ∈ sender.stream.sink.network.queue, flight.packet ∈ packets := by
  obtain ⟨wires, cut⟩ := exists_mapM_eq_ok_iff.2 sends.cut
  rw [mapM_eq_ok_iff] at cut
  refine ⟨wires.flatten, Sender.packets_eq_ok_iff.2 ⟨work, made, wires, cut, rfl⟩, ?_, ?_⟩
  · intro bytes member
    obtain ⟨own, listed, ofOwn⟩ := List.mem_flatten.1 member
    obtain ⟨heap, ofHeaps, cutInto⟩ := exists_of_forall₂_right cut listed
    exact ⟨heap, ofHeaps, own, cutInto, ofOwn⟩
  · intro flight onItsWay
    obtain ⟨heap, ofHeaps, own, cutInto, ofOwn⟩ := sends.carried flight onItsWay
    obtain ⟨listed, ofWires, same⟩ := exists_of_forall₂_left cut ofHeaps
    rw [cutInto] at same
    cases same
    exact List.mem_flatten.2 ⟨own, ofWires, ofOwn⟩

end Simulation
end Spead
