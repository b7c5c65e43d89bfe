import Spead.Proofs.Generator.Numbers
import Spead.Proofs.Mirror
import Spead.Proofs.Reassembler.Delivery

/-!
A sender and a receiver of items.

The sender changes its group as it likes, and makes heaps of what is stale. The packets of each
heap arrive before those of the next one, in any order and repeated; they are put together, and
the heap is applied to a group that was empty at the start. After each heap this group mirrors
what the group of the sender was when the heap was made.
-/

namespace Spead

/-! ## The sending side -/

/-- A heap that has been made, with the group as it was then. -/
structure Shipment where
  group : Group
  heap : Heap

/-- What a sender comes to by changes of its group and by heaps of what is stale. Calls that fail
change nothing. -/
inductive Ships (flavour : Flavour) : Group → Generator → List Shipment → Prop where
  | start : Ships flavour .empty { flavour } []
  | add {group next : Group} {generator : Generator} {shipped : List Shipment}
      {descriptor : Descriptor} {value : Option Value}
      (before : Ships flavour group generator shipped)
      (checked : descriptor.check = .ok ())
      (roundTrips : ∀ content, value = some content → content.RoundTrips descriptor)
      (added : group.add descriptor value = .ok next) :
      Ships flavour next generator shipped
  | setValue {group next : Group} {generator : Generator} {shipped : List Shipment}
      {id : Nat} {value : Value}
      (before : Ships flavour group generator shipped)
      (roundTrips : ∀ item, group.get? id = some item → value.RoundTrips item.descriptor)
      (set : group.setValue id value = .ok next) :
      Ships flavour next generator shipped
  | remove {group : Group} {generator : Generator} {shipped : List Shipment} {id : Nat}
      (before : Ships flavour group generator shipped) :
      Ships flavour (group.remove id) generator shipped
  | ship {group : Group} {generator next : Generator} {shipped : List Shipment} {heap : Heap}
      (before : Ships flavour group generator shipped)
      (made : generator.heap group .stale .stale = .ok (heap, next)) :
      Ships flavour group next (shipped ++ [⟨group, heap⟩])

theorem Group.add_eq_ok
    {group next : Group} {descriptor : Descriptor} {value : Option Value}
    (added : group.add descriptor value = .ok next) :
    next = group.insert descriptor value :=
  (Group.add_eq_ok_iff.1 added).2

theorem Group.setValue_eq_ok
    {group next : Group} {id : Nat} {value : Value}
    (set : group.setValue id value = .ok next) :
    ∃ item, group.get? id = some item ∧ next = group.store item value := by
  obtain ⟨item, found, _, stored⟩ := Group.setValue_eq_ok_iff.1 set
  exact ⟨item, found, stored⟩

/-! ## The receiving side -/

structure Receiver where
  reassembler : Reassembler
  group : Group := .empty

namespace Receiver

def new (settings : ReassemblerSettings) : Receiver where
  reassembler := .new settings

def heapOf? : ReassemblyEvent → Option ReceivedHeap
  | .heap heap => some heap
  | .dropped _ => none
  | .endOfStream => none

def heapsOf (answers : List (Except PacketError (List ReassemblyEvent))) : List ReceivedHeap :=
  answers.flatMap fun answer =>
    match answer with
    | .ok events => events.filterMap heapOf?
    | .error _ => []

def apply (group : Group) (heaps : List ReceivedHeap) : Group × List UpdateReport :=
  heaps.foldl
    (fun (now, reports) heap =>
      let (next, report) := now.update heap
      (next, reports ++ [report]))
    (group, [])

/-- What comes of the packets of a heap. -/
structure Outcome where
  receiver : Receiver
  answers : List (Except PacketError (List ReassemblyEvent))
  reports : List UpdateReport

/-- Insert packets, and apply the heaps that are handed out. -/
def deliver (receiver : Receiver) (arrivals : List Packet) : Outcome :=
  let (reassembler, answers) := receiver.reassembler.receiveAll (arrivals.map Packet.toBytes)
  let (group, reports) := apply receiver.group (heapsOf answers)
  ⟨⟨reassembler, group⟩, answers, reports⟩

def deliverAll (receiver : Receiver) (deliveries : List (List Packet)) : Receiver :=
  deliveries.foldl (fun now arrivals => (now.deliver arrivals).receiver) receiver

theorem heapsOf_map_ok (told : List (List ReassemblyEvent)) :
    heapsOf (told.map .ok) = told.flatten.filterMap heapOf? := by
  rw [heapsOf, List.flatMap_map, List.filterMap_flatten, List.flatMap_def]

end Receiver

/-! ## Both sides together -/

/-- A heap that fits arrives whole. -/
structure Shipment.Arrives
    (shipment : Shipment) (settings : ReassemblerSettings) (arrivals : List Packet) : Prop where
  whole : shipment.heap.ArrivesIn arrivals
  fits : shipment.heap.payloadLength ≤ settings.maxHeapSize

structure SenderAt
    (flavour : Flavour) (group : Group) (generator : Generator) (shipped : List Shipment) :
    Prop where
  sendable : group.Sendable
  numbered : Generator.Numbered flavour (shipped.map Shipment.heap) generator

theorem Ships.senderAt
    {flavour : Flavour} {group : Group} {generator : Generator} {shipped : List Shipment}
    (ships : Ships flavour group generator shipped) :
    SenderAt flavour group generator shipped := by
  induction ships with
  | start => exact ⟨Group.sendable_empty, Generator.numbered_nothing flavour⟩
  | add _ checked roundTrips added inductionHypothesis =>
      rw [Group.add_eq_ok added]
      exact { inductionHypothesis with
        sendable := inductionHypothesis.sendable.insert checked roundTrips }
  | setValue _ roundTrips set inductionHypothesis =>
      obtain ⟨item, found, rfl⟩ := Group.setValue_eq_ok set
      have foundSelf := inductionHypothesis.sendable.sound.get?_own_id found
      exact { inductionHypothesis with
        sendable := inductionHypothesis.sendable.store foundSelf (roundTrips item found) }
  | remove _ inductionHypothesis =>
      exact { inductionHypothesis with sendable := inductionHypothesis.sendable.remove _ }
  | ship _ made inductionHypothesis =>
      constructor
      case sendable => exact inductionHypothesis.sendable
      case numbered =>
        rw [List.map_append, List.map_singleton]
        exact inductionHypothesis.numbered.append (Generator.Gives.ofGroup made).numbers

theorem Generator.Makes.receivable
    {generator next : Generator} {group : Group} {descriptors data : Selection}
    {descriptorCarriers valueCarriers : List HeapItem} {heap : Heap}
    (makes : generator.Makes group descriptors data descriptorCarriers valueCarriers heap next)
    (sendable : group.Sendable) {settings : ReassemblerSettings}
    (compat : generator.flavour.compat = settings.compat)
    (fits : heap.payloadLength ≤ settings.maxHeapSize) :
    heap.Receivable settings := by
  have ids := makes.id_of_items sendable.checked_of_mem
  constructor
  case avoids => exact makes.avoidsPacketItems sendable.checked_of_mem
  case compat =>
    rw [makes.heap]
    exact compat
  case size => exact fits
  case unmarked =>
    intro pointers payload layout word ofTable marked
    obtain ⟨item, member, same⟩ := (Heap.laidOut_of_layout layout).exists_item ofTable
    rw [marked] at same
    have control : item.id = ItemId.streamControl := same
    have notDescriptor : ItemId.streamControl ≠ ItemId.descriptor := by decide
    have notUser : ItemId.streamControl < ItemId.firstUser := by decide
    rcases ids item member with descriptor | user
    · exact notDescriptor (control.symm.trans descriptor)
    · omega

/-- Where a receiver stands that has been delivered all that was shipped. -/
structure Receiver.Follows
    (receiver : Receiver) (settings : ReassemblerSettings) (group : Group) (generator : Generator)
    (shipped : List Shipment) : Prop where
  between :
    receiver.reassembler.Between (Reassembler.new settings).settings
      (shipped.map fun shipment => shipment.heap.count)
  sound : receiver.group.Sound
  synced : ∃ latest, Synced latest group generator receiver.group

/-- All is well after a delivery: no packet has been refused, one heap has been applied without
an error, and the group mirrors that of the sender. -/
structure Receiver.Outcome.Converged (outcome : Receiver.Outcome) (group : Group) : Prop where
  answered : ∀ answer ∈ outcome.answers, ∃ events, answer = .ok events
  reported : ∃ report, outcome.reports = [report] ∧ report.isClean
  mirrored : group.MirroredBy outcome.receiver.group

theorem Receiver.Follows.deliver
    {flavour : Flavour} {settings : ReassemblerSettings} {group : Group}
    {generator next : Generator} {shipped : List Shipment} {receiver : Receiver} {heap : Heap}
    {arrivals : List Packet}
    (follows : receiver.Follows settings group generator shipped)
    (sender : SenderAt flavour group generator shipped)
    (compat : flavour.compat = settings.compat) (remembers : 1 ≤ settings.historyLength)
    (wraps : settings.historyLength < flavour.maxAddress)
    (made : generator.heap group .stale .stale = .ok (heap, next))
    (arrives : (Shipment.mk group heap).Arrives settings arrivals) :
    (receiver.deliver arrivals).receiver.Follows settings group next
      (shipped ++ [⟨group, heap⟩]) ∧
    (receiver.deliver arrivals).Converged group := by
  obtain ⟨_, _, makes⟩ := Generator.heap_eq_ok made
  obtain ⟨sendable, numbered⟩ := sender
  have flavours := numbered.sameFlavour
  subst flavours
  obtain ⟨latest, synced⟩ := follows.synced
  have sameFlavour := congrArg Heap.flavour makes.heap
  have receivable : heap.Receivable (Reassembler.new settings).settings := by
    obtain ⟨avoids, sameCompat, size, unmarked⟩ :=
      makes.receivable sendable compat arrives.fits
    exact ⟨avoids, sameCompat, size, unmarked⟩
  have fresh :
      heap.count ∉ (shipped.map fun shipment => shipment.heap.count).rtake
        settings.historyLength := by
    have absent := numbered.fresh (Generator.Gives.ofGroup made).numbers wraps
    rwa [List.map_map] at absent
  obtain ⟨between, told, answers, flatten⟩ :=
    follows.between.deliver arrives.whole receivable (Nat.le_max_left _ _) remembers fresh
  have handedOut :
      heapsOf (receiver.reassembler.receiveAll (arrivals.map Packet.toBytes)).2 =
        [⟨heap.count, generator.flavour, heap.receivedItems⟩] := by
    rw [answers, heapsOf_map_ok, flatten, sameFlavour]
    rfl
  have outcome :
      receiver.deliver arrivals =
        ⟨⟨(receiver.reassembler.receiveAll (arrivals.map Packet.toBytes)).1,
          (receiver.group.update ⟨heap.count, generator.flavour, heap.receivedItems⟩).1⟩,
        (receiver.reassembler.receiveAll (arrivals.map Packet.toBytes)).2,
        [(receiver.group.update ⟨heap.count, generator.flavour, heap.receivedItems⟩).2]⟩ := by
    unfold Receiver.deliver
    simp only [handedOut]
    rfl
  obtain ⟨sound, errors, syncedNow⟩ := synced.update sendable follows.sound makes heap.count
  rw [outcome]
  constructor
  · constructor
    case between =>
      rw [List.map_append, List.map_singleton]
      exact between
    case sound => exact sound
    case synced => exact ⟨_, syncedNow⟩
  · constructor
    case answered =>
      intro answer member
      have ofTold : answer ∈ told.map .ok := by
        rw [← answers]
        exact member
      obtain ⟨events, _, rfl⟩ := List.mem_map.1 ofTold
      exact ⟨events, rfl⟩
    case reported =>
      refine ⟨_, rfl, ?_⟩
      rw [UpdateReport.isClean, errors]
      rfl
    case mirrored => exact syncedNow.mirroredBy sendable.sound

/-- What the sender does to its group meanwhile does not matter to a receiver. -/
theorem Receiver.Follows.of_change
    {settings : ReassemblerSettings} {group next : Group} {generator : Generator}
    {shipped : List Shipment} {receiver : Receiver}
    (follows : receiver.Follows settings group generator shipped)
    (change : ∀ latest, Synced latest group generator receiver.group →
      Synced latest next generator receiver.group) :
    receiver.Follows settings next generator shipped := by
  obtain ⟨latest, synced⟩ := follows.synced
  exact { follows with synced := ⟨latest, change latest synced⟩ }

theorem Receiver.follows_new (flavour : Flavour) (settings : ReassemblerSettings) :
    (Receiver.new settings).Follows settings .empty { flavour } [] where
  between := Reassembler.between_new settings
  sound := Group.sound_empty
  synced := ⟨0, synced_empty flavour⟩

section Both

variable {flavour : Flavour} {settings : ReassemblerSettings} {group : Group}
  {generator : Generator} {shipped : List Shipment} {deliveries : List (List Packet)}

theorem Ships.follows
    (compat : flavour.compat = settings.compat) (remembers : 1 ≤ settings.historyLength)
    (wraps : settings.historyLength < flavour.maxAddress)
    (ships : Ships flavour group generator shipped)
    (arrive : List.Forall₂ (fun shipment arrivals => shipment.Arrives settings arrivals)
      shipped deliveries) :
    ((Receiver.new settings).deliverAll deliveries).Follows settings group generator shipped ∧
    ∀ before arrivals behind, deliveries = before ++ arrivals :: behind →
      ∃ shipment, shipped[before.length]? = some shipment ∧
        (((Receiver.new settings).deliverAll before).deliver arrivals).Converged
          shipment.group := by
  -- Only heaps are met by deliveries; the other steps of the sender leave the receiver alone.
  induction ships generalizing deliveries with
  | start =>
      cases arrive
      exact ⟨Receiver.follows_new flavour settings, by simp⟩
  | add before checked roundTrips added inductionHypothesis =>
      obtain ⟨follows, converged⟩ := inductionHypothesis arrive
      rw [Group.add_eq_ok added]
      have sound := before.senderAt.sendable.sound
      exact ⟨follows.of_change fun _ synced => synced.insert sound _ _, converged⟩
  | setValue before roundTrips set inductionHypothesis =>
      obtain ⟨follows, converged⟩ := inductionHypothesis arrive
      obtain ⟨item, found, rfl⟩ := Group.setValue_eq_ok set
      have sound := before.senderAt.sendable.sound
      have foundSelf := sound.get?_own_id found
      exact ⟨follows.of_change fun _ synced => synced.store sound foundSelf _, converged⟩
  | remove before inductionHypothesis =>
      obtain ⟨follows, converged⟩ := inductionHypothesis arrive
      have sound := before.senderAt.sendable.sound
      exact ⟨follows.of_change fun _ synced => synced.remove sound _, converged⟩
  | @ship group generator next shipped heap before made inductionHypothesis =>
      obtain ⟨earlier, last, rfl, arriveEarlier, arrives⟩ := exists_concat_of_forall₂ arrive
      obtain ⟨follows, converged⟩ := inductionHypothesis arriveEarlier
      obtain ⟨followsNow, convergedNow⟩ :=
        follows.deliver before.senderAt compat remembers wraps made arrives
      constructor
      · rw [Receiver.deliverAll, List.foldl_append]
        exact followsNow
      · intro front arrivals behind split
        rcases List.eq_nil_or_concat behind with rfl | ⟨rest, other, rfl⟩
        · obtain ⟨rfl, same⟩ := List.append_inj' split rfl
          cases same
          refine ⟨⟨group, heap⟩, ?_, convergedNow⟩
          rw [← arriveEarlier.length_eq, List.getElem?_concat_length]
        · rw [List.concat_eq_append, ← List.cons_append, ← List.append_assoc] at split
          obtain ⟨rfl, _⟩ := List.append_inj' split rfl
          obtain ⟨shipment, found, holds⟩ := converged front arrivals rest rfl
          refine ⟨shipment, ?_, holds⟩
          have inside : front.length < shipped.length := by
            rw [arriveEarlier.length_eq]
            simp
          rw [List.getElem?_append_left inside, found]

/-- Whatever the sender does, and in whatever order the packets of each heap arrive, the group of
the receiver mirrors after each heap what the group of the sender was when the heap was made. No
packet is refused, and no heap is applied with an error. -/
theorem converged_after_each_heap
    (compat : flavour.compat = settings.compat) (remembers : 1 ≤ settings.historyLength)
    (wraps : settings.historyLength < flavour.maxAddress)
    (ships : Ships flavour group generator shipped)
    (arrive : List.Forall₂ (fun shipment arrivals => shipment.Arrives settings arrivals)
      shipped deliveries)
    {before behind : List (List Packet)} {arrivals : List Packet}
    (split : deliveries = before ++ arrivals :: behind) :
    ∃ shipment, shipped[before.length]? = some shipment ∧
      (((Receiver.new settings).deliverAll before).deliver arrivals).Converged shipment.group :=
  (ships.follows compat remembers wraps arrive).2 before arrivals behind split

end Both

/-! ## A value that changes between two heaps -/

def counterDescriptor : Descriptor :=
  ⟨ItemId.firstUser, "a", "", [], .records [{ kind := .uint, bits := 8 }]⟩

def counterAtSeven : Group :=
  Group.empty.insert counterDescriptor (some (.record [.uint 7]))

def counterAtNine : Group :=
  counterAtSeven.store (Group.empty.inserted counterDescriptor (some (.record [.uint 7])))
    (.record [.uint 9])

/-- The packets of the first heap come twice and backwards, and the second heap brings the
change. -/
theorem converged_after_changed_value :
    ∃ (first second : Heap) (packets more : List Packet),
      first.packets 100 = .ok packets ∧ second.packets 100 = .ok more ∧
      (((Receiver.new {}).deliverAll [packets.reverse ++ packets]).deliver more).Converged
        counterAtNine := by
  obtain ⟨first, second, next, final, packets, more, made, madeSecond, cut, cutSecond, fits,
      fitsSecond⟩ :
      ∃ (first second : Heap) (next final : Generator) (packets more : List Packet),
        Generator.heap { flavour := .standard } counterAtSeven .stale .stale = .ok (first, next) ∧
        next.heap counterAtNine .stale .stale = .ok (second, final) ∧
        first.packets 100 = .ok packets ∧ second.packets 100 = .ok more ∧
        first.payloadLength ≤ 2 ^ 26 ∧ second.payloadLength ≤ 2 ^ 26 := by
    refine ⟨_, _, _, _, _, _, rfl, rfl, rfl, rfl, ?_, ?_⟩
    · decide
    · decide
  have added : Group.empty.add counterDescriptor (some (.record [.uint 7])) = .ok counterAtSeven := rfl
  have set : counterAtSeven.setValue ItemId.firstUser (.record [.uint 9]) = .ok counterAtNine := rfl
  have ships : Ships .standard counterAtNine final [⟨counterAtSeven, first⟩, ⟨counterAtNine, second⟩] := by
    have begun : Ships .standard counterAtSeven { flavour := .standard } [] := by
      apply Ships.add .start rfl _ added
      rintro content ⟨⟩
      exact ⟨[7], rfl, rfl⟩
    have changed : Ships .standard counterAtNine next [⟨counterAtSeven, first⟩] := by
      apply Ships.setValue (begun.ship made) _ set
      rintro item ⟨⟩
      exact ⟨[9], rfl, rfl⟩
    exact changed.ship madeSecond
  have arrive :
      List.Forall₂ (fun shipment arrivals => Shipment.Arrives shipment {} arrivals)
        [⟨counterAtSeven, first⟩, ⟨counterAtNine, second⟩] [packets.reverse ++ packets, more] := by
    refine .cons ⟨⟨?_, 100, packets, cut, ?_⟩, fits⟩
      (.cons ⟨⟨?_, 100, more, cutSecond, fun _ => id⟩, fitsSecond⟩ .nil)
    · intro packet member
      exact ⟨100, packets, cut, by simpa using member⟩
    · intro packet member
      exact List.mem_append_right _ member
    · intro packet member
      exact ⟨100, more, cutSecond, member⟩
  obtain ⟨shipment, found, converged⟩ :=
    converged_after_each_heap rfl (by decide) (by decide) ships arrive
      (rfl : _ = [packets.reverse ++ packets] ++ more :: [])
  cases found
  exact ⟨first, second, packets, more, cut, cutSecond, converged⟩

end Spead
