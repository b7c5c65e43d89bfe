import Spead.Generator
import Spead.Group.Update
import Spead.Random.Mixing
import Spead.Reassembler.Report
import Spead.Settings.Document
import Spead.Simulation.Items
import Spead.Simulation.Plan
import Spead.Stream.Receiver
import Spead.Stream.Sender

/-!
A run of the simulation: a group that changes step by step is sent over a simulated network, and
what arrives is compared with what was sent.

All heaps with data are sent at once. The heap that ends the stream follows when everything else
has arrived.

A run takes any source of random numbers and any notation for settings. The program has those of
`Spead.Random.Mixing` and `Spead.Settings.Document`.
-/

namespace Spead
namespace Simulation

/-! ## The receiver's check -/

structure Verification where
  heaps : Nat := 0
  lost : Nat := 0
  verified : Nat := 0
  mismatched : Nat := 0
  /-- Items that could not be read, as their descriptor did not arrive before. -/
  undecodable : Nat := 0
  deriving DecidableEq, Repr

namespace Verification

def checkItem (group : Group) (verification : Verification) (expected : Nat × Value) :
    Verification :=
  let held := (group.get? expected.1).bind Item.value
  if held.any expected.2.agrees then
    { verification with verified := verification.verified + 1 }
  else
    { verification with mismatched := verification.mismatched + 1 }

/-- Compare the items that a heap has set with the values of the step that it names. -/
def check (course : Items.Course) (verification : Verification) (group : Group)
    (updated : List Nat) : Verification :=
  if updated.contains Items.stepId then
    match Items.stepOf? group with
    | none => verification
    | some step =>
        let expected := (course step).filter fun item => updated.contains item.1
        expected.foldl (checkItem group) verification
  else
    verification

def hear (course : Items.Course) (state : Group × Verification) (result : ReceiveResult) :
    Except Error (Group × Verification) :=
  let (group, verification) := state
  match result with
  | .ok heap =>
      let (updated, report) := group.update heap
      let counted : Verification :=
        { verification with
          heaps := verification.heaps + 1
          undecodable := verification.undecodable + report.errors.length }
      .ok (updated, check course counted updated report.values)
  | .error error =>
      if error.isFatal then
        .error error
      else
        .ok (group, { verification with lost := verification.lost + 1 })

def describe (verification : Verification) : List String :=
  ["=== Verification ===",
    s!"Heaps received: {verification.heaps}",
    s!"Heaps lost: {verification.lost}",
    s!"Items verified: {verification.verified}",
    s!"Items mismatched: {verification.mismatched}",
    s!"Items without descriptor: {verification.undecodable}"]

end Verification

/-! ## The sender -/

/-- What heaps are made of: a group that goes from step to step, and its generator. -/
structure Author where
  group : Group
  generator : Generator

namespace Author

def start (course : Items.Course) (flavour : Flavour) : Except Error Author := do
  let group ← Items.initial course
  return { group, generator := { flavour } }

def startHeap (author : Author) : Except Error (Heap × Author) := do
  let (heap, generator) ← author.generator.startHeap
  return (heap, { author with generator })

/-- Make the heap of a step. It holds every value, and from time to time every descriptor. -/
def stepHeap (course : Items.Course) (descriptorInterval step : Nat) (author : Author) :
    Except Error (Heap × Author) := do
  let group ← Items.setStep course author.group (step % 2 ^ 32)
  let descriptors := if step % descriptorInterval = 0 then Selection.all else .stale
  let (heap, generator) ← author.generator.heap group descriptors .all
  return (heap, { group, generator })

def endHeap (author : Author) : Except Error (Heap × Author) := do
  let (heap, generator) ← author.generator.endHeap
  return (heap, { author with generator })

end Author

section Runs

variable [RandomSource]

/-- An author that sends its heaps. -/
structure Sender where
  stream : SendStream Link
  author : Author

namespace Sender

def start (course : Items.Course) (plan : Plan) : Except Error Sender := do
  let stream ← SendStream.new (Link.new plan.network) plan.stream
  let author ← Author.start course stream.flavour
  return { stream, author }

def send (now : Nat) (make : Author → Except Error (Heap × Author)) (sender : Sender) :
    Except Error Sender := do
  let (heap, author) ← make sender.author
  match sender.stream.sendHeap (Link.accept now) heap with
  | (.ok (), stream) => .ok { stream, author }
  | (.error error, _) => .error error

/-- When the last heap is sent: everything else has arrived by then. -/
def settled (network : NetworkSettings) : Nat :=
  network.baseLatency + network.jitter + 5

def sendAll (course : Items.Course) (plan : Plan) : Except Error Sender := do
  let started ← (← start course plan).send 0 Author.startHeap
  let stepped ← (List.range plan.heaps).foldlM
    (fun sender step => sender.send 0 (Author.stepHeap course plan.descriptorInterval step)) started
  stepped.send (settled plan.network) Author.endHeap

end Sender

/-! ## Whole runs -/

structure Outcome where
  sent : SendStats
  network : NetworkStats
  received : ReceiveStats
  verification : Verification
  deriving DecidableEq, Repr

def runCourse (course : Items.Course) (plan : Plan) : Except Error Outcome := do
  let sender ← Sender.sendAll course plan
  let link := sender.stream.sink.close
  let (results, final) := (← ReceiveStream.new plan.stream link.readings).collect
  let (_, verification) ← results.foldlM (Verification.hear course) (Group.empty, {})
  return {
    sent := sender.stream.stats
    network := link.network.drain.2.stats
    received := final.reassembler.stats
    verification }

def run (plan : Plan) : Except Error Outcome :=
  runCourse (Items.course plan.seed) plan

end Runs

namespace Outcome

def isClean (outcome : Outcome) : Bool :=
  outcome.verification.mismatched = 0

/-- The counters of the network as shown to a user, line by line. -/
def describeNetwork (stats : NetworkStats) : List String :=
  ["=== Network ===",
    s!"Packets sent: {stats.sent}",
    s!"Packets dropped: {stats.dropped} ({Decimal.percentage stats.lossRate})",
    s!"Packets duplicated: {stats.duplicated}",
    s!"Packets delivered: {stats.delivered}"]

/-- The outcome of a run that took `duration` microseconds as shown to a user. -/
def describe (outcome : Outcome) (duration : Nat) : String :=
  outcome.sent.summary ++
    String.join ((describeNetwork outcome.network).map (· ++ "\n")) ++
    outcome.received.summary duration ++
    String.join (outcome.verification.describe.map (· ++ "\n"))

end Outcome

/-! ## Transcripts -/

/-- What a run of the program writes, and the code that it ends with. -/
structure Transcript where
  output : String := ""
  /-- Why there is no outcome. -/
  complaint : Option String := none
  exitCode : Nat
  deriving DecidableEq, Repr

namespace Transcript

def failure (output message : String) (exitCode : Nat) : Transcript :=
  { output, complaint := some s!"error: {message}\n", exitCode }

def help : String :=
  "Send item groups over a simulated lossy link and verify what arrives\n\n" ++
    "Usage: spead-sim [OPTIONS]\n\nOptions:\n" ++
    String.join (Options.valueNames.map fun name => s!"      --{name} <VALUE>\n") ++
    String.join (Options.flagNames.map fun name => s!"      --{name}\n") ++
    "  -h, --help\n  -V, --version\n"

def ofUsage : UsageError → Transcript
  | .help => { output := help, exitCode := 0 }
  | .version => { output := "spead-sim 0.1.0\n", exitCode := 0 }
  | error => failure "" error.message 2

/-- The transcript of a planned run with what came of it after `duration` microseconds. -/
def ofOutcome (plan : Plan) (outcome : Except Error Outcome) (duration : Nat) : Transcript :=
  let configuration :=
    if plan.printConfig then String.join (plan.describe.map (· ++ "\n")) else ""
  match outcome with
  | .error error => failure configuration error.message 1
  | .ok outcome =>
      { output := configuration ++ if plan.printMetrics then outcome.describe duration else ""
        exitCode := if outcome.isClean then 0 else 2 }

end Transcript

/-- What the arguments ask for: a run, or only a transcript. -/
def planOf [RandomSource] [SettingsNotation] (source : String → Option String) (fallbackSeed : Nat)
    (arguments : List String) : Except Transcript Plan :=
  match Options.parse arguments with
  | .error error => .error (.ofUsage error)
  | .ok options =>
      match Plan.make source fallbackSeed options with
      | .error error => .error (.failure "" error.message 1)
      | .ok plan => .ok plan

end Simulation
end Spead
