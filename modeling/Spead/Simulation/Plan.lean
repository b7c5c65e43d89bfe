import Spead.Decimal.Text
import Spead.Random
import Spead.Settings.Network
import Spead.Settings.Stream
import Spead.Simulation.CommandLine

/-!
What a run of the simulation does.

A setting comes from the command line, else from the configuration file, else it has its default.
Without a table for the network in the file, its defaults are drawn from the seed.
-/

namespace Spead
namespace Simulation

/-! ## Configuration files -/

/-- The settings of a configuration file. -/
structure FileSettings where
  seed : Option Nat := none
  heaps : Option Nat := none
  descriptorInterval : Option Nat := none
  stream : Option StreamSettings := none
  network : Option NetworkSettings := none
  deriving DecidableEq, Repr

namespace FileSettings

def names : List String :=
  ["seed", "heaps", "descriptor_interval", "stream", "network"]

def set? (settings : FileSettings) (name : String) (value : SettingValue) :
    Option FileSettings :=
  match name with
  | "seed" => value.word?.map fun seed => { settings with seed := some seed }
  | "heaps" => value.word?.map fun count => { settings with heaps := some count }
  | "descriptor_interval" =>
      value.word?.map fun count => { settings with descriptorInterval := some count }
  | "stream" =>
      (StreamSettings.ofValue? .ignored value).map fun stream =>
        { settings with stream := some stream }
  | "network" =>
      (NetworkSettings.ofValue? .ignored value).map fun network =>
        { settings with network := some network }
  | _ => none

/-- Read a configuration file. Surplus entries of its lists say nothing. -/
def ofText? [SettingsNotation] (text : String) : Option FileSettings := do
  (← SettingsNotation.read? text).readRecord? .ignored names set? {}

end FileSettings

/-! ## Plans -/

structure Plan where
  seed : Nat
  /-- How many heaps with data are sent. -/
  heaps : Nat
  /-- After how many heaps all descriptors are sent again. -/
  descriptorInterval : Nat
  stream : StreamSettings
  network : NetworkSettings
  printConfig : Bool
  printMetrics : Bool
  deriving DecidableEq, Repr

inductive PlanError where
  | unreadable (path : String)
  | malformed (path : String)
  | settings (cause : SettingsError)
  deriving DecidableEq, Repr

def PlanError.message : PlanError → String
  | .unreadable path => s!"reading {path}"
  | .malformed path => s!"parsing {path}"
  | .settings cause => cause.announce

section Draws

variable [RandomSource]

/-- A rate drawn between zero and so many percent, with small rates more likely. -/
def drawSmallRate (percent : Nat) (source : RandomSource.State) : Binary64 × RandomSource.State :=
  let limit := Binary64.ofRatio percent 100
  let (drawn, next) := RandomSource.fraction source
  (((drawn.multiply drawn).multiply limit).minimum limit, next)

def drawNetwork (seed : Nat) : NetworkSettings :=
  let (lossRate, afterLoss) := drawSmallRate 2 (RandomSource.ofSeed seed)
  let (duplicateRate, afterDuplicate) := drawSmallRate 5 afterLoss
  let (baseLatency, afterLatency) := RandomSource.upTo 5 afterDuplicate
  let (jitter, _) := RandomSource.upTo 3 afterLatency
  { baseLatency, jitter, lossRate, duplicateRate, seed }

end Draws

namespace Plan

def chooseStream (options : Options) (file : FileSettings) : StreamSettings :=
  let base := file.stream.getD {}
  { base with
    maxPacketSize := options.maxPacketSize.getD base.maxPacketSize
    addressBits := options.addressBits.getD base.addressBits
    compatNames := if options.compatNames.isEmpty then base.compatNames else options.compatNames
    maxHeaps := options.maxHeaps.getD base.maxHeaps }

section Resolve

variable [RandomSource]

/-- The network of a run, which is always seeded like the run. -/
def chooseNetwork (options : Options) (file : FileSettings) (seed : Nat) : NetworkSettings :=
  let base := file.network.getD (drawNetwork seed)
  { baseLatency := options.latency.getD base.baseLatency
    jitter := options.jitter.getD base.jitter
    lossRate := if options.noLoss then .ofNat 0 else options.loss.getD base.lossRate
    duplicateRate := options.duplicate.getD base.duplicateRate
    seed }

/-- Put the settings together. A run without a seed is seeded with `fallbackSeed`. -/
def resolve (options : Options) (file : FileSettings) (fallbackSeed : Nat) :
    Except SettingsError Plan := do
  let seed := (options.seed <|> file.seed).getD fallbackSeed
  let stream := chooseStream options file
  let network := chooseNetwork options file seed
  stream.validate
  network.validate
  return {
    seed
    heaps := (options.heaps <|> file.heaps).getD 50
    descriptorInterval :=
      max 1 ((options.descriptorInterval <|> file.descriptorInterval).getD 8)
    stream
    network
    printConfig := options.printConfig
    printMetrics := !options.noMetrics }

/-- Plan a run. `source` gives the text of a file that can be read. -/
def make [SettingsNotation] (source : String → Option String) (fallbackSeed : Nat)
    (options : Options) : Except PlanError Plan := do
  let file ←
    match options.configPath with
    | none => pure {}
    | some path =>
        match source path with
        | none => throw (.unreadable path)
        | some text =>
            match FileSettings.ofText? text with
            | none => throw (.malformed path)
            | some file => pure file
  match resolve options file fallbackSeed with
  | .ok plan => return plan
  | .error cause => throw (.settings cause)

end Resolve

def describe (plan : Plan) : List String :=
  ["=== Configuration ===",
    s!"Seed: {plan.seed}",
    s!"Heaps: {plan.heaps}",
    s!"Descriptor interval: {plan.descriptorInterval} heaps",
    "",
    "=== Stream ===",
    s!"Max packet size: {plan.stream.maxPacketSize} bytes",
    s!"Heap address bits: {plan.stream.addressBits}",
    "Bug compat: " ++ Text.bracketed (plan.stream.compatNames.map Text.quote),
    s!"Max partial heaps: {plan.stream.maxHeaps}",
    s!"Max heap size: {plan.stream.maxHeapSize} bytes",
    s!"Ring capacity: {plan.stream.ringCapacity}",
    "",
    "=== Network Simulation ===",
    s!"Base latency: {plan.network.baseLatency} ms",
    s!"Jitter: ±{plan.network.jitter} ms",
    s!"Loss rate: {Decimal.percentage plan.network.lossRate}",
    s!"Duplicate rate: {Decimal.percentage plan.network.duplicateRate}",
    ""]

end Plan
end Simulation
end Spead
