import Spead.Decimal.Reading
import Spead.Text.Quoted

/-!
The command line of the simulation.

Options begin with two hyphens. One that takes a value has it behind an equals sign or as the next
argument; a value is looked at when the next option begins. No option but `--bug-compat` may be
given twice, and nothing but options may be given.
-/

namespace Spead
namespace Simulation

/-- What is wrong with a command line, or what is asked for instead of a run. -/
inductive UsageError where
  | unknownArgument (argument : String)
  | missingValue (option : String)
  | unexpectedValue (option value : String)
  | invalidValue (option value : String)
  | conflict (option other : String)
  | help
  | version
  deriving DecidableEq, Repr

def UsageError.message : UsageError → String
  | .unknownArgument argument => s!"unexpected argument '{argument}' found"
  | .missingValue option => s!"a value is required for '--{option}' but none was supplied"
  | .unexpectedValue option value =>
      s!"unexpected value '{value}' for '--{option}' found; no more were expected"
  | .invalidValue option value => s!"invalid value '{value}' for '--{option}'"
  | .conflict option other => s!"the argument '--{option}' cannot be used with '--{other}'"
  | .help => "help"
  | .version => "version"

/-- The options of a run, as far as they are given. -/
structure Options where
  configPath : Option String := none
  seed : Option Nat := none
  heaps : Option Nat := none
  descriptorInterval : Option Nat := none
  maxPacketSize : Option Nat := none
  addressBits : Option Nat := none
  compatNames : List String := []
  maxHeaps : Option Nat := none
  latency : Option Nat := none
  jitter : Option Nat := none
  loss : Option Binary64 := none
  noLoss : Bool := false
  duplicate : Option Binary64 := none
  printConfig : Bool := false
  noMetrics : Bool := false
  deriving DecidableEq, Repr

namespace Options

def valueNames : List String :=
  ["config", "seed", "heaps", "descriptor-interval", "max-packet-size", "heap-address-bits",
    "bug-compat", "max-heaps", "latency", "jitter", "loss", "duplicate"]

def flagNames : List String :=
  ["no-loss", "print-config", "no-metrics"]

/-- A number below `limit`, which may have a sign; minus zero is zero. -/
def signedBelow? (limit : Nat) (text : List Char) : Option Nat :=
  match text with
  | '-' :: digits =>
      if Decimal.readDigits? digits = some 0 then some 0 else none
  | _ => Decimal.readBelow? limit text

def setValue? (options : Options) (name text : String) : Option Options :=
  let word := Decimal.readWord? text.toList
  let real := Decimal.readBinary64? text
  match name with
  | "config" => some { options with configPath := some text }
  | "seed" => word.map fun seed => { options with seed := some seed }
  | "heaps" => word.map fun count => { options with heaps := some count }
  | "descriptor-interval" =>
      word.map fun count => { options with descriptorInterval := some count }
  | "max-packet-size" => word.map fun size => { options with maxPacketSize := some size }
  | "heap-address-bits" =>
      (signedBelow? (2 ^ 32) text.toList).map fun bits => { options with addressBits := some bits }
  | "bug-compat" => some { options with compatNames := options.compatNames ++ [text] }
  | "max-heaps" => word.map fun count => { options with maxHeaps := some count }
  | "latency" => word.map fun time => { options with latency := some time }
  | "jitter" => word.map fun time => { options with jitter := some time }
  | "loss" => real.map fun rate => { options with loss := some rate }
  | "duplicate" => real.map fun rate => { options with duplicate := some rate }
  | _ => none

def setFlag (options : Options) (name : String) : Options :=
  match name with
  | "no-loss" => { options with noLoss := true }
  | "print-config" => { options with printConfig := true }
  | "no-metrics" => { options with noMetrics := true }
  | _ => options

end Options

/-! ## Reading arguments -/

/-- A command line as far as it has been read. -/
structure Progress where
  options : Options := {}
  /-- The options given so far. -/
  given : List String := []
  /-- The latest option that takes a value, with its value if that has been read. -/
  pending : Option (String × Option String) := none
  deriving DecidableEq, Repr

namespace Progress

/-- Note that an option is given. -/
def note (progress : Progress) (name : String) : Except UsageError Progress :=
  if name ≠ "bug-compat" && progress.given.contains name then
    .error (.conflict name name)
  else
    .ok { progress with given := name :: progress.given }

def apply (progress : Progress) (name text : String) : Except UsageError Progress := do
  let noted ← progress.note name
  if name = "config" && text.isEmpty then
    throw (.missingValue name)
  match noted.options.setValue? name text with
  | some options => return { noted with options }
  | none => throw (.invalidValue name text)

def settle (progress : Progress) : Except UsageError Progress :=
  let settled := { progress with pending := none }
  match progress.pending with
  | none => .ok settled
  | some (name, none) => .error (.missingValue name)
  | some (name, some text) => settled.apply name text

def readOption (progress : Progress) (argument : List Char) : Except UsageError Progress := do
  let name := String.ofList (argument.takeWhile fun char => char ≠ '=')
  let value? : Option String :=
    match argument.dropWhile fun char => char ≠ '=' with
    | _ :: value => some (String.ofList value)
    | [] => none
  if Options.valueNames.contains name then
    let settled ← progress.settle
    match value? with
    | some value => settled.apply name value
    | none => return { settled with pending := some (name, none) }
  else if Options.flagNames.contains name || name = "help" || name = "version" then
    if let some value := value? then
      throw (.unexpectedValue name value)
    let settled ← progress.settle
    if name = "help" then
      throw .help
    if name = "version" then
      throw .version
    let noted ← settled.note name
    return { noted with options := noted.options.setFlag name }
  else
    throw (.unknownArgument ("--" ++ String.ofList argument))

/-- Read an argument. Two hyphens alone are not read here. -/
def read (progress : Progress) (argument : String) : Except UsageError Progress :=
  match argument.toList with
  | '-' :: '-' :: name => progress.readOption name
  | '-' :: letter :: _ => do
      if letter = 'h' then
        let _ ← progress.settle
        throw .help
      if letter = 'V' then
        let _ ← progress.settle
        throw .version
      throw (.unknownArgument argument)
  | _ =>
      match progress.pending with
      | some (name, none) => .ok { progress with pending := some (name, some argument) }
      | _ => .error (.unknownArgument argument)

/-- Read all arguments. Behind two hyphens alone no option is read any more. -/
def readAll : List String → Progress → Except UsageError Progress
  | [], progress => .ok progress
  | argument :: rest, progress =>
      if argument = "--" then
        match rest with
        | [] => .ok progress
        | extra :: _ => .error (.unknownArgument extra)
      else do
        readAll rest (← progress.read argument)

end Progress

def Options.parse (arguments : List String) : Except UsageError Options := do
  let progress ← Progress.readAll arguments {}
  let settled ← progress.settle
  if settled.given.contains "loss" && settled.given.contains "no-loss" then
    throw (.conflict "no-loss" "loss")
  return settled.options

end Simulation
end Spead
