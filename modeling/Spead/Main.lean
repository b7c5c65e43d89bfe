import Spead.Simulation.Run

/-!
The program: run the simulation that the command line asks for.
-/

namespace Spead
namespace Simulation

def readText (path : String) : IO (Option String) := do
  try
    return some (← IO.FS.readFile path)
  catch _ =>
    return none

def finish (transcript : Transcript) : IO UInt32 := do
  IO.print transcript.output
  if let some complaint := transcript.complaint then
    IO.eprint complaint
  return UInt32.ofNat transcript.exitCode

def runProgram (arguments : List String) : IO UInt32 := do
  let path? := (Options.parse arguments).toOption.bind Options.configPath
  let text? ←
    match path? with
    | some path => readText path
    | none => pure none
  let fallbackSeed ← IO.monoNanosNow
  match planOf (fun _ => text?) fallbackSeed arguments with
  | .error transcript => finish transcript
  | .ok plan =>
      let started ← IO.monoNanosNow
      let outcome ← IO.lazyPure fun _ => run plan
      let ended ← IO.monoNanosNow
      finish (.ofOutcome plan outcome ((ended - started) / 1000))

end Simulation
end Spead

def main (arguments : List String) : IO UInt32 :=
  Spead.Simulation.runProgram arguments
