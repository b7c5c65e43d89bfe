import Spead.Group.Basic
import Spead.Random

/-!
The items that a simulation sends.

Their values follow from the seed and the number of the step alone, so that the receiver knows
what it should have got.
-/

namespace Spead
namespace Simulation
namespace Items

def stepId : Nat := 0x1000
def spectrumId : Nat := 0x1001
def samplesId : Nat := 0x1002
def statusId : Nat := 0x1003
def beamId : Nat := 0x1004

def descriptors : List Descriptor :=
  [{ id := stepId, name := "step", description := "sender step counter"
     shape := [], encoding := .elements .uint32 .rowMajor },
    { id := spectrumId, name := "spectrum", description := "power per channel"
      shape := [some 64], encoding := .elements .float32 .rowMajor },
    { id := samplesId, name := "samples", description := "raw voltage samples"
      shape := [none], encoding := .elements .int16 .rowMajor },
    { id := statusId, name := "status", description := "mode, lock flag, offset"
      shape := []
      encoding := .records
        [{ kind := .uint, bits := 4 },
          { kind := .bool, bits := 1 },
          { kind := .int, bits := 11 }] },
    { id := beamId, name := "beam", description := "beam weights"
      shape := [some 4, some 8], encoding := .elements .uint8 .rowMajor }]

def array (type : ElementType) (shape words : List Nat) : Value :=
  ⟨shape, .elements (.ofWords type.toElement words)⟩

/-- All powers are less than one hundred. This is its word. -/
def powerBound : Nat :=
  FloatFormat.binary32.encodeRatio 100 1

/-- The values of all items, by id, in every step. -/
abbrev Course := Nat → List (Nat × Value)

/-- The course that follows from a seed. Each draw stands beside the source that is left by it. -/
def course [RandomSource] (seed : Nat) : Course := fun step =>
  let source := RandomSource.ofSeed (seed ^^^ step * 2 ^ 32)
  let powers := RandomSource.list (RandomSource.float .binary32 powerBound) 64 source
  let sampleCount := RandomSource.upTo 300 powers.2
  let samples := RandomSource.list (RandomSource.upTo (2 ^ 16 - 1)) sampleCount.1 sampleCount.2
  let mode := RandomSource.upTo 15 samples.2
  let lock := RandomSource.upTo 1 mode.2
  let offset := RandomSource.upTo 2047 lock.2
  let weights := RandomSource.list (RandomSource.upTo 255) 32 offset.2
  [(stepId, array .uint32 [] [step]),
    (spectrumId, array .float32 [64] powers.1),
    (samplesId, array .int16 [sampleCount.1] samples.1),
    (statusId, .record [.uint mode.1, .bool (lock.1 = 1), .int (offset.1 - 1024)]),
    (beamId, array .uint8 [4, 8] weights.1)]

def setStep (course : Course) (group : Group) (step : Nat) : Except Error Group :=
  (course step).foldlM (fun current (id, value) => current.setValue id value) group

def initial (course : Course) : Except Error Group := do
  let described ← descriptors.foldlM
    (fun group descriptor => group.add descriptor none) Group.empty
  setStep course described 0

def stepOf? (group : Group) : Option Nat := do
  match (← (← group.get? stepId).value).content with
  | .elements array =>
      if array.element = ElementType.uint32.toElement then array.words.head? else none
  | .records _ => none

end Items
end Simulation
end Spead
