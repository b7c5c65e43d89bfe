import Spead.FloatingPoint

/-!
Chance.

What is drawn is up to a source of random numbers. It is known of a source that its draws follow
from the seed that it begins with, and from what range each of them is.
-/

namespace Spead

/-- A source of random numbers. -/
class RandomSource where
  State : Type
  ofSeed : Nat → State
  /-- Draw a number from zero up to and including `limit`. -/
  upTo : (limit : Nat) → State → Nat × State
  /-- Draw the word of a number that is not negative and less than the one whose word is `bound`.
  Without sign, words are in the order of their numbers. -/
  float : (format : FloatFormat) → (bound : Nat) → State → Nat × State
  upTo_le : ∀ limit state, (upTo limit state).1 ≤ limit
  float_lt : ∀ format bound state, 0 < bound → (float format bound state).1 < bound

namespace RandomSource

variable [RandomSource]

/-- Draw a number from zero up to, but not including, one. -/
def fraction (source : State) : Binary64 × State :=
  let (drawn, next) := float .binary64 (FloatFormat.binary64.encodeRatio 1 1) source
  (.ofWord drawn, next)

/-- Draw something that comes true with the given probability. Nothing is drawn for a
probability that is not positive. -/
def chance (rate : Binary64) (source : State) : Bool × State :=
  if (Binary64.ofNat 0).less rate then
    let (drawn, next) := fraction source
    (drawn.less rate, next)
  else
    (false, source)

def list (draw : State → Nat × State) : (count : Nat) → State → List Nat × State
  | 0, source => ([], source)
  | count + 1, source =>
      let (first, next) := draw source
      let (rest, final) := list draw count next
      (first :: rest, final)

end RandomSource
end Spead
