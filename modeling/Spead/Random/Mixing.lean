import Spead.Random

/-!
A source of random numbers to run the program with.

The state walks through all words with a fixed odd stride, and what is drawn is the state with its
bits mixed. Nothing is proved of it but the ranges that are known of every source.
-/

namespace Spead
namespace Mixing

def word (state : UInt64) : UInt64 × UInt64 :=
  let next := state + 0x9e3779b97f4a7c15
  let once := (next ^^^ (next >>> 30)) * 0xbf58476d1ce4e5b9
  let twice := (once ^^^ (once >>> 27)) * 0x94d049bb133111eb
  (twice ^^^ (twice >>> 31), next)

def upTo (limit : Nat) (state : UInt64) : Nat × UInt64 :=
  let (drawn, next) := word state
  (drawn.toNat % (limit + 1), next)

/-- The number is the bound times one of `2 ^ 53` evenly spaced fractions. Where it would be
rounded up to the bound, it is the number before. -/
def float (format : FloatFormat) (bound : Nat) (state : UInt64) : Nat × UInt64 :=
  let (drawn, next) := word state
  let share := drawn.toNat / 2 ^ 11
  let scaled :=
    match format.decode bound with
    | .finite _ significand exponent =>
        let (numerator, denominator) := scaleFraction 2 exponent (significand * share) (2 ^ 53)
        format.encodeRatio numerator denominator
    | _ => 0
  (min scaled (bound - 1), next)

end Mixing

instance : RandomSource where
  State := UInt64
  ofSeed := UInt64.ofNat
  upTo := Mixing.upTo
  float := Mixing.float
  upTo_le limit _ := Nat.le_of_lt_succ (Nat.mod_lt _ (Nat.succ_pos limit))
  float_lt _ _ _ positive :=
    Nat.lt_of_le_of_lt (Nat.min_le_right _ _) (Nat.sub_one_lt_of_lt positive)

end Spead
