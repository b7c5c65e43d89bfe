import Spead.Shape

/-!
The order of the elements of an array with several dimensions.

In memory the last index varies fastest. `columnMajor` lists, for the order in which the first
index varies fastest, the place of each element in memory; for the reversed shape the same list
takes the elements back.
-/

namespace Spead
namespace Shape

/-- Number of elements, whatever its size. -/
def volume (dimensions : List Nat) : Nat :=
  dimensions.foldr (· * ·) 1

/-- The places of the elements of an array without empty dimensions. The first index varies
fastest, and a step of it is as long as all the other dimensions together. -/
def columnMajorPlaces : (dimensions : List Nat) → List Nat
  | [] => [0]
  | length :: rest =>
      let step := volume rest
      (columnMajorPlaces rest).flatMap fun place =>
        (List.range length).map fun index => index * step + place

def columnMajor (dimensions : List Nat) : List Nat :=
  if volume dimensions = 0 then [] else columnMajorPlaces dimensions

def gather (places : List Nat) (words : List Nat) : List Nat :=
  let held := words.toArray
  places.map fun place => held.getD place 0

end Shape
end Spead
