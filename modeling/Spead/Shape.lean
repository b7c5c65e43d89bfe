import Spead.Bytes

/-!
Shapes of items and the number of elements they hold.
-/

namespace Spead

/-- A dimension of an item's shape: a fixed length, or nothing where the length varies from value
to value. -/
abbrev Dimension := Option Nat

namespace Shape

/-- The number of elements of an array with these dimensions. The dimensions are multiplied from
the first to the last, and every product on the way has to be a number of 64 bits. -/
def elementCount (dimensions : List Nat) : Option Nat :=
  dimensions.foldlM (fun count dimension =>
    if count * dimension < wordLimit then some (count * dimension) else none) 1

/-- A shape as shown in messages, with a question mark for a variable dimension. -/
def describe (shape : List Dimension) : String :=
  let entries := shape.map fun dimension =>
    match dimension with
    | some length => toString length
    | none => "?"
  "(" ++ ", ".intercalate entries ++ ")"

def fixedDimensions (shape : List Dimension) : List Nat :=
  shape.filterMap id

def variableCount (shape : List Dimension) : Nat :=
  shape.countP Option.isNone

def fill (length : Nat) (shape : List Dimension) : List Nat :=
  shape.map fun dimension => dimension.getD length

def admits (shape : List Dimension) (dimensions : List Nat) : Bool :=
  shape.length = dimensions.length &&
    (shape.zip dimensions).all fun (dimension, length) =>
      dimension.all (· = length)

end Shape
end Spead
