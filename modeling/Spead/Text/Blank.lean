/-!
White space: the 25 characters with the Unicode property `White_Space`.
-/

namespace Spead
namespace Text

/-- First and last code point of each run of blank characters, in ascending order. -/
def blankRanges : List (Nat × Nat) :=
  [(0x9, 0xd), (0x20, 0x20), (0x85, 0x85), (0xa0, 0xa0), (0x1680, 0x1680),
    (0x2000, 0x200a), (0x2028, 0x2029), (0x202f, 0x202f), (0x205f, 0x205f),
    (0x3000, 0x3000)]

def isBlank (char : Char) : Bool :=
  blankRanges.any fun (first, last) =>
    first ≤ char.toNat && char.toNat ≤ last

def skipBlanks (chars : List Char) : List Char :=
  chars.dropWhile isBlank

end Text
end Spead
