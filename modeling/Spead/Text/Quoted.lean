import Spead.Text.Hidden

/-!
Text shown between quotes, as error messages show it.

A quoted string escapes the double quote, a quoted character the single one; both escape the
backslash, the common control characters by letter and every other hidden character by number.
-/

namespace Spead
namespace Text

def hexDigits (value : Nat) : String :=
  String.ofList (Nat.toDigits 16 value)

/-- `value` in base sixteen behind a `0x`, with at least `width` digits. -/
def hex (value : Nat) (width : Nat := 1) : String :=
  let digits := Nat.toDigits 16 value
  String.ofList ('0' :: 'x' :: List.replicate (width - digits.length) '0' ++ digits)

def escape (quote char : Char) : String :=
  if char = quote || char = '\\' then
    String.ofList ['\\', char]
  else if char = '\n' then
    "\\n"
  else if char = '\t' then
    "\\t"
  else if char = '\r' then
    "\\r"
  else if char.toNat = 0 then
    "\\0"
  else if isHidden char then
    "\\u\x7b" ++ hexDigits char.toNat ++ "\x7d"
  else
    char.toString

def quote (text : String) : String :=
  "\"" ++ String.join (text.toList.map (escape '"')) ++ "\""

def quoteChar (char : Char) : String :=
  "'" ++ escape '\'' char ++ "'"

def bracketed (entries : List String) : String :=
  "[" ++ ", ".intercalate entries ++ "]"

def bracketedNats (numbers : List Nat) : String :=
  bracketed (numbers.map fun number => toString number)

end Text
end Spead
