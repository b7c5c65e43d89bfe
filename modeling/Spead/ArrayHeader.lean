import Spead.Error
import Spead.Text.Blank

/-!
The header that describes an array in a text of the form
`{'descr': '<u2', 'fortran_order': False, 'shape': (2, 3)}`.

`render` writes that form. `parse` also reads every other spelling of it: the keys in any order,
either quote, blanks before any token, a comma after the last entry, `None` for a variable
dimension, and letters `L` behind a dimension. What follows the closing brace is not looked at.
-/

namespace Spead

open Text

/-- What the header of an array says. -/
structure ArrayHeader where
  type : ElementType
  order : ElementOrder
  shape : List Dimension
  deriving DecidableEq, Repr

namespace ArrayHeader

/-! ## Writing -/

/-- A dimension; a variable one is written as minus one. -/
def renderDimension : Dimension → String
  | some length => toString length
  | none => "-1"

/-- The dimensions between round brackets. A single one is followed by a comma. -/
def renderShape (shape : List Dimension) : String :=
  match shape with
  | [single] => "(" ++ renderDimension single ++ ",)"
  | _ => "(" ++ ", ".intercalate (shape.map renderDimension) ++ ")"

def render (header : ArrayHeader) : String :=
  let fortranOrder :=
    match header.order with
    | .rowMajor => "False"
    | .columnMajor => "True"
  "\x7b'descr': '" ++ header.type.text ++ "', 'fortran_order': " ++ fortranOrder ++
    ", 'shape': " ++ renderShape header.shape ++ "\x7d"

/-! ## Reading -/

/-- The unread part of a header text, with the number of bytes before it. -/
structure Cursor where
  rest : List Char
  position : Nat
  deriving DecidableEq, Repr

/-- Why a header cannot be read. -/
inductive Fault where
  | problem (problem : HeaderProblem) (position : Nat)
  | elementType (text : String)
  deriving DecidableEq, Repr

def byteCount (chars : List Char) : Nat :=
  chars.foldl (fun total char => total + char.utf8Size) 0

namespace Cursor

/-- Move behind `taken`, which `rest` begins with. -/
def advance (cursor : Cursor) (taken rest : List Char) : Cursor :=
  ⟨rest, cursor.position + byteCount taken⟩

def skipBlanks (cursor : Cursor) : Cursor :=
  cursor.advance (cursor.rest.takeWhile isBlank) (cursor.rest.dropWhile isBlank)

def fault {result : Type} (cursor : Cursor) (problem : HeaderProblem) : Except Fault result :=
  .error (.problem problem cursor.position)

/-- Move behind `char` if it comes next. In any case blanks are skipped. -/
def eat (cursor : Cursor) (char : Char) : Bool × Cursor :=
  let start := cursor.skipBlanks
  match start.rest with
  | head :: tail => if head = char then (true, start.advance [head] tail) else (false, start)
  | [] => (false, start)

def expect (cursor : Cursor) (char : Char) : Except Fault Cursor :=
  match cursor.eat char with
  | (true, next) => .ok next
  | (false, start) => start.fault (.expected char)

def text (cursor : Cursor) : Except Fault (String × Cursor) :=
  let start := cursor.skipBlanks
  match start.rest with
  | mark :: tail =>
      if mark = '\'' || mark = '"' then
        let content := tail.takeWhile (· ≠ mark)
        let inside := start.advance [mark] tail
        match tail.dropWhile (· ≠ mark) with
        | closing :: rest =>
            .ok (String.ofList content, inside.advance (content ++ [closing]) rest)
        | [] => inside.fault .unterminatedText
      else
        start.fault .expectedText
  | [] => start.fault .expectedText

def isWordChar (char : Char) : Bool :=
  char.isAlphanum || char = '-' || char = '_'

def word (cursor : Cursor) : List Char × Cursor :=
  let start := cursor.skipBlanks
  let taken := start.rest.takeWhile isWordChar
  (taken, start.advance taken (start.rest.dropWhile isWordChar))

def truth (cursor : Cursor) : Except Fault (Bool × Cursor) :=
  let (taken, next) := cursor.word
  match String.ofList taken with
  | "True" => .ok (true, next)
  | "False" => .ok (false, next)
  | _ => next.fault .expectedTruth

end Cursor

def dropLongMarks (word : List Char) : List Char :=
  (word.reverse.dropWhile (· = 'L')).reverse

def readDimension? (word : List Char) : Option Dimension :=
  if String.ofList word = "None" || String.ofList word = "-1" then
    some none
  else
    (Decimal.readWord? (dropLongMarks word)).map some

/-- Read the entries of a shape up to its closing bracket. Every entry takes a character at
least, so a budget of one more than the characters left is enough. -/
def parseDimensions :
    (budget : Nat) → (read : List Dimension) → Cursor →
      Except Fault (List Dimension × Cursor)
  | 0, _, cursor => cursor.fault (.expected ')')
  | budget + 1, read, cursor =>
      match cursor.eat ')' with
      | (true, next) => .ok (read.reverse, next)
      | (false, start) =>
          let (word, behind) := start.word
          match readDimension? word with
          | none => behind.fault (.badDimension (String.ofList word))
          | some dimension =>
              match behind.eat ',' with
              | (true, next) => parseDimensions budget (dimension :: read) next
              | (false, last) => do
                  let next ← last.expect ')'
                  return ((dimension :: read).reverse, next)

def parseShape (cursor : Cursor) : Except Fault (List Dimension × Cursor) := do
  let inside ← cursor.expect '('
  parseDimensions (inside.rest.length + 1) [] inside

/-- The entries of a header that have been read; a later one replaces an earlier one. -/
structure Entries where
  type : Option ElementType := none
  order : Option ElementOrder := none
  shape : Option (List Dimension) := none
  deriving DecidableEq, Repr

def parseEntry
    (key : String) (entries : Entries) (cursor : Cursor) : Except Fault (Entries × Cursor) :=
  match key with
  | "descr" => do
      let (text, next) ← cursor.text
      match ElementType.parse? text with
      | some type => return ({ entries with type := some type }, next)
      | none => throw (.elementType text)
  | "fortran_order" => do
      let (columnMajor, next) ← cursor.truth
      let order := if columnMajor then ElementOrder.columnMajor else .rowMajor
      return ({ entries with order := some order }, next)
  | "shape" => do
      let (shape, next) ← parseShape cursor
      return ({ entries with shape := some shape }, next)
  | other => cursor.fault (.unexpectedKey other)

/-- Read entries up to the closing brace. Every entry takes a character at least, so a budget of
one more than the characters left is enough. -/
def parseEntries :
    (budget : Nat) → Entries → Cursor → Except Fault (Entries × Cursor)
  | 0, _, cursor => cursor.fault (.expected '\x7d')
  | budget + 1, entries, cursor =>
      match cursor.eat '\x7d' with
      | (true, next) => .ok (entries, next)
      | (false, start) => do
          let (key, behindKey) ← start.text
          let behindColon ← behindKey.expect ':'
          let (updated, behind) ← parseEntry key entries behindColon
          match behind.eat ',' with
          | (true, next) => parseEntries budget updated next
          | (false, last) => do
              let next ← last.expect '\x7d'
              return (updated, next)

def parseChars (chars : List Char) : Except Fault ArrayHeader := do
  let inside ← (Cursor.mk chars 0).expect '\x7b'
  let (entries, behind) ← parseEntries (inside.rest.length + 1) {} inside
  match entries with
  | ⟨some type, some order, some shape⟩ => return ⟨type, order, shape⟩
  | _ => behind.fault .missingKey

def parse (text : String) : Except CodecError ArrayHeader :=
  match parseChars text.toList with
  | .ok header => .ok header
  | .error (.problem problem position) => .error (.header problem position text)
  | .error (.elementType type) => .error (.unknownElementType type)

end ArrayHeader
end Spead
