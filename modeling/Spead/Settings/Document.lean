import Spead.Decimal.Reading
import Spead.Settings.Value

/-!
Configuration files: settings in the TOML notation.

A document is a sequence of lines. A line sets a value by its key, a dotted key sets it in a table
within, and a header opens the table that the following lines belong to. Nothing is set twice, and
a table is not extended after its definition is complete.

Numbers, texts, truth values, lists and tables are read. Dates, times and headers that open a list
of tables are refused, since no setting takes such a value.
-/

namespace Spead
namespace Document

/-- A piece of a document that has been read, with what follows it. -/
abbrev Piece (content : Type) := content × List Char

/-! ## Blanks and line ends -/

def isBlank (char : Char) : Bool :=
  char = ' ' || char = '\t'

def skipBlank (text : List Char) : List Char :=
  text.dropWhile isBlank

/-- Whether a character may stand in a comment or in a text of one line. -/
def isPlain (char : Char) : Bool :=
  char = '\t' || (0x20 ≤ char.toNat && char.toNat ≠ 0x7f)

def skipComment : List Char → List Char
  | '#' :: comment => comment.dropWhile isPlain
  | text => text

/-- What follows the end of the line, if nothing but blanks and a comment stands before it. -/
def endLine? (text : List Char) : Option (List Char) :=
  match skipComment (skipBlank text) with
  | [] => some []
  | '\n' :: rest => some rest
  | '\r' :: '\n' :: rest => some rest
  | _ => none

/-- Skip at most `budget` line ends with the blanks and comments around them. -/
def skipLines : (budget : Nat) → List Char → List Char
  | 0, text => skipBlank text
  | budget + 1, text =>
      match endLine? text with
      | some rest => skipLines budget rest
      | none => skipBlank text

/-! ## Texts -/

def hexDigit? (char : Char) : Option Nat :=
  if char.isDigit then
    some (char.toNat - '0'.toNat)
  else if 'a' ≤ char.toLower && char.toLower ≤ 'f' then
    some (char.toLower.toNat - 'a'.toNat + 10)
  else
    none

def numberedChar? (width : Nat) (text : List Char) : Option (Piece Char) := do
  let digits ← (text.take width).mapM hexDigit?
  let number := digits.foldl (fun number digit => number * 16 + digit) 0
  if digits.length = width ∧ number.isValidChar then
    some (Char.ofNat number, text.drop width)
  else
    none

def escaped? : List Char → Option (Piece Char)
  | 'b' :: rest => some ('\x08', rest)
  | 't' :: rest => some ('\t', rest)
  | 'n' :: rest => some ('\n', rest)
  | 'f' :: rest => some ('\x0c', rest)
  | 'r' :: rest => some ('\r', rest)
  | '"' :: rest => some ('"', rest)
  | '\\' :: rest => some ('\\', rest)
  | 'u' :: rest => numberedChar? 4 rest
  | 'U' :: rest => numberedChar? 8 rest
  | _ => none

/-- A text up to its closing double quote; `read` has been read, the latest character first. -/
def quoted? : (budget : Nat) → (read : List Char) → List Char → Option (Piece String)
  | 0, _, _ => none
  | _ + 1, _, [] => none
  | _ + 1, read, '"' :: rest => some (String.ofList read.reverse, rest)
  | budget + 1, read, '\\' :: rest => do
      let (char, behind) ← escaped? rest
      quoted? budget (char :: read) behind
  | budget + 1, read, char :: rest =>
      if isPlain char then quoted? budget (char :: read) rest else none

/-- A text up to its closing single quote, in which nothing is escaped. -/
def literal? (text : List Char) : Option (Piece String) :=
  let isInside (char : Char) : Bool := isPlain char && char ≠ '\''
  match text.dropWhile isInside with
  | '\'' :: rest => some (String.ofList (text.takeWhile isInside), rest)
  | _ => none

/-- A line end right behind the opening quotes does not count. -/
def skipFirstLineEnd : List Char → List Char
  | '\n' :: rest => rest
  | '\r' :: '\n' :: rest => rest
  | text => text

/-- What follows a backslash at the end of a line: the text goes on at the next character that is
not blank. -/
def continued? (text : List Char) : Option (List Char) :=
  match skipBlank text with
  | '\n' :: rest => some (rest.dropWhile Char.isWhitespace)
  | '\r' :: '\n' :: rest => some (rest.dropWhile Char.isWhitespace)
  | _ => none

/-- A text of several lines up to three `mark` characters. Up to two more of them before the end
belong to the text. Only a text in double quotes has escapes. -/
def lines? (mark : Char) : (budget : Nat) → (read : List Char) → List Char → Option (Piece String)
  | 0, _, _ => none
  | _ + 1, _, [] => none
  | budget + 1, read, char :: rest =>
      if char = mark then
        let run := 1 + (rest.takeWhile fun other => other = mark).length
        let behind := rest.drop (run - 1)
        if run < 3 then
          lines? mark budget (List.replicate run mark ++ read) behind
        else if run ≤ 5 then
          some (String.ofList (List.replicate (run - 3) mark ++ read).reverse, behind)
        else
          none
      else if char = '\\' && mark = '"' then
        match continued? rest with
        | some behind => lines? mark budget read behind
        | none => do
            let (meant, behind) ← escaped? rest
            lines? mark budget (meant :: read) behind
      else if char = '\r' then
        match rest with
        | '\n' :: behind => lines? mark budget ('\n' :: read) behind
        | _ => none
      else if char = '\n' || isPlain char then
        lines? mark budget (char :: read) rest
      else
        none

/-! ## Keys -/

def isBare (char : Char) : Bool :=
  char.isAlphanum || char = '_' || char = '-'

def name? (text : List Char) : Option (Piece String) :=
  match text with
  | '"' :: rest => quoted? text.length [] rest
  | '\'' :: rest => literal? rest
  | _ =>
      let bare := text.takeWhile isBare
      if bare.isEmpty then none else some (String.ofList bare, text.dropWhile isBare)

/-- A key of at most `budget` parts with points between them, and the blanks behind it. -/
def key? : (budget : Nat) → List Char → Option (Piece (List String))
  | 0, _ => none
  | budget + 1, text => do
      let (name, behind) ← name? text
      match skipBlank behind with
      | '.' :: rest =>
          let (names, final) ← key? budget (skipBlank rest)
          return (name :: names, final)
      | final => return ([name], final)

/-! ## Numbers -/

/-- Digits without the underscores that may stand between two of them. -/
def ungroup? (isDigit : Char → Bool) (word : List Char) : Option (List Char) :=
  let digits := word.filter fun char => char ≠ '_'
  let isLone (pair : Char × Char) : Bool := pair.1 = '_' && pair.2 = '_'
  if digits.isEmpty || !digits.all isDigit || word.head? = some '_' ||
      word.getLast? = some '_' || (word.zip word.tail).any isLone then
    none
  else
    some digits

/-- Digits of a whole number in decimal notation, which has no leading zeros. -/
def wholeDigits? (word : List Char) : Option (List Char) := do
  let digits ← ungroup? Char.isDigit word
  if 1 < digits.length && digits.head? = some '0' then none else some digits

def valueOf (base : Nat) (digits : List Char) : Nat :=
  digits.foldl (fun value digit =>
    value * base + (hexDigit? digit).getD 0) 0

def based? (base : Nat) (word : List Char) : Option Nat := do
  let digits ← ungroup? (fun char => (hexDigit? char).any (· < base)) word
  return valueOf base digits

def integer? (word : List Char) : Option Int := do
  let value : Int ←
    match word with
    | '0' :: 'x' :: digits => (based? 16 digits).map Int.ofNat
    | '0' :: 'o' :: digits => (based? 8 digits).map Int.ofNat
    | '0' :: 'b' :: digits => (based? 2 digits).map Int.ofNat
    | _ =>
        let (negative, unsigned) := Decimal.splitSign word
        let digits ← wholeDigits? unsigned
        let magnitude := valueOf 10 digits
        some (if negative then -(magnitude : Int) else (magnitude : Int))
  if -(2 ^ 63) ≤ value && value < 2 ^ 63 then some value else none

def isExponent (word : List Char) : Bool :=
  (ungroup? Char.isDigit (Decimal.splitSign word).2).isSome

/-- Whether digits behind a point, and an exponent behind them, are well formed. -/
def isFraction (word : List Char) : Bool :=
  let isMark (char : Char) : Bool := char = 'e' || char = 'E'
  let places := word.takeWhile fun char => !isMark char
  (ungroup? Char.isDigit places).isSome &&
    match word.drop places.length with
    | [] => true
    | _ :: exponent => isExponent exponent

/-- Whether a word is a number with a point or an exponent. -/
def isReal (word : List Char) : Bool :=
  let unsigned := (Decimal.splitSign word).2
  let isWhole (char : Char) : Bool := char.isDigit || char = '_'
  (wholeDigits? (unsigned.takeWhile isWhole)).isSome &&
    match unsigned.dropWhile isWhole with
    | '.' :: fraction => isFraction fraction
    | 'e' :: exponent => isExponent exponent
    | 'E' :: exponent => isExponent exponent
    | _ => false

/-- A floating-point number. One that is too large is refused, unless it is negative. -/
def real? (word : List Char) : Option Binary64 := do
  let unsigned := (Decimal.splitSign word).2
  if unsigned = "inf".toList || unsigned = "nan".toList then
    Decimal.readBinary64? (String.ofList word)
  else if isReal word then
    let number ← Decimal.readBinary64? (String.ofList (word.filter fun char => char ≠ '_'))
    if number.datum = .infinite false then none else some number
  else
    none

def word? (word : List Char) : Option SettingValue :=
  if word = "true".toList then
    some (.truth true)
  else if word = "false".toList then
    some (.truth false)
  else
    (integer? word).map SettingValue.integer <|> (real? word).map SettingValue.real

/-! ## Tables under construction -/

def valueAt? : (path : List String) → SettingValue → Option SettingValue
  | [], value => some value
  | name :: rest, .table entries => do valueAt? rest (← entries.lookup name)
  | _ :: _, _ => none

/-- Set the value at a path of keys. Tables on the way are made where there are none. -/
def setAt (content : SettingValue) : (path : List String) → SettingValue → SettingValue
  | [], _ => content
  | name :: rest, value =>
      let entries :=
        match value with
        | .table entries => entries
        | _ => []
      let inner := (entries.lookup name).getD (.table [])
      .table ((entries.filter fun entry => entry.1 ≠ name) ++ [(name, setAt content rest inner)])

/-- A document as far as it has been read. -/
structure Draft where
  content : SettingValue := .table []
  /-- The table that lines belong to. -/
  current : List String := []
  /-- Tables that a header has opened. -/
  opened : List (List String) := []
  /-- Tables made by dotted keys. -/
  dotted : List (List String) := []
  /-- Where a value has been set. It stays as it is, also if it is a table. -/
  fixed : List (List String) := []

namespace Draft

/-- The paths that lead to `path`, itself and the first `skip` of its parts left out. -/
def waysTo (skip : Nat) (path : List String) : List (List String) :=
  (List.range (path.length - 1 - skip)).map fun length => path.take (skip + length + 1)

def set? (draft : Draft) (key : List String) (value : SettingValue) : Option Draft :=
  let path := draft.current ++ key
  let ways := waysTo draft.current.length path
  if (valueAt? path draft.content).isSome ||
      ways.any fun way => draft.opened.contains way || draft.fixed.contains way then
    none
  else
    some { draft with
      content := setAt value path draft.content
      dotted := draft.dotted ++ ways
      fixed := path :: draft.fixed }

def open? (draft : Draft) (path : List String) : Option Draft :=
  if draft.opened.contains path || draft.dotted.contains path || draft.fixed.contains path ||
      (waysTo 0 path).any draft.fixed.contains then
    none
  else
    let content :=
      if (valueAt? path draft.content).isSome then draft.content
      else setAt (.table []) path draft.content
    some { draft with content, current := path, opened := path :: draft.opened }

end Draft

/-! ## Values and lines -/

def asText? (piece : Option (Piece String)) : Option (Piece SettingValue) :=
  piece.map fun (text, rest) => (.text text, rest)

mutual

def value? : (budget : Nat) → List Char → Option (Piece SettingValue)
  | 0, _ => none
  | budget + 1, text =>
      match text with
      | '"' :: '"' :: '"' :: rest => asText? (lines? '"' text.length [] (skipFirstLineEnd rest))
      | '\'' :: '\'' :: '\'' :: rest => asText? (lines? '\'' text.length [] (skipFirstLineEnd rest))
      | '"' :: rest => asText? (quoted? text.length [] rest)
      | '\'' :: rest => asText? (literal? rest)
      | '[' :: rest => entries? budget [] rest
      | '\x7b' :: rest =>
          match skipBlank rest with
          | '\x7d' :: behind => some (.table [], behind)
          | inside => fields? budget {} inside
      | _ => do
          let isInside (char : Char) : Bool := isBare char || char = '+' || char = '.'
          let value ← word? (text.takeWhile isInside)
          return (value, text.dropWhile isInside)

/-- The entries of a list up to its closing bracket; `read` has been read, the latest first. -/
def entries? : (budget : Nat) → (read : List SettingValue) → List Char → Option (Piece SettingValue)
  | 0, _, _ => none
  | budget + 1, read, text =>
      match skipLines text.length text with
      | ']' :: rest => some (.list read.reverse, rest)
      | start => do
          let (value, behind) ← value? budget start
          match skipLines behind.length behind with
          | ',' :: rest => entries? budget (value :: read) rest
          | ']' :: rest => return (.list (value :: read).reverse, rest)
          | _ => none

/-- The fields of a table in braces up to the closing one. -/
def fields? : (budget : Nat) → (draft : Draft) → List Char → Option (Piece SettingValue)
  | 0, _, _ => none
  | budget + 1, draft, text => do
      let (key, behindKey) ← key? text.length (skipBlank text)
      let '=' :: start := behindKey
        | none
      let (value, behind) ← value? budget (skipBlank start)
      let next ← draft.set? key value
      match skipBlank behind with
      | ',' :: rest => fields? budget next rest
      | '\x7d' :: rest => return (next.content, rest)
      | _ => none

end

def readLines? : (budget : Nat) → Draft → List Char → Option Draft
  | 0, _, _ => none
  | budget + 1, draft, text =>
      match skipBlank text with
      | [] => some draft
      | '[' :: inside => do
          let (path, behind) ← key? inside.length (skipBlank inside)
          let ']' :: rest := behind
            | none
          readLines? budget (← draft.open? path) (← endLine? rest)
      | start =>
          match endLine? start with
          | some rest => readLines? budget draft rest
          | none => do
              let (key, behindKey) ← key? start.length start
              let '=' :: behindMark := behindKey
                | none
              let (value, behind) ← value? start.length (skipBlank behindMark)
              readLines? budget (← draft.set? key value) (← endLine? behind)

/-- Read a document. A byte-order mark before it is skipped. -/
def read? (text : String) : Option SettingValue :=
  let chars :=
    match text.toList with
    | '\ufeff' :: rest => rest
    | all => all
  (readLines? (chars.length + 1) {} chars).map Draft.content

end Document

instance : SettingsNotation where
  read? := Document.read?
  read?_empty := rfl

end Spead
