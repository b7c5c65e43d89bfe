import Spead.ArrayHeader
import Spead.Proofs.Element
import Spead.Proofs.Except

/-!
Array headers read back from every spelling of them.

A header may be spelled in many ways, of which `render` chooses one. The readers are followed along
a text that is known to be a spelling; positions only matter for what is said about faulty texts,
so it is enough here that there is one.
-/

namespace Spead

open Text

namespace ArrayHeader

/-- Characters that are white space, as may stand before any token. -/
def Blank (chars : List Char) : Prop :=
  ∀ char ∈ chars, isBlank char = true

/-- Characters of which the first, if there is one, is not white space. -/
def StartsDark (chars : List Char) : Prop :=
  ∀ char ∈ chars.head?, isBlank char = false

/-- Characters that do not go on with a word in front of them. -/
def StopsWord (chars : List Char) : Prop :=
  ∀ char ∈ chars.head?, Cursor.isWordChar char = false

theorem blank_nil : Blank [] := by
  simp [Blank]

theorem blank_space : Blank [' '] := by
  simp only [Blank, List.mem_singleton, forall_eq]
  decide

theorem startsDark_cons {char : Char} (dark : isBlank char = false) (rest : List Char) :
    StartsDark (char :: rest) := by
  simpa [StartsDark] using dark

theorem stopsWord_cons {char : Char} (other : Cursor.isWordChar char = false) (rest : List Char) :
    StopsWord (char :: rest) := by
  simpa [StopsWord] using other

theorem isBlank_of_isWordChar {char : Char} (ofWord : Cursor.isWordChar char = true) :
    isBlank char = false := by
  rw [Bool.eq_false_iff]
  intro blank
  simp only [isBlank, blankRanges, List.any_cons, List.any_nil, Bool.or_false, Bool.or_eq_true,
    Bool.and_eq_true, decide_eq_true_eq] at blank
  delta Cursor.isWordChar Char.isAlphanum Char.isAlpha Char.isUpper Char.isLower at ofWord
  simp only [Char.isDigit, Bool.or_eq_true, Bool.and_eq_true, decide_eq_true_eq, ge_iff_le,
    UInt32.le_iff_toNat_le] at ofWord
  rcases ofWord with ((letter | digit) | rfl) | rfl
  · simp at letter
    omega
  · simp at digit
    omega
  · revert blank
    decide
  · revert blank
    decide

theorem isWordChar_of_isBlank {char : Char} (blank : isBlank char = true) :
    Cursor.isWordChar char = false := by
  rw [Bool.eq_false_iff]
  intro ofWord
  rw [isBlank_of_isWordChar ofWord] at blank
  cases blank

theorem isWordChar_of_isDigit {char : Char} (isDigit : char.isDigit = true) :
    Cursor.isWordChar char = true := by
  simp [Cursor.isWordChar, Char.isAlphanum, isDigit]

/-! ## Reading tokens -/

theorem takeWhile_dropWhile_of_head?
    {goesOn : Char → Bool} {chars : List Char} (stops : ∀ char ∈ chars.head?, goesOn char = false) :
    chars.takeWhile goesOn = [] ∧ chars.dropWhile goesOn = chars := by
  cases chars with
  | nil => exact ⟨rfl, rfl⟩
  | cons head tail =>
      have other : goesOn head = false := stops head rfl
      simp [other]

section Tokens

variable {blanks rest : List Char} (position : Nat)

theorem skipBlanks_append (blank : Blank blanks) (dark : StartsDark rest) :
    ∃ behind, (Cursor.mk (blanks ++ rest) position).skipBlanks = ⟨rest, behind⟩ := by
  obtain ⟨takeRest, dropRest⟩ := takeWhile_dropWhile_of_head? dark
  refine ⟨position + byteCount blanks, ?_⟩
  simp only [Cursor.skipBlanks, Cursor.advance]
  rw [List.takeWhile_append_of_pos blank, List.dropWhile_append_of_pos blank, takeRest, dropRest,
    List.append_nil]

theorem eat_same (blank : Blank blanks) {char : Char} (dark : isBlank char = false) :
    ∃ behind,
      (Cursor.mk (blanks ++ char :: rest) position).eat char = (true, ⟨rest, behind⟩) := by
  obtain ⟨start, skipped⟩ := skipBlanks_append position blank (startsDark_cons dark rest)
  refine ⟨start + byteCount [char], ?_⟩
  simp only [Cursor.eat, skipped, if_true]
  rfl

theorem eat_other
    (blank : Blank blanks) {head char : Char} (dark : isBlank head = false)
    (different : head ≠ char) :
    ∃ behind,
      (Cursor.mk (blanks ++ head :: rest) position).eat char =
        (false, ⟨head :: rest, behind⟩) := by
  obtain ⟨start, skipped⟩ := skipBlanks_append position blank (startsDark_cons dark rest)
  refine ⟨start, ?_⟩
  simp only [Cursor.eat, skipped, if_neg different]

theorem expect_same (blank : Blank blanks) {char : Char} (dark : isBlank char = false) :
    ∃ behind,
      (Cursor.mk (blanks ++ char :: rest) position).expect char = .ok ⟨rest, behind⟩ := by
  obtain ⟨behind, eaten⟩ :
      ∃ behind,
        (Cursor.mk (blanks ++ char :: rest) position).eat char = (true, ⟨rest, behind⟩) :=
    eat_same position blank dark
  refine ⟨behind, ?_⟩
  simp only [Cursor.expect, eaten]

theorem isBlank_of_quote {mark : Char} (quote : mark = '\'' ∨ mark = '"') :
    isBlank mark = false := by
  rcases quote with rfl | rfl
  · decide
  · decide

theorem not_mem_of_quote
    {mark : Char} (quote : mark = '\'' ∨ mark = '"') {content : List Char}
    (unquoted : '\'' ∉ content ∧ '"' ∉ content) : mark ∉ content := by
  rcases quote with rfl | rfl
  · exact unquoted.1
  · exact unquoted.2

/-- A quoted text, which does not hold its own quote. -/
theorem text_quoted
    (blank : Blank blanks) {mark : Char} (quote : mark = '\'' ∨ mark = '"') {content : List Char}
    (unquoted : mark ∉ content) :
    ∃ behind,
      (Cursor.mk (blanks ++ mark :: (content ++ mark :: rest)) position).text =
        .ok (String.ofList content, ⟨rest, behind⟩) := by
  obtain ⟨start, skipped⟩ :=
    skipBlanks_append position blank
      (startsDark_cons (isBlank_of_quote quote) (content ++ mark :: rest))
  have other : ∀ char ∈ content, (decide (char ≠ mark)) = true := by
    intro char member
    rw [decide_eq_true_eq]
    rintro rfl
    exact unquoted member
  refine ⟨start + byteCount [mark] + byteCount (content ++ [mark]), ?_⟩
  simp only [Cursor.text, skipped]
  rw [if_pos (by simpa using quote), List.takeWhile_append_of_pos other,
    List.dropWhile_append_of_pos other]
  simp only [ne_eq, not_true_eq_false, decide_false, Bool.false_eq_true, not_false_eq_true,
    List.takeWhile_cons_of_neg, List.dropWhile_cons_of_neg, List.append_nil]
  rfl

/-- A word, behind which something else follows. -/
theorem word_append
    (blank : Blank blanks) {taken : List Char} (nonempty : taken ≠ [])
    (ofWord : ∀ char ∈ taken, Cursor.isWordChar char = true) (stops : StopsWord rest) :
    ∃ behind,
      (Cursor.mk (blanks ++ (taken ++ rest)) position).word = (taken, ⟨rest, behind⟩) := by
  have dark : StartsDark (taken ++ rest) := by
    obtain ⟨head, tail, rfl⟩ := List.exists_cons_of_ne_nil nonempty
    exact startsDark_cons (isBlank_of_isWordChar (ofWord head List.mem_cons_self)) _
  obtain ⟨start, skipped⟩ := skipBlanks_append position blank dark
  obtain ⟨takeRest, dropRest⟩ := takeWhile_dropWhile_of_head? stops
  refine ⟨start + byteCount taken, ?_⟩
  simp only [Cursor.word, skipped, Cursor.advance]
  rw [List.takeWhile_append_of_pos ofWord, List.dropWhile_append_of_pos ofWord, takeRest,
    dropRest, List.append_nil]

end Tokens

/-! ## Spellings -/

/-- A token with blanks in front of it. -/
inductive SpellsToken (token : List Char) : List Char → Prop where
  | intro {blanks : List Char} (blank : Blank blanks) : SpellsToken token (blanks ++ token)

/-- A text in quotes of either kind. -/
inductive SpellsText (content : List Char) : List Char → Prop where
  | intro {blanks : List Char} {mark : Char} (blank : Blank blanks)
      (quote : mark = '\'' ∨ mark = '"') :
      SpellsText content (blanks ++ mark :: (content ++ [mark]))

/-- Items with commas between them up to the closing bracket, and perhaps one behind the last. -/
inductive SpellsItems {item : Type} (spells : item → List Char → Prop) (closing : Char) :
    List item → List Char → Prop where
  | closed {chars : List Char} (bracket : SpellsToken [closing] chars) :
      SpellsItems spells closing [] chars
  | last {only : item} {front behind : List Char} (spelled : spells only front)
      (bracket : SpellsToken [closing] behind) :
      SpellsItems spells closing [only] (front ++ behind)
  | comma {first : item} {others : List item} {front comma behind : List Char}
      (spelled : spells first front) (separator : SpellsToken [','] comma)
      (rest : SpellsItems spells closing others behind) :
      SpellsItems spells closing (first :: others) (front ++ (comma ++ behind))

/-- A variable dimension, or a number with any letters `L` behind it. -/
inductive SpellsDimension : Dimension → List Char → Prop where
  | negative {chars : List Char} (word : SpellsToken "-1".toList chars) :
      SpellsDimension none chars
  | named {chars : List Char} (word : SpellsToken "None".toList chars) :
      SpellsDimension none chars
  | fixed {length : Nat} (marks : Nat) {chars : List Char}
      (word : SpellsToken (Nat.toDigits 10 length ++ List.replicate marks 'L') chars) :
      SpellsDimension (some length) chars

inductive SpellsShape (shape : List Dimension) : List Char → Prop where
  | intro {bracket dimensions : List Char} (opening : SpellsToken ['('] bracket)
      (spelled : SpellsItems SpellsDimension ')' shape dimensions) :
      SpellsShape shape (bracket ++ dimensions)

/-- What a header has an entry for. -/
inductive Key where
  | type
  | order
  | shape
  deriving DecidableEq, Repr

def Key.text : Key → String
  | .type => "descr"
  | .order => "fortran_order"
  | .shape => "shape"

def orderWord : ElementOrder → String
  | .rowMajor => "False"
  | .columnMajor => "True"

/-- What stands behind a key. -/
inductive SpellsValue (header : ArrayHeader) : Key → List Char → Prop where
  | type {chars : List Char} (spelled : SpellsText header.type.text.toList chars) :
      SpellsValue header .type chars
  | order {chars : List Char} (spelled : SpellsToken (orderWord header.order).toList chars) :
      SpellsValue header .order chars
  | shape {chars : List Char} (spelled : SpellsShape header.shape chars) :
      SpellsValue header .shape chars

/-- A key in quotes with its value. -/
inductive SpellsEntry (header : ArrayHeader) (key : Key) : List Char → Prop where
  | intro {name colon value : List Char} (named : SpellsText key.text.toList name)
      (separator : SpellsToken [':'] colon) (spelled : SpellsValue header key value) :
      SpellsEntry header key (name ++ (colon ++ value))

/-- The text spells the header, with the keys in any order and with any text behind the closing
brace. -/
inductive Spells (header : ArrayHeader) (text : String) : Prop where
  | intro {keys : List Key} {brace entries behind : List Char}
      (complete : keys.Perm [.type, .order, .shape]) (opening : SpellsToken ['\x7b'] brace)
      (spelled : SpellsItems (SpellsEntry header) '\x7d' keys entries)
      (split : text.toList = brace ++ (entries ++ behind))

/-- Every item takes a character at least, and so does the closing bracket. -/
theorem SpellsItems.length_lt
    {item : Type} {spells : item → List Char → Prop} {closing : Char} {items : List item}
    {chars : List Char} (spelled : SpellsItems spells closing items chars) :
    items.length < chars.length + 1 := by
  have token {char : Char} {chars : List Char} (spelled : SpellsToken [char] chars) :
      1 ≤ chars.length := by
    cases spelled with
    | intro => simp
  induction spelled with
  | closed bracket => simp
  | last spelled bracket =>
      have := token bracket
      simp only [List.length_append, List.length_singleton]
      omega
  | comma spelled separator rest inductionHypothesis =>
      have := token separator
      simp only [List.length_append, List.length_cons]
      omega

/-! ## Reading spelled tokens -/

section Spelled

variable {chars rest : List Char} (position : Nat)

theorem eat_of_spells {char : Char} (spelled : SpellsToken [char] chars)
    (dark : isBlank char = false) :
    ∃ behind, (Cursor.mk (chars ++ rest) position).eat char = (true, ⟨rest, behind⟩) := by
  cases spelled with
  | intro blank =>
      rw [List.append_assoc]
      exact eat_same position blank dark

theorem eat_of_spells_other {token char : Char} (spelled : SpellsToken [token] chars)
    (dark : isBlank token = false) (different : token ≠ char) :
    ∃ behind,
      (Cursor.mk (chars ++ rest) position).eat char = (false, ⟨token :: rest, behind⟩) := by
  cases spelled with
  | intro blank =>
      rw [List.append_assoc]
      exact eat_other position blank dark different

theorem expect_of_spells {char : Char} (spelled : SpellsToken [char] chars)
    (dark : isBlank char = false) :
    ∃ behind, (Cursor.mk (chars ++ rest) position).expect char = .ok ⟨rest, behind⟩ := by
  cases spelled with
  | intro blank =>
      rw [List.append_assoc]
      exact expect_same position blank dark

/-- Where the closing bracket stands there is no comma. -/
theorem closed_of_spells {closing : Char} (bracket : SpellsToken [closing] chars)
    (dark : isBlank closing = false) (different : closing ≠ ',') :
    ∃ last behind,
      (Cursor.mk (chars ++ rest) position).eat ',' = (false, last) ∧
        last.expect closing = .ok ⟨rest, behind⟩ := by
  obtain ⟨start, noComma⟩ :
      ∃ start,
        (Cursor.mk (chars ++ rest) position).eat ',' = (false, ⟨closing :: rest, start⟩) :=
    eat_of_spells_other position bracket dark different
  obtain ⟨behind, closed⟩ :
      ∃ behind, (Cursor.mk (closing :: rest) start).expect closing = .ok ⟨rest, behind⟩ :=
    expect_same start blank_nil dark
  exact ⟨_, behind, noComma, closed⟩

theorem text_of_spells {content : List Char} (spelled : SpellsText content chars)
    (unquoted : '\'' ∉ content ∧ '"' ∉ content) :
    ∃ behind,
      (Cursor.mk (chars ++ rest) position).text =
        .ok (String.ofList content, ⟨rest, behind⟩) := by
  cases spelled with
  | intro blank quote =>
      simp only [List.append_assoc, List.cons_append, List.nil_append]
      exact text_quoted position blank quote (not_mem_of_quote quote unquoted)

theorem word_of_spells {taken : List Char} (spelled : SpellsToken taken chars)
    (nonempty : taken ≠ []) (ofWord : ∀ char ∈ taken, Cursor.isWordChar char = true)
    (stops : StopsWord rest) :
    ∃ behind, (Cursor.mk (chars ++ rest) position).word = (taken, ⟨rest, behind⟩) := by
  cases spelled with
  | intro blank =>
      rw [List.append_assoc]
      exact word_append position blank nonempty ofWord stops

theorem stopsWord_of_spells {char : Char} (spelled : SpellsToken [char] chars)
    (other : Cursor.isWordChar char = false) (rest : List Char) : StopsWord (chars ++ rest) := by
  cases spelled with
  | @intro blanks blank =>
      cases blanks with
      | nil => exact stopsWord_cons other rest
      | cons head tail =>
          exact stopsWord_cons (isWordChar_of_isBlank (blank head List.mem_cons_self)) _

end Spelled

/-! ## Dimensions -/

/-- A word of digits with letters behind it is none of the words for a variable dimension. -/
theorem ofList_toDigits_ne
    (length marks : Nat) {word : String} (char : Char) (member : char ∈ word.toList)
    (other : char.isDigit = false ∧ char ≠ 'L') :
    String.ofList (Nat.toDigits 10 length ++ List.replicate marks 'L') ≠ word := by
  intro same
  rw [← same, String.toList_ofList, List.mem_append] at member
  rcases member with digit | mark
  · rw [Decimal.digits_isDigit length char digit] at other
    cases other.1
  · exact other.2 (List.eq_of_mem_replicate mark)

theorem dropLongMarks_toDigits (length marks : Nat) :
    dropLongMarks (Nat.toDigits 10 length ++ List.replicate marks 'L') =
      Nat.toDigits 10 length := by
  have unmarked : ∀ char ∈ (Nat.toDigits 10 length).reverse, char ≠ 'L' := by
    rintro char member rfl
    have isDigit := Decimal.digits_isDigit length 'L' (List.mem_reverse.1 member)
    revert isDigit
    decide
  unfold dropLongMarks
  rw [List.reverse_append, List.reverse_replicate, List.dropWhile_append_of_pos]
  · cases reversed : (Nat.toDigits 10 length).reverse with
    | nil => simpa using reversed.symm
    | cons last rest =>
        have other : last ≠ 'L' := unmarked last (by rw [reversed]; exact List.mem_cons_self)
        rw [List.dropWhile_cons_of_neg (by simpa using other), ← reversed, List.reverse_reverse]
  · intro char member
    simpa using List.eq_of_mem_replicate member

theorem readDimension?_toDigits {length : Nat} (small : length < wordLimit) (marks : Nat) :
    readDimension? (Nat.toDigits 10 length ++ List.replicate marks 'L') = some (some length) := by
  have notNone : String.ofList (Nat.toDigits 10 length ++ List.replicate marks 'L') ≠ "None" :=
    ofList_toDigits_ne length marks 'N' (by decide) (by decide)
  have notMinus : String.ofList (Nat.toDigits 10 length ++ List.replicate marks 'L') ≠ "-1" :=
    ofList_toDigits_ne length marks '-' (by decide) (by decide)
  unfold readDimension?
  rw [if_neg, dropLongMarks_toDigits, Decimal.readWord?_toDigits small]
  · rfl
  · rw [Bool.or_eq_true, decide_eq_true_eq, decide_eq_true_eq, not_or]
    exact ⟨notNone, notMinus⟩

/-- A dimension is spelled by a word, from which it is read. -/
theorem SpellsDimension.exists_word
    {dimension : Dimension} {chars : List Char} (spelled : SpellsDimension dimension chars)
    (small : ∀ length ∈ dimension, length < wordLimit) :
    ∃ head tail, SpellsToken (head :: tail) chars ∧
      (∀ char ∈ head :: tail, Cursor.isWordChar char = true) ∧
      readDimension? (head :: tail) = some dimension := by
  cases spelled with
  | negative word => exact ⟨'-', ['1'], word, List.all_eq_true.1 (by decide), by decide⟩
  | named word => exact ⟨'N', ['o', 'n', 'e'], word, List.all_eq_true.1 (by decide), by decide⟩
  | @fixed length marks _ word =>
      obtain ⟨head, digits, split⟩ :=
        List.exists_cons_of_ne_nil (Nat.toDigits_ne_nil (b := 10) (n := length))
      have read := readDimension?_toDigits (small length rfl) marks
      have ofWord : ∀ char ∈ Nat.toDigits 10 length ++ List.replicate marks 'L',
          Cursor.isWordChar char = true := by
        intro char member
        rcases List.mem_append.1 member with digit | mark
        · exact isWordChar_of_isDigit (Decimal.digits_isDigit length char digit)
        · rw [List.eq_of_mem_replicate mark]
          decide
      rw [split, List.cons_append] at word read ofWord
      exact ⟨head, _, word, ofWord, read⟩

section Shapes

/-- One dimension of a shape is read; a comma or the bracket follows. -/
theorem parseDimensions_succ
    {dimension : Dimension} {front rest : List Char} (spelled : SpellsDimension dimension front)
    (small : ∀ length ∈ dimension, length < wordLimit) (stops : StopsWord rest)
    (budget : Nat) (read : List Dimension) (position : Nat) :
    ∃ behind,
      parseDimensions (budget + 1) read ⟨front ++ rest, position⟩ =
        match (Cursor.mk rest behind).eat ',' with
        | (true, next) => parseDimensions budget (dimension :: read) next
        | (false, last) => do
            let next ← last.expect ')'
            return ((dimension :: read).reverse, next) := by
  obtain ⟨head, tail, token, ofWord, readBack⟩ := spelled.exists_word small
  have headOfWord := ofWord head List.mem_cons_self
  have different : head ≠ ')' := by
    rintro rfl
    revert headOfWord
    decide
  cases token with
  | @intro blanks blank =>
      obtain ⟨start, notClosed⟩ :
          ∃ start, (Cursor.mk (blanks ++ head :: (tail ++ rest)) position).eat ')' =
            (false, ⟨head :: (tail ++ rest), start⟩) :=
        eat_other position blank (isBlank_of_isWordChar headOfWord) different
      obtain ⟨behind, word⟩ :=
        word_append start blank_nil (List.cons_ne_nil head tail) ofWord stops
      rw [List.nil_append, List.cons_append] at word
      refine ⟨behind, ?_⟩
      rw [List.append_assoc, List.cons_append, parseDimensions, notClosed]
      dsimp only
      rw [word]
      cases (Cursor.mk rest behind).eat ',' with
      | mk found next =>
          cases found with
          | true => simp only [readBack]
          | false => simp only [readBack]

/-- The dimensions of a shape are read up to the bracket. -/
theorem parseDimensions_of_spells
    {shape : List Dimension} {chars : List Char}
    (spelled : SpellsItems SpellsDimension ')' shape chars)
    (small : ∀ dimension ∈ shape, ∀ length ∈ dimension, length < wordLimit) {budget : Nat}
    (enough : shape.length < budget) (read : List Dimension) (rest : List Char)
    (position : Nat) :
    ∃ behind,
      parseDimensions budget read ⟨chars ++ rest, position⟩ =
        .ok (read.reverse ++ shape, ⟨rest, behind⟩) := by
  induction spelled generalizing budget read position with
  | closed bracket =>
      obtain ⟨less, rfl⟩ := Nat.exists_eq_succ_of_ne_zero (Nat.ne_zero_of_lt enough)
      obtain ⟨behind, closed⟩ :
          ∃ behind, (Cursor.mk (_ ++ rest) position).eat ')' = (true, ⟨rest, behind⟩) :=
        eat_of_spells position bracket (by decide)
      refine ⟨behind, ?_⟩
      rw [parseDimensions, closed, List.append_nil]
  | last only bracket =>
      obtain ⟨less, rfl⟩ := Nat.exists_eq_succ_of_ne_zero (Nat.ne_zero_of_lt enough)
      have stops := stopsWord_of_spells bracket (by decide) rest
      obtain ⟨start, step⟩ :=
        parseDimensions_succ only (small _ List.mem_cons_self) stops less read position
      obtain ⟨last, behind, noComma, closed⟩ :
          ∃ last behind, (Cursor.mk (_ ++ rest) start).eat ',' = (false, last) ∧
            last.expect ')' = .ok ⟨rest, behind⟩ :=
        closed_of_spells start bracket (by decide) (by decide)
      refine ⟨behind, ?_⟩
      rw [List.append_assoc, step, noComma]
      simp only [closed, List.reverse_cons]
      rfl
  | @comma first others _ _ behindComma only separator _ inductionHypothesis =>
      obtain ⟨less, rfl⟩ := Nat.exists_eq_succ_of_ne_zero (Nat.ne_zero_of_lt enough)
      have stops := stopsWord_of_spells separator (by decide) (behindComma ++ rest)
      obtain ⟨start, step⟩ :=
        parseDimensions_succ only (small _ List.mem_cons_self) stops less read position
      obtain ⟨afterComma, comma⟩ :
          ∃ behind, (Cursor.mk (_ ++ (behindComma ++ rest)) start).eat ',' =
            (true, ⟨behindComma ++ rest, behind⟩) :=
        eat_of_spells start separator (by decide)
      obtain ⟨behind, parsed⟩ :=
        inductionHypothesis (fun other member => small other (List.mem_cons_of_mem first member))
          (Nat.lt_of_succ_lt_succ enough) (first :: read) afterComma
      refine ⟨behind, ?_⟩
      rw [List.append_assoc, List.append_assoc, step, comma]
      dsimp only
      rw [parsed, List.reverse_cons, List.append_assoc, List.singleton_append]

theorem parseShape_of_spells
    {shape : List Dimension} {chars : List Char} (spelled : SpellsShape shape chars)
    (small : ∀ dimension ∈ shape, ∀ length ∈ dimension, length < wordLimit)
    (rest : List Char) (position : Nat) :
    ∃ behind,
      parseShape ⟨chars ++ rest, position⟩ = .ok (shape, ⟨rest, behind⟩) := by
  cases spelled with
  | @intro _ dimensions opening spelled =>
      obtain ⟨start, opened⟩ :
          ∃ start, (Cursor.mk (_ ++ (dimensions ++ rest)) position).expect '(' =
            .ok ⟨dimensions ++ rest, start⟩ :=
        expect_of_spells position opening (by decide)
      have enough : shape.length < (dimensions ++ rest).length + 1 := by
        have := spelled.length_lt
        rw [List.length_append]
        omega
      obtain ⟨behind, parsed⟩ := parseDimensions_of_spells spelled small enough [] rest start
      refine ⟨behind, ?_⟩
      rw [List.append_assoc, parseShape]
      simp only [opened, bind, Except.bind]
      exact parsed

end Shapes

/-! ## Entries -/

/-- The entries with one more of them, as the header has it. -/
def Entries.note (header : ArrayHeader) (entries : Entries) : Key → Entries
  | .type => { entries with type := some header.type.canonical }
  | .order => { entries with order := some header.order }
  | .shape => { entries with shape := some header.shape }

theorem Entries.note_note_comm
    (header : ArrayHeader) (entries : Entries) (first second : Key) :
    (entries.note header first).note header second =
      (entries.note header second).note header first := by
  cases first <;> cases second <;> rfl

theorem unquoted_key (key : Key) : '\'' ∉ key.text.toList ∧ '"' ∉ key.text.toList := by
  cases key <;> decide

section Headers

variable {header : ArrayHeader}
  (small : ∀ dimension ∈ header.shape, ∀ length ∈ dimension, length < wordLimit)

include small

theorem parseEntry_of_spells
    {key : Key} {chars rest : List Char} (spelled : SpellsValue header key chars)
    (stops : StopsWord rest) (entries : Entries) (position : Nat) :
    ∃ behind,
      parseEntry key.text entries ⟨chars ++ rest, position⟩ =
        .ok (entries.note header key, ⟨rest, behind⟩) := by
  cases spelled with
  | type spelled =>
      obtain ⟨behind, text⟩ :
          ∃ behind, (Cursor.mk (chars ++ rest) position).text =
            .ok (String.ofList header.type.text.toList, ⟨rest, behind⟩) :=
        text_of_spells position spelled header.type.unquoted_text
      refine ⟨behind, ?_⟩
      rw [String.ofList_toList] at text
      simp only [parseEntry, Key.text, text, bind, Except.bind, header.type.parse?_text]
      rfl
  | order spelled =>
      have some : (orderWord header.order).toList ≠ [] := by cases header.order <;> decide
      have all : (orderWord header.order).toList.all Cursor.isWordChar = true := by
        cases header.order <;> decide
      obtain ⟨behind, word⟩ :=
        word_of_spells position spelled some (List.all_eq_true.1 all) stops
      refine ⟨behind, ?_⟩
      simp only [parseEntry, Key.text, Cursor.truth, word, String.ofList_toList, Entries.note]
      cases header.order <;> rfl
  | shape spelled =>
      obtain ⟨behind, parsed⟩ := parseShape_of_spells spelled small rest position
      refine ⟨behind, ?_⟩
      simp only [parseEntry, Key.text, parsed, bind, Except.bind]
      rfl

/-- One entry of a header is read; a comma or the brace follows. -/
theorem parseEntries_succ
    {key : Key} {front rest : List Char} (spelled : SpellsEntry header key front)
    (stops : StopsWord rest) (budget : Nat) (entries : Entries) (position : Nat) :
    ∃ behind,
      parseEntries (budget + 1) entries ⟨front ++ rest, position⟩ =
        match (Cursor.mk rest behind).eat ',' with
        | (true, next) => parseEntries budget (entries.note header key) next
        | (false, last) => do
            let next ← last.expect '\x7d'
            return (entries.note header key, next) := by
  cases spelled with
  | @intro name colon value named separator spelled =>
      cases named with
      | @intro blanks mark blank quote =>
          have other : mark ≠ '\x7d' := by
            rcases quote with rfl | rfl
            · decide
            · decide
          obtain ⟨start, notClosed⟩ :
              ∃ start,
                (Cursor.mk
                  (blanks ++ mark :: (key.text.toList ++ mark :: (colon ++ (value ++ rest))))
                  position).eat '\x7d' =
                (false,
                  ⟨mark :: (key.text.toList ++ mark :: (colon ++ (value ++ rest))), start⟩) :=
            eat_other position blank (isBlank_of_quote quote) other
          obtain ⟨behindKey, text⟩ :
              ∃ behind,
                (Cursor.mk (mark :: (key.text.toList ++ mark :: (colon ++ (value ++ rest))))
                  start).text =
                .ok (String.ofList key.text.toList, ⟨colon ++ (value ++ rest), behind⟩) :=
            text_quoted start blank_nil quote (not_mem_of_quote quote (unquoted_key key))
          rw [String.ofList_toList] at text
          obtain ⟨behindColon, colonRead⟩ :
              ∃ behind, (Cursor.mk (colon ++ (value ++ rest)) behindKey).expect ':' =
                .ok ⟨value ++ rest, behind⟩ :=
            expect_of_spells behindKey separator (by decide)
          obtain ⟨behind, parsed⟩ :=
            parseEntry_of_spells small spelled stops entries behindColon
          refine ⟨behind, ?_⟩
          simp only [List.append_assoc, List.cons_append, List.nil_append, parseEntries, notClosed]
          refine (Except.bind_of_eq_ok text).trans ?_
          refine (Except.bind_of_eq_ok colonRead).trans ?_
          exact Except.bind_of_eq_ok parsed

/-- The entries of a header are read up to the brace. -/
theorem parseEntries_of_spells
    {keys : List Key} {chars : List Char}
    (spelled : SpellsItems (SpellsEntry header) '\x7d' keys chars) {budget : Nat}
    (enough : keys.length < budget) (entries : Entries) (rest : List Char) (position : Nat) :
    ∃ behind,
      parseEntries budget entries ⟨chars ++ rest, position⟩ =
        .ok (keys.foldl (Entries.note header) entries, ⟨rest, behind⟩) := by
  induction spelled generalizing budget entries position with
  | closed bracket =>
      obtain ⟨less, rfl⟩ := Nat.exists_eq_succ_of_ne_zero (Nat.ne_zero_of_lt enough)
      obtain ⟨behind, closed⟩ :
          ∃ behind, (Cursor.mk (_ ++ rest) position).eat '\x7d' = (true, ⟨rest, behind⟩) :=
        eat_of_spells position bracket (by decide)
      refine ⟨behind, ?_⟩
      rw [parseEntries, closed]
      rfl
  | last only bracket =>
      obtain ⟨less, rfl⟩ := Nat.exists_eq_succ_of_ne_zero (Nat.ne_zero_of_lt enough)
      have stops := stopsWord_of_spells bracket (by decide) rest
      obtain ⟨start, step⟩ := parseEntries_succ small only stops less entries position
      obtain ⟨last, behind, noComma, closed⟩ :
          ∃ last behind, (Cursor.mk (_ ++ rest) start).eat ',' = (false, last) ∧
            last.expect '\x7d' = .ok ⟨rest, behind⟩ :=
        closed_of_spells start bracket (by decide) (by decide)
      refine ⟨behind, ?_⟩
      rw [List.append_assoc, step, noComma]
      simp only [closed]
      rfl
  | @comma first others _ _ behindComma only separator _ inductionHypothesis =>
      obtain ⟨less, rfl⟩ := Nat.exists_eq_succ_of_ne_zero (Nat.ne_zero_of_lt enough)
      have stops := stopsWord_of_spells separator (by decide) (behindComma ++ rest)
      obtain ⟨start, step⟩ := parseEntries_succ small only stops less entries position
      obtain ⟨afterComma, comma⟩ :
          ∃ behind, (Cursor.mk (_ ++ (behindComma ++ rest)) start).eat ',' =
            (true, ⟨behindComma ++ rest, behind⟩) :=
        eat_of_spells start separator (by decide)
      obtain ⟨behind, parsed⟩ :=
        inductionHypothesis (Nat.lt_of_succ_lt_succ enough) (entries.note header first) afterComma
      refine ⟨behind, ?_⟩
      rw [List.append_assoc, List.append_assoc, step, comma]
      exact parsed

end Headers

/-! ## Whole headers -/

/-- The header with the order of single bytes left out of account. -/
def canonical (header : ArrayHeader) : ArrayHeader :=
  { header with type := header.type.canonical }

/-- A header is read from every spelling of it, up to the order of single bytes. -/
theorem parse_of_spells
    {header : ArrayHeader}
    (small : ∀ dimension ∈ header.shape, ∀ length ∈ dimension, length < wordLimit)
    {text : String} (spelled : Spells header text) :
    parse text = .ok header.canonical := by
  cases spelled with
  | @intro keys _ entries behind complete opening spelled split =>
      obtain ⟨start, opened⟩ :
          ∃ start, (Cursor.mk (_ ++ (entries ++ behind)) 0).expect '\x7b' =
            .ok ⟨entries ++ behind, start⟩ :=
        expect_of_spells 0 opening (by decide)
      have enough : keys.length < (entries ++ behind).length + 1 := by
        have := spelled.length_lt
        rw [List.length_append]
        omega
      obtain ⟨final, parsed⟩ := parseEntries_of_spells small spelled enough {} behind start
      have noted (entries : Entries) :
          keys.foldl (Entries.note header) entries =
            [Key.type, .order, .shape].foldl (Entries.note header) entries :=
        complete.foldl_eq' (fun first _ second _ entries =>
          Entries.note_note_comm header entries first second) entries
      rw [noted] at parsed
      unfold parse parseChars
      rw [split]
      simp only [opened, bind, Except.bind, parsed]
      rfl

/-! ## The spelling that is written -/

theorem spellsItems_intercalate
    {item : Type} {spells : item → List Char → Prop} (write : item → List Char)
    (each : ∀ entry blanks, Blank blanks → spells entry (blanks ++ write entry)) (closing : Char)
    (items : List item) {blanks : List Char} (blank : Blank blanks) :
    SpellsItems spells closing items
      (blanks ++ (", ".toList.intercalate (items.map write) ++ [closing])) := by
  induction items generalizing blanks with
  | nil => exact .closed (.intro blank)
  | cons first others inductionHypothesis =>
      cases others with
      | nil =>
          rw [List.map_singleton, List.intercalate_singleton, ← List.append_assoc]
          exact .last (each first blanks blank) (.intro blank_nil)
      | cons second rest =>
          have others := inductionHypothesis blank_space
          rw [List.map_cons, List.map_cons, List.intercalate_cons_cons, ← List.map_cons]
          have regroup :
              blanks ++ (write first ++ ", ".toList ++
                  ", ".toList.intercalate ((second :: rest).map write) ++ [closing]) =
                (blanks ++ write first) ++ ([','] ++ ([' '] ++
                  (", ".toList.intercalate ((second :: rest).map write) ++ [closing]))) := by
            simp
          rw [regroup]
          exact .comma (each first blanks blank) (.intro blank_nil) others

theorem spellsDimension_render (dimension : Dimension) {blanks : List Char} (blank : Blank blanks) :
    SpellsDimension dimension (blanks ++ (renderDimension dimension).toList) := by
  cases dimension with
  | none => exact .negative (.intro blank)
  | some length =>
      simp only [renderDimension, Nat.toString_eq_ofList_toDigits, String.toList_ofList]
      have unmarked :
          SpellsToken (Nat.toDigits 10 length ++ List.replicate 0 'L')
            (blanks ++ (Nat.toDigits 10 length ++ List.replicate 0 'L')) :=
        .intro blank
      rw [List.replicate_zero, List.append_nil] at unmarked
      exact .fixed 0 (by rwa [List.replicate_zero, List.append_nil])

theorem spellsShape_render (shape : List Dimension) {blanks : List Char} (blank : Blank blanks) :
    SpellsShape shape (blanks ++ (renderShape shape).toList) := by
  have opening : SpellsToken ['('] (blanks ++ ['(']) := .intro blank
  have plain :=
    spellsItems_intercalate (fun dimension => (renderDimension dimension).toList)
      (fun dimension _ => spellsDimension_render dimension) ')' shape blank_nil
  match shape with
  | [single] =>
      have dimension := spellsDimension_render single blank_nil
      have separator : SpellsToken [','] ([] ++ [',']) := .intro blank_nil
      have bracket : SpellsToken [')'] ([] ++ [')']) := .intro blank_nil
      have spelled := SpellsShape.intro opening (.comma dimension separator (.closed bracket))
      simpa [renderShape] using spelled
  | [] => simpa [renderShape] using SpellsShape.intro opening plain
  | first :: second :: others =>
      have spelled := SpellsShape.intro opening plain
      simpa [renderShape, String.toList_intercalate, Function.comp_def] using spelled

def valueChars (header : ArrayHeader) : Key → List Char
  | .type => '\'' :: (header.type.text.toList ++ ['\''])
  | .order => (orderWord header.order).toList
  | .shape => (renderShape header.shape).toList

def entryChars (header : ArrayHeader) (key : Key) : List Char :=
  '\'' :: (key.text.toList ++ ['\'', ':', ' ']) ++ header.valueChars key

theorem spellsEntry_render
    (header : ArrayHeader) (key : Key) {blanks : List Char} (blank : Blank blanks) :
    SpellsEntry header key (blanks ++ header.entryChars key) := by
  have named : SpellsText key.text.toList (blanks ++ '\'' :: (key.text.toList ++ ['\''])) :=
    .intro blank (Or.inl rfl)
  have separator : SpellsToken [':'] ([] ++ [':']) := .intro blank_nil
  have spelled : SpellsValue header key ([' '] ++ header.valueChars key) := by
    cases key with
    | type => exact .type (.intro blank_space (Or.inl rfl))
    | order => exact .order (.intro blank_space)
    | shape => exact .shape (spellsShape_render header.shape blank_space)
  simpa [entryChars] using SpellsEntry.intro named separator spelled

theorem toList_render (header : ArrayHeader) :
    header.render.toList =
      ['\x7b'] ++
        (", ".toList.intercalate ([.type, .order, .shape].map header.entryChars) ++ ['\x7d']) := by
  rcases header with ⟨type, order, shape⟩
  -- An equation for `render` takes seconds to derive.
  delta render
  cases order with
  | rowMajor => simp [orderWord, entryChars, valueChars, Key.text]
  | columnMajor => simp [orderWord, entryChars, valueChars, Key.text]

/-- What is rendered spells the header. -/
theorem spells_render (header : ArrayHeader) : Spells header header.render := by
  have opening : SpellsToken ['\x7b'] ([] ++ ['\x7b']) := .intro blank_nil
  have entries :=
    spellsItems_intercalate header.entryChars (fun key _ => spellsEntry_render header key) '\x7d'
      [.type, .order, .shape] blank_nil
  have split : header.render.toList =
      ([] ++ ['\x7b']) ++ (([] ++
        (", ".toList.intercalate ([.type, .order, .shape].map header.entryChars) ++
          ['\x7d'])) ++ []) := by
    rw [toList_render, List.nil_append, List.nil_append, List.append_nil]
  exact .intro (.refl _) opening entries split

/-- A header is read back as it was rendered, up to the order of single bytes. -/
theorem parse_render
    {header : ArrayHeader}
    (small : ∀ dimension ∈ header.shape, ∀ length ∈ dimension, length < wordLimit) :
    parse header.render = .ok header.canonical :=
  parse_of_spells small (spells_render header)

end ArrayHeader
end Spead
