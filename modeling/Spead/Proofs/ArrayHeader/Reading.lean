import Mathlib.Data.List.TakeWhile
import Spead.Proofs.ArrayHeader

/-!
Array headers read from any text.

The loops over dimensions and over entries read on behind every comma, so they come to an end
before their budgets do. No header is read from a text that leaves out one of the three keys.
-/

namespace Spead

open Text

namespace ArrayHeader

/-! ## Loops -/

section Loops

variable {state result : Type}

/-- What one round of a loop comes to. -/
inductive Round (state result : Type) where
  | again (next : state)
  | done (outcome : Except Fault result)

/-- What a loop comes to after a round, if `run` goes on with it. -/
def Round.follow (run : state → Except Fault result) : Round state result → Except Fault result
  | .again next => run next
  | .done outcome => outcome

/-- A loop ends after some rounds. -/
inductive EndsWith (round : state → Round state result) : state → Except Fault result → Prop where
  | done {start : state} {outcome : Except Fault result} (final : round start = .done outcome) :
      EndsWith round start outcome
  | again {start next : state} {outcome : Except Fault result} (goesOn : round start = .again next)
      (rest : EndsWith round next outcome) : EndsWith round start outcome

/-- A loop ends in one way. -/
theorem EndsWith.unique
    {round : state → Round state result} {start : state} {first second : Except Fault result}
    (firstEnds : EndsWith round start first) (secondEnds : EndsWith round start second) :
    first = second := by
  induction firstEnds with
  | done final =>
      cases secondEnds with
      | done same => exact Round.done.inj (final.symm.trans same)
      | again goesOn _ =>
          rw [final] at goesOn
          cases goesOn
  | again goesOn _ inductionHypothesis =>
      cases secondEnds with
      | done final =>
          rw [final] at goesOn
          cases goesOn
      | again same rest =>
          cases Round.again.inj (goesOn.symm.trans same)
          exact inductionHypothesis rest

/-- A budget of rounds is enough if every round leaves less to do. -/
theorem endsWith_iff_of_budget
    {round : state → Round state result} (run : Nat → state → Except Fault result)
    (size : state → Nat)
    (unfolds : ∀ budget start, run (budget + 1) start = (round start).follow (run budget))
    (shrinks : ∀ start next, round start = .again next → size next < size start)
    {budget : Nat} {start : state} (enough : size start < budget)
    (outcome : Except Fault result) :
    EndsWith round start outcome ↔ outcome = run budget start := by
  have ends : EndsWith round start (run budget start) := by
    induction budget generalizing start with
    | zero => exact absurd enough (Nat.not_lt_zero _)
    | succ less inductionHypothesis =>
        rw [unfolds]
        cases found : round start with
        | done outcome => exact .done found
        | again next =>
            have smaller := shrinks start next found
            exact .again found (inductionHypothesis (by omega))
  constructor
  · exact fun other => other.unique ends
  · rintro rfl
    exact ends

end Loops

def dimensionRound (state : List Dimension × Cursor) :
    Round (List Dimension × Cursor) (List Dimension × Cursor) :=
  let (read, cursor) := state
  match cursor.eat ')' with
  | (true, next) => .done (.ok (read.reverse, next))
  | (false, start) =>
      let (word, behind) := start.word
      match readDimension? word with
      | none => .done (behind.fault (.badDimension (String.ofList word)))
      | some dimension =>
          match behind.eat ',' with
          | (true, next) => .again (dimension :: read, next)
          | (false, last) => .done do
              let next ← last.expect ')'
              return ((dimension :: read).reverse, next)

def nextEntry (entries : Entries) (cursor : Cursor) : Except Fault (Entries × Cursor) := do
  let (key, behindKey) ← cursor.text
  let behindColon ← behindKey.expect ':'
  parseEntry key entries behindColon

def entryRound (state : Entries × Cursor) : Round (Entries × Cursor) (Entries × Cursor) :=
  let (entries, cursor) := state
  match cursor.eat '\x7d' with
  | (true, next) => .done (.ok (entries, next))
  | (false, start) =>
      match nextEntry entries start with
      | .error cause => .done (.error cause)
      | .ok (updated, behind) =>
          match behind.eat ',' with
          | (true, next) => .again (updated, next)
          | (false, last) => .done do
              let next ← last.expect '\x7d'
              return (updated, next)

theorem parseDimensions_eq_round (budget : Nat) (start : List Dimension × Cursor) :
    parseDimensions (budget + 1) start.1 start.2 =
      (dimensionRound start).follow fun next => parseDimensions budget next.1 next.2 := by
  rcases start with ⟨read, cursor⟩
  unfold dimensionRound
  dsimp only
  rw [parseDimensions]
  rcases cursor.eat ')' with ⟨_ | _, start⟩
  · dsimp only
    cases readDimension? start.word.1 with
    | none => rfl
    | some dimension =>
        dsimp only
        rcases start.word.2.eat ',' with ⟨_ | _, next⟩
        · rfl
        · rfl
  · rfl

theorem parseEntries_eq_round (budget : Nat) (start : Entries × Cursor) :
    parseEntries (budget + 1) start.1 start.2 =
      (entryRound start).follow fun next => parseEntries budget next.1 next.2 := by
  rcases start with ⟨entries, cursor⟩
  unfold entryRound nextEntry
  dsimp only
  rw [parseEntries]
  rcases cursor.eat '\x7d' with ⟨_ | _, start⟩
  · dsimp only
    cases start.text with
    | error cause => rfl
    | ok found =>
        dsimp only [bind, Except.bind]
        cases found.2.expect ':' with
        | error cause => rfl
        | ok behindColon =>
            dsimp only
            cases parseEntry found.1 entries behindColon with
            | error cause => rfl
            | ok parsed =>
                dsimp only
                rcases parsed.2.eat ',' with ⟨_ | _, next⟩
                · rfl
                · rfl
  · rfl

/-! ## What has been read -/

section Tokens

variable {cursor next : Cursor}

theorem skipBlanks_suffix (cursor : Cursor) : cursor.skipBlanks.rest <:+ cursor.rest :=
  List.dropWhile_suffix _

theorem exists_blanks (cursor : Cursor) :
    ∃ blanks, Blank blanks ∧ cursor.rest = blanks ++ cursor.skipBlanks.rest :=
  ⟨cursor.rest.takeWhile isBlank, fun _ => List.mem_takeWhile_imp,
    List.takeWhile_append_dropWhile.symm⟩

/-- A character that is eaten has been spelled. -/
theorem spells_of_eat {char : Char} (eaten : cursor.eat char = (true, next)) :
    ∃ chars, SpellsToken [char] chars ∧ cursor.rest = chars ++ next.rest := by
  obtain ⟨blanks, blank, split⟩ := exists_blanks cursor
  unfold Cursor.eat at eaten
  dsimp only at eaten
  cases rest : cursor.skipBlanks.rest with
  | nil =>
      rw [rest] at eaten
      cases eaten
  | cons head tail =>
      rw [rest] at eaten split
      dsimp only at eaten
      split at eaten
      · next same =>
          cases eaten
          refine ⟨blanks ++ [char], .intro blank, ?_⟩
          rw [split, same, List.append_assoc]
          rfl
      · cases eaten

theorem eq_skipBlanks_of_not_eat {char : Char} (left : cursor.eat char = (false, next)) :
    next = cursor.skipBlanks := by
  unfold Cursor.eat at left
  dsimp only at left
  split at left
  · split at left
    · cases left
    · cases left
      rfl
  · cases left
    rfl

theorem spells_of_expect {char : Char} (expected : cursor.expect char = .ok next) :
    ∃ chars, SpellsToken [char] chars ∧ cursor.rest = chars ++ next.rest := by
  unfold Cursor.expect at expected
  split at expected
  · next eaten =>
      cases expected
      exact spells_of_eat eaten
  · cases expected

/-- A text that is read has been spelled. -/
theorem spells_of_text {content : String} (read : cursor.text = .ok (content, next)) :
    ∃ chars, SpellsText content.toList chars ∧ cursor.rest = chars ++ next.rest := by
  obtain ⟨blanks, blank, split⟩ := exists_blanks cursor
  unfold Cursor.text at read
  dsimp only at read
  cases rest : cursor.skipBlanks.rest with
  | nil =>
      rw [rest] at read
      cases read
  | cons mark tail =>
      rw [rest] at read split
      dsimp only at read
      split at read
      · next quote =>
          cases closing : tail.dropWhile (· ≠ mark) with
          | nil =>
              rw [closing] at read
              cases read
          | cons last behind =>
              rw [closing] at read
              cases read
              have same : last = mark := by
                have stops : ¬ last ≠ mark := by
                  have first := List.head?_dropWhile_not (· ≠ mark) tail
                  rw [closing] at first
                  simpa using first
                exact not_not.1 stops
              have content : tail.takeWhile (· ≠ mark) ++ last :: behind = tail := by
                rw [← closing]
                exact List.takeWhile_append_dropWhile
              rw [same] at content
              refine ⟨blanks ++ mark :: (tail.takeWhile (· ≠ mark) ++ [mark]), ?_, ?_⟩
              · rw [String.toList_ofList]
                exact .intro blank (by simpa using quote)
              · change cursor.rest =
                  blanks ++ mark :: (tail.takeWhile (· ≠ mark) ++ [mark]) ++ behind
                rw [split, List.append_assoc, List.cons_append, List.append_assoc,
                  List.singleton_append, content]
      · cases read

theorem word_suffix (cursor : Cursor) : cursor.word.2.rest <:+ cursor.rest :=
  (List.dropWhile_suffix _).trans (skipBlanks_suffix cursor)

theorem eat_suffix {char : Char} {eaten : Bool} (found : cursor.eat char = (eaten, next)) :
    next.rest <:+ cursor.rest := by
  cases eaten with
  | true =>
      obtain ⟨chars, _, split⟩ := spells_of_eat found
      exact ⟨chars, split.symm⟩
  | false =>
      rw [eq_skipBlanks_of_not_eat found]
      exact skipBlanks_suffix cursor

theorem expect_suffix {char : Char} (expected : cursor.expect char = .ok next) :
    next.rest <:+ cursor.rest := by
  obtain ⟨chars, _, split⟩ := spells_of_expect expected
  exact ⟨chars, split.symm⟩

theorem text_suffix {content : String} (read : cursor.text = .ok (content, next)) :
    next.rest <:+ cursor.rest := by
  obtain ⟨chars, _, split⟩ := spells_of_text read
  exact ⟨chars, split.symm⟩

theorem length_lt_of_eat {char : Char} (eaten : cursor.eat char = (true, next)) :
    next.rest.length < cursor.rest.length := by
  obtain ⟨chars, spelled, split⟩ := spells_of_eat eaten
  cases spelled with
  | intro blank =>
      rw [split]
      simp only [List.length_append, List.length_singleton]
      omega

end Tokens

/-! ## Shapes and entries -/

section Entries

variable {cursor next : Cursor}

theorem dimensionRound_again
    {start following : List Dimension × Cursor} (goesOn : dimensionRound start = .again following) :
    following.2.rest.length < start.2.rest.length ∧ following.2.rest <:+ start.2.rest := by
  rcases start with ⟨read, cursor⟩
  unfold dimensionRound at goesOn
  dsimp only at goesOn
  split at goesOn
  · cases goesOn
  · next begin notClosed =>
      split at goesOn
      · cases goesOn
      · split at goesOn
        · next behind eaten =>
            cases goesOn
            have front := (word_suffix begin).trans (eat_suffix notClosed)
            exact ⟨Nat.lt_of_lt_of_le (length_lt_of_eat eaten) front.length_le,
              (eat_suffix eaten).trans front⟩
        · cases goesOn

theorem dimensionRound_done
    {start outcome : List Dimension × Cursor} (final : dimensionRound start = .done (.ok outcome)) :
    outcome.2.rest <:+ start.2.rest := by
  rcases start with ⟨read, cursor⟩
  unfold dimensionRound at final
  dsimp only at final
  split at final
  · next closed =>
      cases final
      exact eat_suffix closed
  · next begin notClosed =>
      split at final
      · cases final
      · split at final
        · cases final
        · next last notComma =>
            obtain ⟨behind, bracket, done⟩ := Except.bind_eq_ok_iff.1 (Round.done.inj final)
            cases done
            exact (expect_suffix bracket).trans ((eat_suffix notComma).trans
              ((word_suffix begin).trans (eat_suffix notClosed)))

theorem parseDimensions_suffix
    {budget : Nat} {read shape : List Dimension}
    (parsed : parseDimensions budget read cursor = .ok (shape, next)) :
    next.rest <:+ cursor.rest := by
  induction budget generalizing read cursor with
  | zero => cases parsed
  | succ less inductionHypothesis =>
      rw [parseDimensions_eq_round less (read, cursor)] at parsed
      cases round : dimensionRound (read, cursor) with
      | done outcome =>
          rw [round, Round.follow] at parsed
          rw [parsed] at round
          exact dimensionRound_done round
      | again following =>
          rw [round] at parsed
          exact (inductionHypothesis parsed).trans (dimensionRound_again round).2

theorem parseShape_suffix
    {shape : List Dimension} (parsed : parseShape cursor = .ok (shape, next)) :
    next.rest <:+ cursor.rest := by
  obtain ⟨inside, opened, dimensions⟩ := Except.bind_eq_ok_iff.1 parsed
  exact (parseDimensions_suffix dimensions).trans (expect_suffix opened)

def Entries.has (entries : Entries) : Key → Bool
  | .type => entries.type.isSome
  | .order => entries.order.isSome
  | .shape => entries.shape.isSome

/-- An entry that is read moves on and adds nothing but what its key stands for. -/
theorem parseEntry_eq_ok
    {name : String} {entries updated : Entries}
    (parsed : parseEntry name entries cursor = .ok (updated, next)) :
    next.rest <:+ cursor.rest ∧
      ∀ key, updated.has key = true → entries.has key = true ∨ name = key.text := by
  unfold parseEntry at parsed
  split at parsed
  · obtain ⟨⟨content, behind⟩, text, parsed⟩ := Except.bind_eq_ok_iff.1 parsed
    dsimp only at parsed
    split at parsed
    · cases parsed
      refine ⟨text_suffix text, ?_⟩
      intro key has
      cases key with
      | type => exact Or.inr rfl
      | order => exact Or.inl has
      | shape => exact Or.inl has
    · cases parsed
  · obtain ⟨⟨columnMajor, behind⟩, truth, parsed⟩ := Except.bind_eq_ok_iff.1 parsed
    cases parsed
    constructor
    · unfold Cursor.truth at truth
      dsimp only at truth
      split at truth
      · cases truth
        exact word_suffix cursor
      · cases truth
        exact word_suffix cursor
      · cases truth
    · intro key has
      cases key with
      | type => exact Or.inl has
      | order => exact Or.inr rfl
      | shape => exact Or.inl has
  · obtain ⟨⟨shape, behind⟩, dimensions, parsed⟩ := Except.bind_eq_ok_iff.1 parsed
    cases parsed
    refine ⟨parseShape_suffix dimensions, ?_⟩
    intro key has
    cases key with
    | type => exact Or.inl has
    | order => exact Or.inl has
    | shape => exact Or.inr rfl
  · cases parsed

/-- The key stands somewhere in quotes, with a colon behind it. -/
def Key.OccursIn (key : Key) (chars : List Char) : Prop :=
  ∃ before name colon after, chars = before ++ (name ++ (colon ++ after)) ∧
    SpellsText key.text.toList name ∧ SpellsToken [':'] colon

theorem Key.OccursIn.of_suffix
    {key : Key} {chars whole : List Char} (occurs : key.OccursIn chars)
    (suffix : chars <:+ whole) : key.OccursIn whole := by
  obtain ⟨before, name, colon, after, rfl, named, separator⟩ := occurs
  obtain ⟨front, rfl⟩ := suffix
  exact ⟨front ++ before, name, colon, after, by simp, named, separator⟩

theorem nextEntry_eq_ok
    {entries updated : Entries} (read : nextEntry entries cursor = .ok (updated, next)) :
    next.rest <:+ cursor.rest ∧
      ∀ key, updated.has key = true → entries.has key = true ∨ key.OccursIn cursor.rest := by
  obtain ⟨⟨name, behindKey⟩, text, read⟩ := Except.bind_eq_ok_iff.1 read
  obtain ⟨behindColon, colonRead, parsed⟩ := Except.bind_eq_ok_iff.1 read
  obtain ⟨moved, added⟩ := parseEntry_eq_ok parsed
  refine ⟨moved.trans ((expect_suffix colonRead).trans (text_suffix text)), ?_⟩
  intro key has
  apply (added key has).imp_right
  rintro rfl
  obtain ⟨quoted, named, front⟩ := spells_of_text text
  obtain ⟨colon, separator, behind⟩ := spells_of_expect colonRead
  exact ⟨[], quoted, colon, behindColon.rest, by rw [front, behind, List.nil_append], named,
    separator⟩

theorem entryRound_again
    {start following : Entries × Cursor} (goesOn : entryRound start = .again following) :
    following.2.rest.length < start.2.rest.length ∧ following.2.rest <:+ start.2.rest ∧
      ∀ key, following.1.has key = true →
        start.1.has key = true ∨ key.OccursIn start.2.rest := by
  rcases start with ⟨entries, cursor⟩
  unfold entryRound at goesOn
  dsimp only at goesOn
  split at goesOn
  · cases goesOn
  · next begin notClosed =>
      split at goesOn
      · cases goesOn
      · next updated behind read =>
          split at goesOn
          · next last eaten =>
              cases goesOn
              obtain ⟨moved, added⟩ := nextEntry_eq_ok read
              have front := eat_suffix notClosed
              have whole := moved.trans front
              refine ⟨Nat.lt_of_lt_of_le (length_lt_of_eat eaten) whole.length_le,
                (eat_suffix eaten).trans whole, ?_⟩
              exact fun key has => (added key has).imp_right fun occurs => occurs.of_suffix front
          · cases goesOn

theorem entryRound_done
    {start outcome : Entries × Cursor} (final : entryRound start = .done (.ok outcome)) :
    ∀ key, outcome.1.has key = true → start.1.has key = true ∨ key.OccursIn start.2.rest := by
  rcases start with ⟨entries, cursor⟩
  unfold entryRound at final
  dsimp only at final
  split at final
  · cases final
    exact fun key has => Or.inl has
  · next begin notClosed =>
      split at final
      · cases final
      · next updated behind read =>
          split at final
          · cases final
          · obtain ⟨_, _, done⟩ := Except.bind_eq_ok_iff.1 (Round.done.inj final)
            cases done
            obtain ⟨_, added⟩ := nextEntry_eq_ok read
            exact fun key has =>
              (added key has).imp_right fun occurs => occurs.of_suffix (eat_suffix notClosed)

/-- Every entry has been read from the text or was there before. -/
theorem occursIn_of_parseEntries
    {budget : Nat} {entries read : Entries}
    (parsed : parseEntries budget entries cursor = .ok (read, next)) {key : Key}
    (has : read.has key = true) : entries.has key = true ∨ key.OccursIn cursor.rest := by
  induction budget generalizing entries cursor with
  | zero => cases parsed
  | succ less inductionHypothesis =>
      rw [parseEntries_eq_round less (entries, cursor)] at parsed
      cases round : entryRound (entries, cursor) with
      | done outcome =>
          rw [round, Round.follow] at parsed
          rw [parsed] at round
          exact entryRound_done round key has
      | again following =>
          rw [round] at parsed
          obtain ⟨_, moved, added⟩ := entryRound_again round
          rcases inductionHypothesis parsed with before | occurs
          · exact added key before
          · exact Or.inr (occurs.of_suffix moved)

end Entries

/-! ## Whole headers -/

/-- The loop over dimensions ends, with what is read within the budget. -/
theorem endsWith_iff_parseDimensions
    (read : List Dimension) (cursor : Cursor)
    (outcome : Except Fault (List Dimension × Cursor)) :
    EndsWith dimensionRound (read, cursor) outcome ↔
      outcome = parseDimensions (cursor.rest.length + 1) read cursor :=
  endsWith_iff_of_budget (fun budget start => parseDimensions budget start.1 start.2)
    (fun start => start.2.rest.length) parseDimensions_eq_round
    (fun _ _ goesOn => (dimensionRound_again goesOn).1) (Nat.lt_succ_self _) outcome

/-- The loop over entries ends, with what is read within the budget. -/
theorem endsWith_iff_parseEntries
    (entries : Entries) (cursor : Cursor) (outcome : Except Fault (Entries × Cursor)) :
    EndsWith entryRound (entries, cursor) outcome ↔
      outcome = parseEntries (cursor.rest.length + 1) entries cursor :=
  endsWith_iff_of_budget (fun budget start => parseEntries budget start.1 start.2)
    (fun start => start.2.rest.length) parseEntries_eq_round
    (fun _ _ goesOn => (entryRound_again goesOn).1) (Nat.lt_succ_self _) outcome

/-- A header is read only from a text with all three keys. -/
theorem occursIn_of_parse
    {text : String} {header : ArrayHeader} (parsed : parse text = .ok header) (key : Key) :
    key.OccursIn text.toList := by
  have read : parseChars text.toList = .ok header := by
    unfold parse at parsed
    split at parsed
    · next found =>
        cases parsed
        exact found
    · cases parsed
    · cases parsed
  obtain ⟨inside, opened, read⟩ := Except.bind_eq_ok_iff.1 read
  obtain ⟨⟨entries, behind⟩, parsedEntries, read⟩ := Except.bind_eq_ok_iff.1 read
  have all : entries.has key = true := by
    dsimp only at read
    split at read
    · cases key <;> rfl
    · cases read
  rcases occursIn_of_parseEntries parsedEntries all with before | occurs
  · cases key <;> cases before
  · exact occurs.of_suffix (expect_suffix opened)

/-- A header is read from all its spellings, of which the rendered one is one. The loops of the
reader end on every text, and give a header only if all three keys are there. -/
theorem reads_every_spelling
    {header : ArrayHeader}
    (small : ∀ dimension ∈ header.shape, ∀ length ∈ dimension, length < wordLimit) :
    (Spells header header.render ∧ parse header.render = .ok header.canonical) ∧
      (∀ text, Spells header text → parse text = .ok header.canonical) ∧
      (∀ read cursor outcome, EndsWith dimensionRound (read, cursor) outcome ↔
        outcome = parseDimensions (cursor.rest.length + 1) read cursor) ∧
      (∀ entries cursor outcome, EndsWith entryRound (entries, cursor) outcome ↔
        outcome = parseEntries (cursor.rest.length + 1) entries cursor) ∧
      ∀ text read, parse text = .ok read → ∀ key : Key, key.OccursIn text.toList :=
  ⟨⟨spells_render header, parse_render small⟩, fun _ => parse_of_spells small,
    endsWith_iff_parseDimensions, endsWith_iff_parseEntries, fun _ _ => occursIn_of_parse⟩

/-- The keys in another order, with other quotes and with commas and blanks to spare. -/
theorem reads_every_spelling_of_bytes :
    let header : ArrayHeader :=
      ⟨{ kind := .uint, size := 1, order := .big }, .columnMajor, [some 300, none]⟩
    let text := " \x7b'shape':(300LL, None,) ,\"fortran_order\": True,'descr':\"|u1\",\x7d x"
    (∀ dimension ∈ header.shape, ∀ length ∈ dimension, length < wordLimit) ∧
      Spells header text ∧
      parse text = .ok ⟨{ kind := .uint, size := 1, order := .little }, .columnMajor,
        [some 300, none]⟩ := by
  intro header text
  have small : ∀ dimension ∈ header.shape, ∀ length ∈ dimension, length < wordLimit := by
    simp [header, wordLimit]
  have shape : SpellsEntry header .shape _ :=
    .intro (.intro blank_nil (Or.inl rfl)) (.intro blank_nil)
      (.shape (.intro (.intro blank_nil)
        (.comma (.fixed 2 (.intro blank_nil)) (.intro blank_nil)
          (.comma (.named (.intro blank_space)) (.intro blank_nil)
            (.closed (.intro blank_nil))))))
  have order : SpellsEntry header .order _ :=
    .intro (.intro blank_nil (Or.inr rfl)) (.intro blank_nil) (.order (.intro blank_space))
  have type : SpellsEntry header .type _ :=
    .intro (.intro blank_nil (Or.inl rfl)) (.intro blank_nil)
      (.type (.intro blank_nil (Or.inr rfl)))
  have spelled : Spells header text :=
    @Spells.intro header text [.shape, .order, .type] _ _ [' ', 'x'] (by decide)
      (.intro blank_space)
      (.comma shape (.intro blank_space) (.comma order (.intro blank_nil)
        (.comma type (.intro blank_nil) (.closed (.intro blank_nil)))))
      (by decide)
  exact ⟨small, spelled, (reads_every_spelling small).2.1 text spelled⟩

end ArrayHeader
end Spead
