import Spead.Proofs.Coverage.Splicing

/-!
Coverages as the canonical form of a set of positions.

Two canonical lists of spans with the same positions are the same list. So whatever spans are
inserted, and however often and in which order, the coverage is that of their union; and what the
insertions say they add is what the coverage holds.
-/

namespace Spead
namespace Coverage

/-! ## Uniqueness -/

/-- A position before the second span of a canonical list is in the first span or uncovered. -/
theorem Canonical.mem_head_of_lt
    {head : Span} {tail : List Span} (canonical : Canonical (head :: tail)) {position : Nat}
    (early : position ≤ head.stop) (covered : ∃ held ∈ head :: tail, position ∈ held) :
    position ∈ head := by
  obtain ⟨held, member, inside⟩ := covered
  rcases List.mem_cons.1 member with rfl | later
  · exact inside
  · have apart := (List.pairwise_cons.1 canonical.separated).1 held later
    rw [Span.mem_iff] at inside
    omega

/-- The first span of a canonical list is determined by the positions of all spans. -/
theorem Canonical.head_eq
    {left right : Span} {lefts rights : List Span}
    (leftCanonical : Canonical (left :: lefts)) (rightCanonical : Canonical (right :: rights))
    (same : ∀ position, (∃ held ∈ left :: lefts, position ∈ held) ↔
      ∃ held ∈ right :: rights, position ∈ held) :
    left.start ≤ right.start ∧ (left.start = right.start → left.stop ≤ right.stop) := by
  have leftOccupied := leftCanonical.occupied left List.mem_cons_self
  have rightOccupied := rightCanonical.occupied right List.mem_cons_self
  have first : ∃ held ∈ right :: rights, right.start ∈ held :=
    ⟨right, List.mem_cons_self, Nat.le_refl _, rightOccupied⟩
  constructor
  · obtain ⟨held, member, inside⟩ := (same right.start).2 first
    rw [Span.mem_iff] at inside
    rcases List.mem_cons.1 member with rfl | later
    · exact inside.1
    · have apart := (List.pairwise_cons.1 leftCanonical.separated).1 held later
      omega
  · intro starts
    by_contra longer
    -- The position at which the right span ends is still in the left one.
    have inLeft : right.stop ∈ left := by
      rw [Span.mem_iff]
      omega
    have covered := (same right.stop).1 ⟨left, List.mem_cons_self, inLeft⟩
    have inRight := rightCanonical.mem_head_of_lt (Nat.le_refl _) covered
    rw [Span.mem_iff] at inRight
    omega

/-- The positions behind the first span are those of the other spans. -/
theorem Canonical.mem_tail_iff
    {head : Span} {tail : List Span} (canonical : Canonical (head :: tail)) (position : Nat) :
    (∃ held ∈ tail, position ∈ held) ↔
      (∃ held ∈ head :: tail, position ∈ held) ∧ head.stop < position := by
  constructor
  · rintro ⟨held, member, inside⟩
    have apart := (List.pairwise_cons.1 canonical.separated).1 held member
    refine ⟨⟨held, List.mem_cons_of_mem head member, inside⟩, ?_⟩
    rw [Span.mem_iff] at inside
    omega
  · rintro ⟨⟨held, member, inside⟩, behind⟩
    rcases List.mem_cons.1 member with rfl | later
    · rw [Span.mem_iff] at inside
      omega
    · exact ⟨held, later, inside⟩

/-- Canonical lists of spans with the same positions are equal. -/
theorem Canonical.eq_of_mem_iff
    {lefts rights : List Span} (leftCanonical : Canonical lefts) (rightCanonical : Canonical rights)
    (same : ∀ position, (∃ held ∈ lefts, position ∈ held) ↔ ∃ held ∈ rights, position ∈ held) :
    lefts = rights := by
  induction lefts generalizing rights with
  | nil =>
      cases rights with
      | nil => rfl
      | cons right rights =>
          have occupied := rightCanonical.occupied right List.mem_cons_self
          have nowhere := (same right.start).2
            ⟨right, List.mem_cons_self, Nat.le_refl _, occupied⟩
          simp at nowhere
  | cons left lefts inductionHypothesis =>
      cases rights with
      | nil =>
          have occupied := leftCanonical.occupied left List.mem_cons_self
          have nowhere := (same left.start).1
            ⟨left, List.mem_cons_self, Nat.le_refl _, occupied⟩
          simp at nowhere
      | cons right rights =>
          have forward := leftCanonical.head_eq rightCanonical same
          have backward := rightCanonical.head_eq leftCanonical fun position =>
            (same position).symm
          have starts : left.start = right.start := Nat.le_antisymm forward.1 backward.1
          have stops : left.stop = right.stop :=
            Nat.le_antisymm (forward.2 starts) (backward.2 starts.symm)
          have heads : left = right := by
            cases left
            cases right
            simp_all
          subst heads
          congr 1
          apply inductionHypothesis leftCanonical.tail rightCanonical.tail
          intro position
          rw [leftCanonical.mem_tail_iff, rightCanonical.mem_tail_iff, same position]

/-! ## Insertions one after the other -/

/-- The coverage has exactly the positions of some spans. -/
structure Unites (spans : List Span) (coverage : Coverage) : Prop where
  canonical : Canonical coverage.spans
  mem_iff : ∀ position, position ∈ coverage ↔ ∃ span ∈ spans, position ∈ span

/-- The coverage after some insertions, with how many positions each of them has added. -/
def insertAll : (coverage : Coverage) → List Span → Coverage × List Nat
  | coverage, [] => (coverage, [])
  | coverage, span :: rest =>
      let (last, added) := insertAll (coverage.insert span) rest
      (last, coverage.missing span :: added)

def insertAll? : (coverage : Coverage) → List Span → Option (Coverage × List Nat)
  | coverage, [] => some (coverage, [])
  | coverage, span :: rest => do
      let (next, brought) ← coverage.splice? span
      let (last, added) ← insertAll? next rest
      return (last, brought :: added)

def ofSpans (spans : List Span) : Coverage :=
  (insertAll {} spans).1

theorem mem_positions_spans {coverage : Coverage} {position : Nat} :
    position ∈ positions coverage.spans ↔ position ∈ coverage :=
  mem_positions

theorem unites_empty : Unites [] {} :=
  ⟨canonical_nil, by simp⟩

namespace Unites

variable {seen : List Span} {coverage : Coverage} (unites : Unites seen coverage)

include unites

theorem insert (span : Span) : Unites (seen ++ [span]) (coverage.insert span) where
  canonical := canonical_insert unites.canonical span
  mem_iff := by
    intro position
    rw [mem_insert unites.canonical, unites.mem_iff, or_comm]
    simp [or_and_right, exists_or]

theorem insertAll (spans : List Span) :
    Unites (seen ++ spans) (coverage.insertAll spans).1 := by
  induction spans generalizing seen coverage with
  | nil => rwa [List.append_nil]
  | cons span rest inductionHypothesis =>
      have next := inductionHypothesis (unites.insert span)
      rwa [List.append_assoc] at next

theorem positions_eq : positions coverage.spans = positions seen := by
  ext position
  rw [mem_positions_spans, mem_positions]
  exact unites.mem_iff position

/-- An insertion adds the positions of its span that no span before it has. -/
theorem missing_eq (span : Span) :
    coverage.missing span = (Finset.Ico span.start span.stop \ positions seen).card := by
  rw [missing_eq_card unites.canonical, unites.positions_eq]

theorem total_insert (span : Span) :
    (coverage.insert span).total = coverage.total + coverage.missing span := by
  have whole : positions (coverage.insert span).spans =
      positions coverage.spans ∪ (Finset.Ico span.start span.stop \ positions coverage.spans) := by
    ext position
    rw [Finset.union_sdiff_self_eq_union, Finset.mem_union, mem_positions_spans,
      mem_positions_spans, mem_insert unites.canonical, Finset.mem_Ico, ← Span.mem_iff, or_comm]
  rw [total, total, ← card_positions (unites.insert span).canonical,
    ← card_positions unites.canonical, whole, missing_eq_card unites.canonical,
    Finset.card_union_of_disjoint Finset.disjoint_sdiff]

/-- What the insertions add is what the coverage holds more than before. -/
theorem total_insertAll (spans : List Span) :
    (coverage.insertAll spans).1.total = coverage.total + (coverage.insertAll spans).2.sum := by
  induction spans generalizing seen coverage with
  | nil => rfl
  | cons span rest inductionHypothesis =>
      change ((coverage.insert span).insertAll rest).1.total = _ + (_ :: _).sum
      rw [inductionHypothesis (unites.insert span), unites.total_insert, List.sum_cons,
        Nat.add_assoc]

/-- What an insertion adds, by the spans before it. -/
theorem getElem?_insertAll (before : List Span) (span : Span) (after : List Span) :
    (coverage.insertAll (before ++ span :: after)).2[before.length]? =
      some (Finset.Ico span.start span.stop \ positions (seen ++ before)).card := by
  induction before generalizing seen coverage with
  | nil =>
      rw [List.append_nil, ← unites.missing_eq]
      rfl
  | cons first others inductionHypothesis =>
      have next := inductionHypothesis (unites.insert first)
      rw [List.append_assoc] at next
      exact next

/-- On machine words no insertion breaks. -/
theorem insertAll?_eq
    {spans : List Span} (small : ∀ span ∈ spans, span.stop < wordLimit) :
    coverage.insertAll? spans = some (coverage.insertAll spans) := by
  induction spans generalizing seen coverage with
  | nil => rfl
  | cons span rest inductionHypothesis =>
      rw [List.forall_mem_cons] at small
      rw [insertAll?, splice?_eq unites.canonical small.1]
      simp only [Option.bind_eq_bind, Option.bind_some]
      rw [inductionHypothesis (unites.insert span) small.2]
      rfl

theorem covers_iff_forall (span : Span) :
    coverage.covers span = true ↔ ∀ position ∈ span, ∃ held ∈ seen, position ∈ held := by
  rw [covers_iff unites.canonical]
  simp only [unites.mem_iff]

theorem isComplete_iff_forall (length : Nat) :
    coverage.isComplete length = true ↔
      ∀ position < length, ∃ held ∈ seen, position ∈ held := by
  rw [isComplete_iff unites.canonical]
  simp only [unites.mem_iff]

/-- Spans with the same union have the same coverage. -/
theorem eq_of_union_eq
    {others : List Span} {coverage' : Coverage} (unites' : Unites others coverage')
    (same : ∀ position, (∃ span ∈ seen, position ∈ span) ↔ ∃ span ∈ others, position ∈ span) :
    coverage = coverage' := by
  have equal : coverage.spans = coverage'.spans := by
    apply unites.canonical.eq_of_mem_iff unites'.canonical
    intro position
    exact (unites.mem_iff position).trans ((same position).trans (unites'.mem_iff position).symm)
  cases coverage
  cases coverage'
  simp_all

end Unites

theorem length_insertAll (coverage : Coverage) (spans : List Span) :
    (coverage.insertAll spans).2.length = spans.length := by
  induction spans generalizing coverage with
  | nil => rfl
  | cons span rest inductionHypothesis =>
      exact congrArg Nat.succ (inductionHypothesis _)

theorem unites_ofSpans (spans : List Span) : Unites spans (ofSpans spans) :=
  unites_empty.insertAll spans

/-- `coverage` is the canonical form of the positions of `spans`, which were inserted one after the
other, and `added` says how many positions each of them has added. -/
structure CanonicalForm (spans : List Span) (coverage : Coverage) (added : List Nat) : Prop where
  occupied : ∀ held ∈ coverage.spans, held.start < held.stop
  separated : coverage.spans.Pairwise fun left right => left.stop < right.start
  mem_iff : ∀ position, position ∈ coverage ↔ ∃ span ∈ spans, position ∈ span
  /-- Neither the order of the spans nor how often one was inserted matters. -/
  eq_of_union_eq : ∀ others : List Span,
    (∀ position, (∃ span ∈ others, position ∈ span) ↔ ∃ span ∈ spans, position ∈ span) →
      ofSpans others = coverage
  length_added : added.length = spans.length
  added_eq : ∀ before span after, spans = before ++ span :: after →
    added[before.length]? =
      some (Finset.Ico span.start span.stop \ positions before).card
  total : coverage.total? = some added.sum
  covers : ∀ span, ∃ answer, coverage.holds? span = some answer ∧ coverage.covers span = answer ∧
    (answer = true ↔ ∀ position ∈ span, ∃ held ∈ spans, position ∈ held)
  isComplete : ∀ length, ∃ answer,
    coverage.isFilled? length = some answer ∧ coverage.isComplete length = answer ∧
      (answer = true ↔ ∀ position < length, ∃ held ∈ spans, position ∈ held)

/-- Whatever spans of machine words are inserted, empty and reversed ones included, the coverage is
the canonical form of their union. -/
theorem canonicalForm_insertAll
    (spans : List Span) (small : ∀ span ∈ spans, span.stop < wordLimit) :
    insertAll? {} spans = some (insertAll {} spans) ∧
      CanonicalForm spans (insertAll {} spans).1 (insertAll {} spans).2 := by
  have unites := unites_ofSpans spans
  have below : ∀ position ∈ ofSpans spans, position < wordLimit - 1 := by
    intro position member
    obtain ⟨span, inserted, inside⟩ := (unites.mem_iff position).1 member
    have := small span inserted
    rw [Span.mem_iff] at inside
    omega
  have total : (ofSpans spans).total = (insertAll {} spans).2.sum := by
    have counted := unites_empty.total_insertAll spans
    rwa [show total {} = 0 from rfl, Nat.zero_add] at counted
  refine ⟨unites_empty.insertAll?_eq small, ?_⟩
  exact {
    occupied := unites.canonical.occupied
    separated := unites.canonical.separated
    mem_iff := unites.mem_iff
    eq_of_union_eq := fun others same => (unites_ofSpans others).eq_of_union_eq unites same
    length_added := length_insertAll {} spans
    added_eq := by
      rintro before span after rfl
      exact unites_empty.getElem?_insertAll before span after
    total := total ▸ total?_eq unites.canonical below (by decide)
    covers := fun span =>
      ⟨_, holds?_eq unites.canonical span, rfl, unites.covers_iff_forall span⟩
    isComplete := fun length =>
      ⟨_, isFilled?_eq unites.canonical length, rfl, unites.isComplete_iff_forall length⟩ }

/-- Two spans with a gap between them, a reversed one, the gap, and two that overlap the rest. -/
def spansAroundGap : List Span :=
  [⟨10, 20⟩, ⟨30, 40⟩, ⟨9, 3⟩, ⟨20, 30⟩, ⟨5, 15⟩, ⟨12, 18⟩]

theorem canonicalForm_insertAll_around_gap :
    (∀ span ∈ spansAroundGap, span.stop < wordLimit) ∧
      insertAll {} spansAroundGap = (⟨[⟨5, 40⟩]⟩, [10, 10, 0, 10, 5, 0]) ∧
      CanonicalForm spansAroundGap ⟨[⟨5, 40⟩]⟩ [10, 10, 0, 10, 5, 0] := by
  have small : ∀ span ∈ spansAroundGap, span.stop < wordLimit := by decide
  have run : insertAll {} spansAroundGap = (⟨[⟨5, 40⟩]⟩, [10, 10, 0, 10, 5, 0]) := by decide
  have form := (canonicalForm_insertAll spansAroundGap small).2
  rw [run] at form
  exact ⟨small, run, form⟩

end Coverage
end Spead
