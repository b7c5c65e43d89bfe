import Mathlib.Order.Interval.Finset.Nat
import Spead.Bytes
import Spead.Coverage

/-!
Coverages as sets of positions.

A coverage with canonical spans is complete exactly when it has every position, inserting a span
adds the positions of the span, and `total` counts the positions.
-/

namespace Spead

instance : Membership Nat Span :=
  ⟨fun span position => span.start ≤ position ∧ position < span.stop⟩

theorem Span.mem_iff {span : Span} {position : Nat} :
    position ∈ span ↔ span.start ≤ position ∧ position < span.stop :=
  Iff.rfl

instance (span : Span) (position : Nat) : Decidable (position ∈ span) :=
  decidable_of_iff _ Span.mem_iff.symm

namespace Coverage

instance : Membership Nat Coverage :=
  ⟨fun coverage position => ∃ span ∈ coverage.spans, position ∈ span⟩

theorem mem_iff {coverage : Coverage} {position : Nat} :
    position ∈ coverage ↔ ∃ span ∈ coverage.spans, position ∈ span :=
  Iff.rfl

@[simp] theorem not_mem_empty (position : Nat) : position ∉ ({} : Coverage) := by
  simp [mem_iff]

/-- Spans that are not empty, in ascending order, with an uncovered position between any two. -/
structure Canonical (spans : List Span) : Prop where
  occupied : ∀ span ∈ spans, span.start < span.stop
  separated : spans.Pairwise fun left right => left.stop < right.start

theorem canonical_nil : Canonical [] :=
  ⟨by simp, List.Pairwise.nil⟩

theorem Canonical.tail {head : Span} {tail : List Span} (canonical : Canonical (head :: tail)) :
    Canonical tail :=
  ⟨fun span member => canonical.occupied span (List.mem_cons_of_mem head member),
    (List.pairwise_cons.1 canonical.separated).2⟩

/-! ## Insertion -/

theorem mem_insertSpan
    {spans : List Span} (canonical : Canonical spans) (span : Span)
    (occupied : span.start < span.stop) (position : Nat) :
    (∃ held ∈ insertSpan span spans, position ∈ held) ↔
      position ∈ span ∨ ∃ held ∈ spans, position ∈ held := by
  induction spans generalizing span with
  | nil => simp [insertSpan]
  | cons head tail inductionHypothesis =>
      have headOccupied := canonical.occupied head List.mem_cons_self
      simp only [insertSpan]
      split
      · simp only [List.exists_mem_cons_iff]
        rw [inductionHypothesis canonical.tail span occupied]
        exact or_left_comm
      · split
        · simp only [List.exists_mem_cons_iff]
        · next notBefore notBehind =>
            rw [inductionHypothesis canonical.tail _ (by simp only; omega)]
            simp only [List.exists_mem_cons_iff, ← or_assoc]
            apply or_congr_left
            simp only [Span.mem_iff]
            omega

/-- Spans stay behind whatever is before the inserted span and before all spans held. -/
theorem insertSpan_behind
    {spans : List Span} {span : Span} {bound : Nat}
    (spanBehind : bound < span.start) (spansBehind : ∀ held ∈ spans, bound < held.start) :
    ∀ held ∈ insertSpan span spans, bound < held.start := by
  induction spans generalizing span with
  | nil => simpa [insertSpan] using spanBehind
  | cons head tail inductionHypothesis =>
      rw [List.forall_mem_cons] at spansBehind
      simp only [insertSpan]
      split
      · rw [List.forall_mem_cons]
        exact ⟨spansBehind.1, inductionHypothesis spanBehind spansBehind.2⟩
      · split
        · rw [List.forall_mem_cons, List.forall_mem_cons]
          exact ⟨spanBehind, spansBehind⟩
        · exact inductionHypothesis (by simp only; omega) spansBehind.2

theorem canonical_insertSpan
    {spans : List Span} (canonical : Canonical spans) (span : Span)
    (occupied : span.start < span.stop) :
    Canonical (insertSpan span spans) := by
  induction spans generalizing span with
  | nil => exact ⟨by simpa [insertSpan] using occupied, by simp [insertSpan]⟩
  | cons head tail inductionHypothesis =>
      have headOccupied := canonical.occupied head List.mem_cons_self
      have tailBehind := (List.pairwise_cons.1 canonical.separated).1
      simp only [insertSpan]
      split
      · next before =>
          have rest := inductionHypothesis canonical.tail span occupied
          refine ⟨List.forall_mem_cons.2 ⟨headOccupied, rest.occupied⟩, ?_⟩
          exact List.pairwise_cons.2 ⟨insertSpan_behind before tailBehind, rest.separated⟩
      · split
        · next behind =>
            refine ⟨List.forall_mem_cons.2 ⟨occupied, canonical.occupied⟩, ?_⟩
            refine List.pairwise_cons.2 ⟨?_, canonical.separated⟩
            rw [List.forall_mem_cons]
            refine ⟨behind, fun held member => ?_⟩
            have := tailBehind held member
            omega
        · exact inductionHypothesis canonical.tail _ (by simp only; omega)

theorem mem_insert
    {coverage : Coverage} (canonical : Canonical coverage.spans) (span : Span) (position : Nat) :
    position ∈ coverage.insert span ↔ position ∈ span ∨ position ∈ coverage := by
  unfold insert
  split
  · next empty =>
      simp only [Span.isEmpty, decide_eq_true_eq] at empty
      have outside : position ∉ span := by rw [Span.mem_iff]; omega
      simp [outside]
  · next occupied =>
      simp only [Span.isEmpty, decide_eq_true_eq, not_le] at occupied
      exact mem_insertSpan canonical span occupied position

theorem canonical_insert
    {coverage : Coverage} (canonical : Canonical coverage.spans) (span : Span) :
    Canonical (coverage.insert span).spans := by
  unfold insert
  split
  · exact canonical
  · next occupied =>
      simp only [Span.isEmpty, decide_eq_true_eq, not_le] at occupied
      exact canonical_insertSpan canonical span occupied

/-! ## Completeness -/

/-- Between two spans of a canonical list there is an uncovered position. -/
theorem Canonical.apart
    {spans : List Span} (canonical : Canonical spans) {left right : Span}
    (leftMember : left ∈ spans) (rightMember : right ∈ spans) :
    left = right ∨ left.stop < right.start ∨ right.stop < left.start := by
  induction spans with
  | nil => cases leftMember
  | cons head tail inductionHypothesis =>
      have behind := (List.pairwise_cons.1 canonical.separated).1
      rcases List.mem_cons.1 leftMember with rfl | leftLater
      · rcases List.mem_cons.1 rightMember with rfl | rightLater
        · exact Or.inl rfl
        · exact Or.inr (Or.inl (behind right rightLater))
      · rcases List.mem_cons.1 rightMember with rfl | rightLater
        · exact Or.inr (Or.inr (behind left leftLater))
        · exact inductionHypothesis canonical.tail leftLater rightLater

/-- As the spans of a coverage do not touch, all positions of a covered span are in one of them. -/
theorem covers_iff
    {coverage : Coverage} (canonical : Canonical coverage.spans) (span : Span) :
    coverage.covers span = true ↔ ∀ position ∈ span, position ∈ coverage := by
  simp only [covers, Span.isEmpty, Bool.or_eq_true, decide_eq_true_eq, List.any_eq_true,
    Bool.and_eq_true]
  constructor
  · rintro (empty | ⟨held, member, starts, stops⟩) position inside
    · rw [Span.mem_iff] at inside
      omega
    · exact ⟨held, member, by rw [Span.mem_iff] at inside ⊢; omega⟩
  · intro covered
    by_cases empty : span.stop ≤ span.start
    · exact Or.inl empty
    · refine Or.inr ?_
      obtain ⟨held, member, inside⟩ := covered span.start (by rw [Span.mem_iff]; omega)
      rw [Span.mem_iff] at inside
      refine ⟨held, member, inside.1, ?_⟩
      by_contra short
      obtain ⟨next, nextMember, nextInside⟩ :=
        covered held.stop (by rw [Span.mem_iff]; omega)
      rw [Span.mem_iff] at nextInside
      have occupied := canonical.occupied held member
      rcases canonical.apart member nextMember with rfl | behind | before <;> omega

theorem isComplete_iff
    {coverage : Coverage} (canonical : Canonical coverage.spans) (length : Nat) :
    coverage.isComplete length = true ↔ ∀ position < length, position ∈ coverage := by
  rw [isComplete, covers_iff canonical]
  simp [Span.mem_iff]

/-! ## Counting -/

def positions (spans : List Span) : Finset Nat :=
  spans.foldr (fun span rest => Finset.Ico span.start span.stop ∪ rest) ∅

@[simp] theorem mem_positions {spans : List Span} {position : Nat} :
    position ∈ positions spans ↔ ∃ span ∈ spans, position ∈ span := by
  induction spans with
  | nil => simp [positions]
  | cons head tail inductionHypothesis =>
      rw [List.exists_mem_cons_iff, ← inductionHypothesis]
      simp [positions, Span.mem_iff]

/-- The first span of a canonical list has no position of the others. -/
theorem Canonical.disjoint_positions
    {head : Span} {tail : List Span} (canonical : Canonical (head :: tail)) :
    Disjoint (Finset.Ico head.start head.stop) (positions tail) := by
  have behind := (List.pairwise_cons.1 canonical.separated).1
  rw [Finset.disjoint_left]
  intro position inHead inTail
  obtain ⟨span, member, inside⟩ := mem_positions.1 inTail
  have := behind span member
  rw [Finset.mem_Ico] at inHead
  rw [Span.mem_iff] at inside
  omega

theorem card_positions {spans : List Span} (canonical : Canonical spans) :
    (positions spans).card = (spans.map Span.length).sum := by
  induction spans with
  | nil => rfl
  | cons head tail inductionHypothesis =>
      rw [List.map_cons, List.sum_cons, ← inductionHypothesis canonical.tail, Span.length,
        ← Nat.card_Ico]
      exact Finset.card_union_of_disjoint canonical.disjoint_positions

theorem card_inter_positions {spans : List Span} (canonical : Canonical spans) (span : Span) :
    (Finset.Ico span.start span.stop ∩ positions spans).card =
      (spans.map span.overlap).sum := by
  induction spans with
  | nil => simp [positions]
  | cons head tail inductionHypothesis =>
      have disjoint := canonical.disjoint_positions
      change (_ ∩ (Finset.Ico head.start head.stop ∪ positions tail)).card = _
      rw [Finset.inter_union_distrib_left, List.map_cons, List.sum_cons,
        ← inductionHypothesis canonical.tail, Finset.card_union_of_disjoint]
      · rw [Finset.Ico_inter_Ico, Nat.card_Ico, Span.overlap]
      · exact disjoint.mono Finset.inter_subset_right Finset.inter_subset_right

theorem sum_overlap_le {spans : List Span} (canonical : Canonical spans) (span : Span) :
    (spans.map span.overlap).sum ≤ span.length := by
  rw [← card_inter_positions canonical, Span.length, ← Nat.card_Ico]
  exact Finset.card_le_card Finset.inter_subset_left

theorem missing_of_isEmpty (coverage : Coverage) {span : Span} (empty : span.isEmpty = true) :
    coverage.missing span = 0 := by
  simp only [Span.isEmpty, decide_eq_true_eq] at empty
  unfold missing Span.length
  omega

/-- What `missing` counts are the positions of a span that are not covered. -/
theorem missing_eq_card
    {coverage : Coverage} (canonical : Canonical coverage.spans) (span : Span) :
    coverage.missing span =
      (Finset.Ico span.start span.stop \ positions coverage.spans).card := by
  rw [missing, ← card_inter_positions canonical, Finset.card_sdiff, Nat.card_Ico, Span.length,
    Finset.inter_comm]

theorem total_le
    {coverage : Coverage} {length : Nat} (canonical : Canonical coverage.spans)
    (below : ∀ position ∈ coverage, position < length) : coverage.total ≤ length := by
  rw [total, ← card_positions canonical, ← Finset.card_range length]
  apply Finset.card_le_card
  intro position member
  exact Finset.mem_range.2 (below position (mem_positions.1 member))

/-- A coverage that lies below `length` and is not complete has fewer positions. -/
theorem total_lt
    {coverage : Coverage} {length : Nat} (canonical : Canonical coverage.spans)
    (below : ∀ position ∈ coverage, position < length)
    (incomplete : coverage.isComplete length = false) :
    coverage.total < length := by
  rw [total, ← card_positions canonical, ← Finset.card_range length]
  apply Finset.card_lt_card
  rw [Finset.ssubset_iff_of_subset]
  · by_contra complete
    push Not at complete
    have covered : ∀ position < length, position ∈ coverage := by
      intro position inside
      exact mem_positions.1 (complete position (Finset.mem_range.2 inside))
    rw [(isComplete_iff canonical length).2 covered] at incomplete
    cases incomplete
  · intro position member
    exact Finset.mem_range.2 (below position (mem_positions.1 member))

end Coverage
end Spead
