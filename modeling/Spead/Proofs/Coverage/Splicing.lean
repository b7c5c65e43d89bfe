import Spead.Proofs.MachineWords

/-!
Insertion into a coverage by searching and splicing.

On machine words a span is inserted in place: two searches find the spans that it overlaps or
touches, and one span takes the place of them all. A search is a partition point, so it needs spans
of which those that pass its test come first. On canonical spans that is the case, and `splice?`,
`holds?` and `isFilled?` come to what `insert`, `covers` and `isComplete` say.
-/

namespace Spead
namespace Coverage

/-! ## Searches -/

/-- How many spans pass a test, if those that do come first. -/
def partitionPoint? (test : Span → Bool) (spans : List Span) : Option Nat :=
  if (spans.dropWhile test).any test then none else some (spans.takeWhile test).length

/-- The spans from the place `first` up to the place `last`, if both are there. -/
def slice? (spans : List Span) (first last : Nat) : Option (List Span) :=
  if first ≤ last ∧ last ≤ spans.length then some ((spans.take last).drop first) else none

theorem partitionPoint?_append
    {test : Span → Bool} {front back : List Span}
    (passed : ∀ held ∈ front, test held = true) (failed : ∀ held ∈ back, test held = false) :
    partitionPoint? test (front ++ back) = some front.length := by
  have behind : back.takeWhile test = [] := by
    cases back with
    | nil => rfl
    | cons head tail => simp [failed head List.mem_cons_self]
  have left : back.dropWhile test = back := by
    cases back with
    | nil => rfl
    | cons head tail => simp [failed head List.mem_cons_self]
  have none : back.any test = false := by
    rw [List.any_eq_false]
    intro held member
    simp [failed held member]
  rw [partitionPoint?, List.takeWhile_append_of_pos passed, List.dropWhile_append_of_pos passed,
    behind, left, none, List.append_nil]
  rfl

/-- A test that no span passes behind one that fails it cuts the spans in two. -/
theorem exists_partition
    {test : Span → Bool} {spans : List Span}
    (ordered : spans.Pairwise fun left right => test right = true → test left = true) :
    ∃ front back, spans = front ++ back ∧
      (∀ held ∈ front, test held = true) ∧ ∀ held ∈ back, test held = false := by
  induction spans with
  | nil => exact ⟨[], [], rfl, by simp, by simp⟩
  | cons head tail inductionHypothesis =>
      obtain ⟨behind, rest⟩ := List.pairwise_cons.1 ordered
      by_cases passes : test head = true
      · obtain ⟨front, back, rfl, passed, failed⟩ := inductionHypothesis rest
        exact ⟨head :: front, back, rfl, List.forall_mem_cons.2 ⟨passes, passed⟩, failed⟩
      · refine ⟨[], head :: tail, rfl, by simp, ?_⟩
        have fails : test head = false := by simpa using passes
        refine List.forall_mem_cons.2 ⟨fails, fun held member => ?_⟩
        by_contra passing
        exact passes (behind held member (by simpa using passing))

/-! ## The spans around an inserted one -/

/-- The spans in front of `span`, those that overlap or touch it and those behind it. -/
structure Surrounds (span : Span) (front middle back : List Span) : Prop where
  before : ∀ held ∈ front, held.stop < span.start
  touching : ∀ held ∈ middle, span.start ≤ held.stop ∧ held.start ≤ span.stop
  behind : ∀ held ∈ back, span.stop < held.start

theorem Canonical.of_append_right
    {front back : List Span} (canonical : Canonical (front ++ back)) : Canonical back :=
  ⟨fun held member => canonical.occupied held (List.mem_append_right front member),
    (List.pairwise_append.1 canonical.separated).2.1⟩

theorem Canonical.exists_surrounds
    {spans : List Span} (canonical : Canonical spans) (span : Span) :
    ∃ front middle back, spans = front ++ (middle ++ back) ∧
      Surrounds span front middle back := by
  have stops : spans.Pairwise fun left right =>
      decide (right.stop < span.start) = true → decide (left.stop < span.start) = true := by
    refine canonical.separated.imp_of_mem fun {left right} _ rightMember apart => ?_
    have occupied := canonical.occupied right rightMember
    simp only [decide_eq_true_eq]
    omega
  obtain ⟨front, rest, rfl, before, notBefore⟩ := exists_partition stops
  have later := canonical.of_append_right
  have starts : rest.Pairwise fun left right =>
      decide (right.start ≤ span.stop) = true → decide (left.start ≤ span.stop) = true := by
    refine later.separated.imp_of_mem fun {left right} leftMember _ apart => ?_
    have occupied := later.occupied left leftMember
    simp only [decide_eq_true_eq]
    omega
  obtain ⟨middle, back, rfl, reached, behind⟩ := exists_partition starts
  refine ⟨front, middle, back, rfl, ?_, ?_, ?_⟩
  · simpa using before
  · intro held member
    have overlapped := notBefore held (List.mem_append_left back member)
    have near := reached held member
    simp only [decide_eq_false_iff_not, decide_eq_true_eq, not_lt] at overlapped near
    exact ⟨overlapped, near⟩
  · simpa using behind

section Surrounds

variable {span : Span} {front middle back : List Span}

/-- The spans in front are passed over. -/
theorem insertSpan_append
    (before : ∀ held ∈ front, held.stop < span.start) (rest : List Span) :
    insertSpan span (front ++ rest) = front ++ insertSpan span rest := by
  induction front with
  | nil => rfl
  | cons head tail inductionHypothesis =>
      rw [List.forall_mem_cons] at before
      rw [List.cons_append, insertSpan, if_pos before.1, inductionHypothesis before.2,
        List.cons_append]

/-- Before the spans behind it, a span is put in as it is. -/
theorem insertSpan_of_behind
    (occupied : span.start < span.stop) (canonical : Canonical back)
    (behind : ∀ held ∈ back, span.stop < held.start) :
    insertSpan span back = span :: back := by
  cases back with
  | nil => rfl
  | cons head tail =>
      have headOccupied := canonical.occupied head List.mem_cons_self
      have headBehind := behind head List.mem_cons_self
      rw [insertSpan, if_neg (by omega), if_pos headBehind]

/-- The span that takes the place of those that a new one touches: it begins with the first of
them or with the new one, and ends with the last of them or with the new one. -/
def merged (span : Span) (touching : List Span) : Span :=
  match touching.head?, touching.getLast? with
  | some first, some last => ⟨min first.start span.start, max last.stop span.stop⟩
  | _, _ => span

/-- The spans that touch a new one are merged with it one after the other, and that comes to the
first start and the last stop. -/
theorem insertSpan_middle
    (occupied : span.start < span.stop) (canonical : Canonical (middle ++ back))
    (touching : ∀ held ∈ middle, span.start ≤ held.stop ∧ held.start ≤ span.stop)
    (behind : ∀ held ∈ back, span.stop < held.start) :
    insertSpan span (middle ++ back) = merged span middle :: back := by
  induction middle generalizing span with
  | nil => exact insertSpan_of_behind occupied canonical behind
  | cons head tail inductionHypothesis =>
      rw [List.forall_mem_cons] at touching
      have headOccupied := canonical.occupied head List.mem_cons_self
      have apart := (List.pairwise_cons.1 canonical.separated).1
      have tailOccupied := canonical.tail.occupied
      rw [List.cons_append, insertSpan, if_neg (by omega), if_neg (by omega),
        inductionHypothesis (by simp only; omega) canonical.tail]
      · congr 1
        cases tail with
        | nil => rfl
        | cons second others =>
            have isLast := List.getLast?_eq_some_getLast (List.cons_ne_nil second others)
            have lastMember : (second :: others).getLast (List.cons_ne_nil _ _) ∈
                (second :: others) ++ back :=
              List.mem_append_left back (List.getLast_mem _)
            have lastOccupied := tailOccupied _ lastMember
            have lastApart := apart _ lastMember
            have secondApart := apart second List.mem_cons_self
            simp only [merged, List.head?_cons, List.getLast?_cons_cons, isLast, Span.mk.injEq]
            omega
      · intro held member
        have overlapping := touching.2 held member
        have later := apart held (List.mem_append_left back member)
        have heldOccupied := tailOccupied held (List.mem_append_left back member)
        simp only
        omega
      · intro held member
        have spanBehind := behind held member
        have headBehind := apart held (List.mem_append_right tail member)
        simp only
        omega

theorem insertSpan_of_surrounds
    (occupied : span.start < span.stop) (canonical : Canonical (front ++ (middle ++ back)))
    (surrounds : Surrounds span front middle back) :
    insertSpan span (front ++ (middle ++ back)) = front ++ merged span middle :: back := by
  rw [insertSpan_append surrounds.before,
    insertSpan_middle occupied canonical.of_append_right surrounds.touching surrounds.behind]

/-- Only the spans that touch an inserted one overlap it. -/
theorem sum_overlap_of_surrounds (surrounds : Surrounds span front middle back) :
    ((front ++ (middle ++ back)).map span.overlap).sum = (middle.map span.overlap).sum := by
  have none (spans : List Span)
      (apart : ∀ held ∈ spans, held.stop < span.start ∨ span.stop < held.start) :
      (spans.map span.overlap).sum = 0 := by
    rw [List.sum_eq_zero]
    rw [List.forall_mem_map]
    intro held member
    have := apart held member
    unfold Span.overlap
    omega
  rw [List.map_append, List.map_append, List.sum_append, List.sum_append,
    none front fun held member => Or.inl (surrounds.before held member),
    none back fun held member => Or.inr (surrounds.behind held member), Nat.zero_add, Nat.add_zero]

/-- The first search ends behind the spans in front. -/
theorem partitionPoint?_stops
    (occupied : span.start < span.stop) (canonical : Canonical (front ++ (middle ++ back)))
    (surrounds : Surrounds span front middle back) :
    partitionPoint? (fun held => held.stop < span.start) (front ++ (middle ++ back)) =
      some front.length := by
  refine partitionPoint?_append (by simpa using surrounds.before) ?_
  intro held member
  rw [decide_eq_false_iff_not, not_lt]
  rcases List.mem_append.1 member with overlapping | later
  · exact (surrounds.touching held overlapping).1
  · have behind := surrounds.behind held later
    have heldOccupied := canonical.of_append_right.occupied held member
    omega

/-- The second search ends in front of the spans behind. -/
theorem partitionPoint?_starts
    (occupied : span.start < span.stop) (canonical : Canonical (front ++ (middle ++ back)))
    (surrounds : Surrounds span front middle back) :
    partitionPoint? (fun held => held.start ≤ span.stop) (front ++ (middle ++ back)) =
      some (front ++ middle).length := by
  rw [← List.append_assoc]
  refine partitionPoint?_append ?_ (by simpa using surrounds.behind)
  intro held member
  rw [decide_eq_true_eq]
  rcases List.mem_append.1 member with earlier | overlapping
  · have before := surrounds.before held earlier
    have heldOccupied := canonical.occupied held (List.mem_append_left _ earlier)
    omega
  · exact (surrounds.touching held overlapping).2

end Surrounds

/-! ## Insertion -/

/-- Cover `span`, with the number of its positions that were not covered. The first search is for
a span that ends no earlier than the new one begins, the second for one that begins later than it
ends. -/
def splice? (coverage : Coverage) (span : Span) : Option (Coverage × Nat) :=
  if span.isEmpty then
    some (coverage, 0)
  else do
    let first ← partitionPoint? (fun held => held.stop < span.start) coverage.spans
    let last ← partitionPoint? (fun held => held.start ≤ span.stop) coverage.spans
    let touching ← slice? coverage.spans first last
    let overlap ← sum? (touching.map span.overlap)
    let length ← difference? span.stop span.start
    let added ← difference? length overlap
    return (⟨coverage.spans.take first ++ merged span touching :: coverage.spans.drop last⟩, added)

theorem splice?_eq
    {coverage : Coverage} (canonical : Canonical coverage.spans) {span : Span}
    (small : span.stop < wordLimit) :
    coverage.splice? span = some (coverage.insert span, coverage.missing span) := by
  unfold splice?
  split
  · next empty =>
      rw [insert, if_pos empty, missing_of_isEmpty coverage empty]
  · next notEmpty =>
      have occupied : span.start < span.stop := by
        simpa [Span.isEmpty] using notEmpty
      have length : span.length = span.stop - span.start := rfl
      have bound := sum_overlap_le canonical span
      obtain ⟨front, middle, back, whole, surrounds⟩ := canonical.exists_surrounds span
      have overlap := sum_overlap_of_surrounds surrounds
      rw [← whole] at overlap
      have ordered := whole ▸ canonical
      have first := partitionPoint?_stops occupied ordered surrounds
      have last := partitionPoint?_starts occupied ordered surrounds
      rw [← whole] at first last
      have touching :
          slice? coverage.spans front.length (front ++ middle).length = some middle := by
        rw [slice?, if_pos (by rw [whole]; simp), whole, ← List.append_assoc, List.take_left,
          List.drop_left]
      have inserted :
          coverage.insert span = ⟨front ++ merged span middle :: back⟩ := by
        rw [insert, if_neg notEmpty, whole,
          insertSpan_of_surrounds occupied ordered surrounds]
      have kept : coverage.spans.take front.length = front := by
        rw [whole, List.take_left]
      have rest : coverage.spans.drop (front ++ middle).length = back := by
        rw [whole, ← List.append_assoc, List.drop_left]
      simp only [first, last, touching, Option.bind_eq_bind, Option.bind_some]
      rw [sum?_of_lt (by omega), difference?_of_le occupied.le]
      simp only [Option.bind_some]
      rw [← length, difference?_of_le (by omega), inserted, kept, rest, missing, overlap]
      rfl

/-! ## Questions -/

/-- Whether every position of `span` is covered. The one span that can hold its first position is
searched for. -/
def holds? (coverage : Coverage) (span : Span) : Option Bool :=
  if span.isEmpty then
    some true
  else do
    let place ← partitionPoint? (fun held => held.stop ≤ span.start) coverage.spans
    return coverage.spans[place]?.any fun held =>
      held.start ≤ span.start && span.stop ≤ held.stop

def isFilled? (coverage : Coverage) (length : Nat) : Option Bool :=
  coverage.holds? ⟨0, length⟩

theorem holds?_eq
    {coverage : Coverage} (canonical : Canonical coverage.spans) (span : Span) :
    coverage.holds? span = some (coverage.covers span) := by
  unfold holds? covers
  cases notEmpty : span.isEmpty with
  | true => rfl
  | false =>
      have occupied : span.start < span.stop := by
        simpa [Span.isEmpty] using notEmpty
      have stops : coverage.spans.Pairwise fun left right =>
          decide (right.stop ≤ span.start) = true → decide (left.stop ≤ span.start) = true := by
        refine canonical.separated.imp_of_mem fun {left right} _ rightMember apart => ?_
        have rightOccupied := canonical.occupied right rightMember
        simp only [decide_eq_true_eq]
        omega
      obtain ⟨front, back, whole, passed, failed⟩ := exists_partition stops
      have place := partitionPoint?_append passed failed
      have there : (front ++ back)[front.length]? = back.head? := by
        rw [List.getElem?_append_right (Nat.le_refl _), Nat.sub_self, List.head?_eq_getElem?]
      have none : front.any (fun held =>
          held.start ≤ span.start && span.stop ≤ held.stop) = false := by
        rw [List.any_eq_false]
        intro held member
        have := passed held member
        simp only [decide_eq_true_eq] at this
        simp only [Bool.and_eq_true, decide_eq_true_eq]
        omega
      rw [whole] at canonical ⊢
      simp only [Bool.false_eq_true, if_false, Bool.false_or, place, Option.bind_eq_bind,
        Option.bind_some, there, List.any_append, none]
      cases back with
      | nil => rfl
      | cons head tail =>
          have later := (List.pairwise_cons.1 canonical.of_append_right.separated).1
          have headBehind := failed head List.mem_cons_self
          have noneLater : tail.any (fun held =>
              held.start ≤ span.start && span.stop ≤ held.stop) = false := by
            rw [List.any_eq_false]
            intro held member
            have := later held member
            simp only [decide_eq_false_iff_not] at headBehind
            simp only [Bool.and_eq_true, decide_eq_true_eq]
            omega
          simp [noneLater]

theorem isFilled?_eq
    {coverage : Coverage} (canonical : Canonical coverage.spans) (length : Nat) :
    coverage.isFilled? length = some (coverage.isComplete length) :=
  holds?_eq canonical _

end Coverage
end Spead
