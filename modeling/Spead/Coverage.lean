/-!
Which bytes of a heap have been received.

A `Coverage` is a set of byte positions, kept as its canonical list of half-open spans: none is
empty, they are in ascending order, and two neighbours have an uncovered byte between them.
-/

namespace Spead

/-- The positions from `start` up to, but not including, `stop`. -/
structure Span where
  start : Nat
  stop : Nat
  deriving DecidableEq, Repr

namespace Span

def isEmpty (span : Span) : Bool :=
  span.stop ≤ span.start

def length (span : Span) : Nat :=
  span.stop - span.start

def overlap (left right : Span) : Nat :=
  min left.stop right.stop - max left.start right.start

end Span

/-- A set of positions as disjoint spans in ascending order. -/
structure Coverage where
  spans : List Span := []
  deriving DecidableEq, Repr

namespace Coverage

/-- Insert a span that is not empty. Spans that it overlaps or touches are merged with it. -/
def insertSpan (span : Span) : List Span → List Span
  | [] => [span]
  | head :: tail =>
      if head.stop < span.start then
        head :: insertSpan span tail
      else if span.stop < head.start then
        span :: head :: tail
      else
        insertSpan ⟨min head.start span.start, max head.stop span.stop⟩ tail

def missing (coverage : Coverage) (span : Span) : Nat :=
  span.length - (coverage.spans.map span.overlap).sum

/-- Cover `span`. An empty span changes nothing. -/
def insert (coverage : Coverage) (span : Span) : Coverage :=
  if span.isEmpty then
    coverage
  else
    ⟨insertSpan span coverage.spans⟩

/-- Whether every position of `span` is covered. As spans do not touch each other, one of them
has to hold all of it. -/
def covers (coverage : Coverage) (span : Span) : Bool :=
  span.isEmpty ||
    coverage.spans.any fun held =>
      held.start ≤ span.start && span.stop ≤ held.stop

def isComplete (coverage : Coverage) (length : Nat) : Bool :=
  coverage.covers ⟨0, length⟩

def total (coverage : Coverage) : Nat :=
  (coverage.spans.map Span.length).sum

end Coverage
end Spead
