import Mathlib.Data.List.Nodup
import Spead.Proofs.Generator

/-!
The numbers of the heaps that a generator makes, in whichever way.

Numbers are given out in rounds, so that those of a round are all different.
-/

namespace Spead
namespace Generator

/-! ## Heaps one after the other -/

/-- The generator gives out the heap, and goes on as `next`. -/
inductive Gives (generator : Generator) : Heap → Generator → Prop where
  | ofGroup {group : Group} {descriptors data : Selection} {heap : Heap} {next : Generator}
      (made : generator.heap group descriptors data = .ok (heap, next)) : Gives generator heap next
  | start {heap : Heap} {next : Generator} (made : generator.startHeap = .ok (heap, next)) :
      Gives generator heap next
  | stop {heap : Heap} {next : Generator} (made : generator.endHeap = .ok (heap, next)) :
      Gives generator heap next

/-- All heaps that a generator has given out, with where it stands. Calls that fail change
nothing, and the groups are whatever they are. -/
inductive Produces (flavour : Flavour) : List Heap → Generator → Prop where
  | nothing : Produces flavour [] { flavour }
  | next {heaps : List Heap} {generator next : Generator} {heap : Heap}
      (before : Produces flavour heaps generator) (gives : generator.Gives heap next) :
      Produces flavour (heaps ++ [heap]) next

/-- What all ways to make a heap have in common. -/
structure Numbers (generator : Generator) (heap : Heap) (next : Generator) : Prop where
  count : heap.count = generator.nextCount
  heapFlavour : heap.flavour = generator.flavour
  flavour : next.flavour = generator.flavour
  nextCount : next.nextCount =
    if generator.flavour.maxAddress ≤ generator.nextCount then 1 else generator.nextCount + 1

theorem takeCount_eq_ok
    {generator next : Generator} {count : Nat}
    (took : generator.takeCount = .ok (count, next)) :
    count = generator.nextCount ∧ next.flavour = generator.flavour ∧
      next.nextCount =
        if generator.flavour.maxAddress ≤ generator.nextCount then 1
        else generator.nextCount + 1 := by
  unfold takeCount at took
  by_cases exhausted : generator.exhausted = true
  · rw [if_pos exhausted] at took
    cases took
  · rw [if_neg exhausted] at took
    cases took
    exact ⟨rfl, rfl, rfl⟩

theorem Gives.numbers
    {generator next : Generator} {heap : Heap} (gives : generator.Gives heap next) :
    generator.Numbers heap next := by
  cases gives with
  | ofGroup made =>
      obtain ⟨_, _, makes⟩ := heap_eq_ok made
      constructor
      case count => rw [makes.heap]
      case heapFlavour => rw [makes.heap]
      case flavour => rw [makes.next]
      case nextCount => rw [makes.next]
  | start made | stop made =>
      obtain ⟨⟨count, next⟩, took, done⟩ := Except.bind_eq_ok_iff.1 made
      cases done
      obtain ⟨rfl, flavour, nextCount⟩ := takeCount_eq_ok took
      exact ⟨rfl, rfl, flavour, nextCount⟩

/-- The heaps have the first numbers of the flavour in a row, and the generator goes on from
there. -/
structure Numbered (flavour : Flavour) (heaps : List Heap) (generator : Generator) : Prop where
  sameFlavour : generator.flavour = flavour
  heapFlavour : ∀ heap ∈ heaps, heap.flavour = flavour
  nextCount : generator.nextCount = countAt flavour heaps.length
  counts : heaps.map Heap.count = (List.range heaps.length).map (countAt flavour)

theorem numbered_nothing (flavour : Flavour) : Numbered flavour [] { flavour } where
  sameFlavour := rfl
  heapFlavour := by simp
  nextCount := by simp [countAt]
  counts := rfl

section Numbered

variable {flavour : Flavour} {heaps : List Heap} {generator next : Generator} {heap : Heap}

theorem Numbered.append
    (numbered : Numbered flavour heaps generator) (numbers : generator.Numbers heap next) :
    Numbered flavour (heaps ++ [heap]) next := by
  obtain ⟨rfl, heapFlavour, nextCount, counts⟩ := numbered
  constructor
  case sameFlavour => exact numbers.flavour
  case heapFlavour =>
    rw [List.forall_mem_append]
    exact ⟨heapFlavour, by simpa using numbers.heapFlavour⟩
  case nextCount =>
    rw [numbers.nextCount, nextCount, List.length_append, List.length_singleton, countAt_succ]
  case counts =>
    rw [List.map_append, counts, List.length_append, List.length_singleton, List.range_succ,
      List.map_append, List.map_singleton, List.map_singleton, numbers.count, nextCount]

theorem Produces.numbered (produces : Produces flavour heaps generator) :
    Numbered flavour heaps generator := by
  induction produces with
  | nothing => exact numbered_nothing flavour
  | next _ gives inductionHypothesis => exact inductionHypothesis.append gives.numbers

/-- The next heap has none of the numbers given out last. -/
theorem Numbered.fresh
    (numbered : Numbered flavour heaps generator) (numbers : generator.Numbers heap next)
    {length : Nat} (short : length < flavour.maxAddress) :
    heap.count ∉ (heaps.map Heap.count).rtake length := by
  rw [numbered.counts, numbers.count, numbered.nextCount]
  exact countAt_not_mem_rtake short heaps.length

theorem Numbered.count_bounds (numbered : Numbered flavour heaps generator) :
    ∀ heap ∈ heaps, 1 ≤ heap.count ∧ heap.count ≤ flavour.maxAddress := by
  intro heap member
  have counted := List.mem_map_of_mem (f := Heap.count) member
  rw [numbered.counts] at counted
  obtain ⟨made, _, same⟩ := List.mem_map.1 counted
  rw [← same]
  exact countAt_bounds flavour made

/-- Within a round all numbers are different. -/
theorem Numbered.nodup_counts
    (numbered : Numbered flavour heaps generator) {before window behind : List Heap}
    (split : heaps = before ++ window ++ behind)
    (short : window.length ≤ flavour.maxAddress) : (window.map Heap.count).Nodup := by
  have counts := numbered.counts
  rw [split, List.map_append, List.map_append, List.length_append, List.length_append,
    List.range_add, List.range_add, List.map_append, List.map_append] at counts
  have ofWindow :
      window.map Heap.count =
        ((List.range window.length).map (before.length + ·)).map (countAt flavour) := by
    have front := (List.append_inj counts (by simp)).1
    exact (List.append_inj front (by simp)).2
  rw [ofWindow, List.map_map]
  apply List.Nodup.map_on _ List.nodup_range
  intro first ofFirst second ofSecond same
  rw [List.mem_range] at ofFirst ofSecond
  rw [Function.comp_apply, Function.comp_apply] at same
  rcases Nat.lt_trichotomy first second with less | equal | greater
  · exact absurd same (countAt_ne (by omega) (by omega))
  · exact equal
  · exact absurd same.symm (countAt_ne (by omega) (by omega))

end Numbered

end Generator
end Spead
