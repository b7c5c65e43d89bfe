import Spead.Proofs.Generator
import Spead.Proofs.InPlace

/-!
Generators that are changed in place.

A heap is put together in full before the generator takes a number for it and remembers what it
carries, so that a call that fails halfway leaves the generator as it was.
-/

namespace Spead

/-! ## Loops over items -/

section Loops

variable {state item result : Type}

theorem run_mapM_ofExcept
    (step : item → Except Error result) (items : List item) (before : state) :
    (items.mapM fun entry =>
      (MonadExcept.ofExcept (step entry) : EStateM Error state result)).run before =
      match items.mapM step with
      | .ok results => .ok results before
      | .error cause => .error cause before := by
  induction items with
  | nil => rfl
  | cons first rest inductionHypothesis =>
      rw [List.mapM_cons, List.mapM_cons, EStateM.run_bind, run_ofExcept]
      cases step first with
      | error cause => rfl
      | ok value =>
          dsimp only
          rw [EStateM.run_bind, inductionHypothesis]
          cases rest.mapM step with
          | error cause => rfl
          | ok values => rfl

theorem run_forM_modify
    (step : state → item → state) (items : List item) (before : state) :
    (items.forM fun entry => (modify fun now => step now entry : EStateM Error state PUnit)).run
      before = .ok () (items.foldl step before) := by
  induction items generalizing before with
  | nil => rfl
  | cons first rest inductionHypothesis => exact inductionHypothesis (step before first)

end Loops

namespace Generator

/-! ## Calls step by step -/

def takeCountInPlace : EStateM Error Generator Nat := do
  let generator ← get
  if generator.exhausted then
    throw (ItemError.generatorExhausted : Error)
  let count := generator.nextCount
  let nextCount := if generator.flavour.maxAddress ≤ count then 1 else count + 1
  set { generator with nextCount, started := true }
  return count

def noteInPlace (described valued : List Item) : EStateM Error Generator Unit := do
  described.forM fun item => modify fun now => { now with sent := noteDescriptor now.sent item }
  valued.forM fun item => modify fun now => { now with sent := noteValue now.sent item }

/-- Make a heap of the selected descriptors and values of a group. -/
def heapInPlace (group : Group) (descriptors data : Selection) : EStateM Error Generator Heap := do
  let generator ← get
  if generator.exhausted then
    throw (ItemError.generatorExhausted : Error)
  let described := generator.described group descriptors
  let valued := generator.valued group data
  let descriptorItems ← described.mapM fun item =>
    MonadExcept.ofExcept (Heap.descriptorItem generator.flavour item.descriptor)
  let valueItems ← (withValues valued).mapM fun entry =>
    MonadExcept.ofExcept (valueItem entry.1 entry.2)
  let count ← takeCountInPlace
  noteInPlace described valued
  return ⟨count, generator.flavour, descriptorItems ++ valueItems⟩

def startInPlace : EStateM Error Generator Heap := do
  let count ← takeCountInPlace
  return (Heap.mk count (← get).flavour []).addStart

def endInPlace : EStateM Error Generator Heap := do
  let count ← takeCountInPlace
  modify fun now => { now with exhausted := true }
  return (Heap.mk count (← get).flavour []).addEnd

/-! ## What the steps come to -/

def counted (generator : Generator) : Generator :=
  { generator with
    nextCount :=
      if generator.flavour.maxAddress ≤ generator.nextCount then 1 else generator.nextCount + 1
    started := true }

section Steps

variable {generator : Generator}

theorem takeCount_of_running (running : generator.exhausted = false) :
    generator.takeCount = .ok (generator.nextCount, generator.counted) := by
  rw [takeCount, if_neg (by simp [running])]
  rfl

theorem run_takeCountInPlace_of_running (running : generator.exhausted = false) :
    takeCountInPlace.run generator = .ok generator.nextCount generator.counted := by
  unfold takeCountInPlace
  rw [EStateM.run_bind, EStateM.run_get]
  dsimp only
  rw [if_neg (by simp [running])]
  rfl

theorem run_takeCountInPlace_of_exhausted (ended : generator.exhausted = true) :
    takeCountInPlace.run generator = .error ItemError.generatorExhausted generator := by
  unfold takeCountInPlace
  rw [EStateM.run_bind, EStateM.run_get]
  dsimp only
  rw [if_pos ended]
  rfl

theorem foldl_sent
    (note : Table Nat SentStamps → Item → Table Nat SentStamps) (items : List Item)
    (generator : Generator) :
    items.foldl (fun now item => { now with sent := note now.sent item }) generator =
      { generator with sent := items.foldl note generator.sent } := by
  induction items generalizing generator with
  | nil => rfl
  | cons first rest inductionHypothesis =>
      exact inductionHypothesis { generator with sent := note generator.sent first }

theorem run_noteInPlace (described valued : List Item) (generator : Generator) :
    (noteInPlace described valued).run generator =
      .ok () { generator with
        sent := valued.foldl noteValue (described.foldl noteDescriptor generator.sent) } := by
  unfold noteInPlace
  rw [EStateM.run_bind, run_forM_modify, foldl_sent]
  dsimp only
  rw [run_forM_modify, foldl_sent]

theorem run_heapInPlace (group : Group) (descriptors data : Selection) (generator : Generator) :
    (heapInPlace group descriptors data).run generator =
      (atomically fun now => now.heap group descriptors data).run generator := by
  unfold heapInPlace
  rw [EStateM.run_bind, EStateM.run_get, run_atomically, Generator.heap]
  cases ended : generator.exhausted with
  | true =>
      simp only [ended]
      rfl
  | false =>
      dsimp only
      rw [if_neg (by simp [ended]), if_neg (by simp), EStateM.run_bind, run_mapM_ofExcept,
        ← described, ← valued, ← withValues]
      cases (generator.described group descriptors).mapM fun item =>
          Heap.descriptorItem generator.flavour item.descriptor with
      | error cause => rfl
      | ok descriptorItems =>
          dsimp only
          rw [EStateM.run_bind, run_mapM_ofExcept]
          cases (withValues (generator.valued group data)).mapM fun entry =>
              valueItem entry.1 entry.2 with
          | error cause => rfl
          | ok valueItems =>
              rw [takeCount_of_running ended]
              dsimp only
              rw [EStateM.run_bind, run_takeCountInPlace_of_running ended]
              dsimp only
              rw [EStateM.run_bind, run_noteInPlace]
              rfl

theorem run_startInPlace (generator : Generator) :
    startInPlace.run generator =
      (atomically fun now => (liftM now.startHeap : Except Error _)).run generator := by
  unfold startInPlace
  rw [EStateM.run_bind, run_atomically, startHeap]
  cases ended : generator.exhausted with
  | true =>
      rw [run_takeCountInPlace_of_exhausted ended, takeCount, if_pos ended]
      rfl
  | false =>
      rw [run_takeCountInPlace_of_running ended, takeCount_of_running ended]
      rfl

theorem run_endInPlace (generator : Generator) :
    endInPlace.run generator =
      (atomically fun now => (liftM now.endHeap : Except Error _)).run generator := by
  unfold endInPlace
  rw [EStateM.run_bind, run_atomically, endHeap]
  cases ended : generator.exhausted with
  | true =>
      rw [run_takeCountInPlace_of_exhausted ended, takeCount, if_pos ended]
      rfl
  | false =>
      rw [run_takeCountInPlace_of_running ended, takeCount_of_running ended]
      rfl

/-! ## Calls that succeed and calls that fail -/

variable {next : Generator} {heap : Heap} {group : Group} {descriptors data : Selection}
  {cause : Error}

theorem heapInPlace_eq_ok
    (made : (heapInPlace group descriptors data).run generator = .ok heap next) :
    ∃ descriptorCarriers valueCarriers,
      generator.Makes group descriptors data descriptorCarriers valueCarriers heap next := by
  rw [run_heapInPlace, atomically_eq_ok_iff] at made
  exact Generator.heap_eq_ok made

theorem heapInPlace_eq_error
    (failed : (heapInPlace group descriptors data).run generator = .error cause next) :
    next = generator := by
  rw [run_heapInPlace, atomically_eq_error_iff] at failed
  exact failed.2

theorem startInPlace_eq_error (failed : startInPlace.run generator = .error cause next) :
    next = generator := by
  rw [run_startInPlace, atomically_eq_error_iff] at failed
  exact failed.2

theorem endInPlace_eq_error (failed : endInPlace.run generator = .error cause next) :
    next = generator := by
  rw [run_endInPlace, atomically_eq_error_iff] at failed
  exact failed.2

theorem counted_of_startInPlace (made : startInPlace.run generator = .ok heap next) :
    generator.exhausted = false ∧ next = generator.counted := by
  unfold startInPlace at made
  cases ended : generator.exhausted with
  | true =>
      rw [EStateM.run_bind, run_takeCountInPlace_of_exhausted ended] at made
      cases made
  | false =>
      rw [EStateM.run_bind, run_takeCountInPlace_of_running ended] at made
      cases made
      exact ⟨rfl, rfl⟩

theorem counted_of_endInPlace (made : endInPlace.run generator = .ok heap next) :
    generator.exhausted = false ∧ next = { generator.counted with exhausted := true } := by
  unfold endInPlace at made
  cases ended : generator.exhausted with
  | true =>
      rw [EStateM.run_bind, run_takeCountInPlace_of_exhausted ended] at made
      cases made
  | false =>
      rw [EStateM.run_bind, run_takeCountInPlace_of_running ended] at made
      cases made
      exact ⟨rfl, rfl⟩

section Exhausted

variable (ended : generator.exhausted = true)

include ended

theorem run_heapInPlace_of_exhausted (group : Group) (descriptors data : Selection) :
    (heapInPlace group descriptors data).run generator =
      .error ItemError.generatorExhausted generator := by
  unfold heapInPlace
  rw [EStateM.run_bind, EStateM.run_get]
  dsimp only
  rw [if_pos ended]
  rfl

theorem run_startInPlace_of_exhausted :
    startInPlace.run generator = .error ItemError.generatorExhausted generator := by
  unfold startInPlace
  rw [EStateM.run_bind, run_takeCountInPlace_of_exhausted ended]

theorem run_endInPlace_of_exhausted :
    endInPlace.run generator = .error ItemError.generatorExhausted generator := by
  unfold endInPlace
  rw [EStateM.run_bind, run_takeCountInPlace_of_exhausted ended]

end Exhausted

end Steps

end Generator
end Spead
