/-
ModeSchedule.Proofs.Search.Branching — the children of a candidate, and the cut of an extension.

A candidate gets one child for each mode that the switching allows after its schedule, in the
order of the modes (`Extension.offspring`).

An extension takes the candidates in their order. The stopwatch is asked after each of them
(`Extension.stopsAfter`), and what the clock shows then depends on the steps made so far only
(`Extension.clockAfter`). `Extension.grow_course` says all that an extension can do: there is a
number of candidates that it extends completely, and it ends after them because there are no
more, because the stopwatch has expired, or because the next one has no mode to go on with.
-/
import ModeSchedule.Proofs.Canonical
import ModeSchedule.Search.Extension

namespace ModeSchedule

variable {K S R A : Type} [Scalar K]

/-! ## Children -/

theorem tick_add {K : Type} [Add K] (length : K) (m n : Nat) (clock : K) :
    tick length (m + n) clock = tick length n (tick length m clock) := by
  induction m generalizing clock with
  | zero => rw [Nat.zero_add]; rfl
  | succ m ih => rw [Nat.succ_add, tick, tick, ih]

namespace Extension

variable {w : Workspace K S R A} {switching : Switching} {stride : Nat}
  {watch : Option (Stopwatch K)} {partials rest : List (Solution K S R)} {s : Solution K S R}
  {clock : K} {k : Nat} {e : Extension K S R}

theorem cost_eq_sum {K S R : Type} (runs : List (Run K S R)) :
    cost runs = (runs.map Run.steps).sum := by
  induction runs with
  | nil => rfl
  | cons r runs ih => rw [cost, ih, List.map_cons, List.sum_cons]

theorem cost_append {K S R : Type} (runs others : List (Run K S R)) :
    cost (runs ++ others) = cost runs + cost others := by
  simp [cost_eq_sum]

/-- The runs of a candidate, one for each mode that the switching allows. -/
def offspring (w : Workspace K S R A) (switching : Switching) (stride : Nat)
    (s : Solution K S R) : List (Run K S R) :=
  (w.modes.zipIdx.filter fun x => switching.allows s.schedule x.2).map fun x =>
    Run.advance w.problem x.1.dynamics x.2 stride s

/-- The children of candidates, in the order of their parents. -/
def childrenOf (w : Workspace K S R A) (switching : Switching) (stride : Nat)
    (xs : List (Solution K S R)) : List (Solution K S R) :=
  (xs.flatMap (offspring w switching stride)).map Run.solution

theorem childrenOf_cons (s : Solution K S R) (xs : List (Solution K S R)) :
    childrenOf w switching stride (s :: xs) =
      (offspring w switching stride s).map Run.solution ++ childrenOf w switching stride xs := by
  rw [childrenOf, List.flatMap_cons, List.map_append, childrenOf]

theorem mem_childrenOf {xs : List (Solution K S R)} {c : Solution K S R} :
    c ∈ childrenOf w switching stride xs ↔
      ∃ s ∈ xs, ∃ run ∈ offspring w switching stride s, run.solution = c := by
  simp only [childrenOf, List.mem_map, List.mem_flatMap]
  constructor
  · rintro ⟨run, ⟨s, hs, hrun⟩, hc⟩
    exact ⟨s, hs, run, hrun, hc⟩
  · rintro ⟨s, hs, run, hrun, hc⟩
    exact ⟨run, ⟨s, hs, hrun⟩, hc⟩

theorem mem_offspring {run : Run K S R} : run ∈ offspring w switching stride s ↔
    ∃ i m, w.modes[i]? = some m ∧ switching.allows s.schedule i = true ∧
      Run.advance w.problem m.dynamics i stride s = run := by
  simp only [offspring, List.mem_map, List.mem_filter, List.mem_zipIdx_iff_getElem?, Prod.exists]
  constructor
  · rintro ⟨m, i, ⟨hm, hallows⟩, hrun⟩
    exact ⟨i, m, hm, hallows, hrun⟩
  · rintro ⟨i, m, hm, hallows, hrun⟩
    exact ⟨m, i, ⟨hm, hallows⟩, hrun⟩

theorem branch_filter (w : Workspace K S R A) (switching : Switching) (stride : Nat)
    (s : Solution K S R) :
    branch w stride s ((List.range w.modes.length).filter (switching.allows s.schedule)) =
      offspring w switching stride s := by
  unfold branch offspring
  rw [List.range_eq_range', ← List.zipIdx_map_snd 0 w.modes, List.filter_map, List.filterMap_map,
    ← List.filterMap_eq_map]
  refine List.filterMap_congr fun x hx => ?_
  have hmode := List.mem_zipIdx_iff_getElem?.mp (List.mem_filter.mp hx).1
  simp [hmode]

/-- The runs by the modes that a candidate may go on with. -/
theorem branch_eq_offspring {js : List Nat}
    (hjs : switching.candidates w.modes.length s.schedule = .ok js) :
    branch w stride s js = offspring w switching stride s := by
  rcases switching.candidates_cases w.modes.length s.schedule with ⟨hok, -⟩ | ⟨_, herror, -⟩
  · obtain rfl := Except.ok.inj (hjs.symm.trans hok)
    exact branch_filter w switching stride s
  · rw [herror] at hjs
    cases hjs

/-! ## The cut -/

/-- What the clock shows when the first `k` candidates have been extended. -/
def clockAfter (w : Workspace K S R A) (switching : Switching) (stride : Nat)
    (partials : List (Solution K S R)) (clock : K) (k : Nat) : K :=
  tick w.stepCost (cost ((partials.take k).flatMap (offspring w switching stride))) clock

/-- The stopwatch has expired when it is asked after the first `k` candidates; it is not asked
before the first one. -/
def stopsAfter (w : Workspace K S R A) (switching : Switching) (stride : Nat)
    (watch : Option (Stopwatch K)) (partials : List (Solution K S R)) (clock : K) : Nat → Bool
  | 0 => false
  | k + 1 => watch.any (Stopwatch.expired (clockAfter w switching stride partials clock (k + 1)))

theorem clockAfter_one : clockAfter w switching stride (s :: rest) clock 1 =
    tick w.stepCost (cost (offspring w switching stride s)) clock := by
  simp [clockAfter]

theorem clockAfter_succ (k : Nat) : clockAfter w switching stride (s :: rest) clock (k + 1) =
    clockAfter w switching stride rest
      (tick w.stepCost (cost (offspring w switching stride s)) clock) k := by
  unfold clockAfter
  rw [List.take_succ_cons, List.flatMap_cons, cost_append, tick_add]

/-- Once the first candidate has passed, the others count from there. -/
theorem stopsAfter_succ (hpass : stopsAfter w switching stride watch (s :: rest) clock 1 = false)
    (k : Nat) : stopsAfter w switching stride watch (s :: rest) clock (k + 1) =
      stopsAfter w switching stride watch rest
        (tick w.stepCost (cost (offspring w switching stride s)) clock) k := by
  cases k with
  | zero => exact hpass
  | succ k => rw [stopsAfter, stopsAfter, clockAfter_succ]

/-- The course of an extension that ends after the first `k` candidates. -/
structure Course (w : Workspace K S R A) (switching : Switching) (stride : Nat)
    (watch : Option (Stopwatch K)) (partials : List (Solution K S R)) (clock : K) (k : Nat)
    (e : Extension K S R) : Prop where
  le : k ≤ partials.length
  children : e.children = childrenOf w switching stride (partials.take k)
  time : e.clock = clockAfter w switching stride partials clock k
  able : ∀ s ∈ partials.take k, ∃ js, switching.candidates w.modes.length s.schedule = .ok js
  passed : ∀ j < k, stopsAfter w switching stride watch partials clock j = false
  done : e.ending = .done →
    k = partials.length ∧ stopsAfter w switching stride watch partials clock k = false
  expired : e.ending = .expired → stopsAfter w switching stride watch partials clock k = true
  failed : ∀ cause, e.ending = .failed cause →
    stopsAfter w switching stride watch partials clock k = false ∧
      ∃ s, partials[k]? = some s ∧ switching.candidates w.modes.length s.schedule = .error cause

/-- An extension that gets past its first candidate goes on with the others. -/
theorem Course.cons (hs : ∃ js, switching.candidates w.modes.length s.schedule = .ok js)
    (hpass : stopsAfter w switching stride watch (s :: rest) clock 1 = false)
    (h : Course w switching stride watch rest
      (tick w.stepCost (cost (offspring w switching stride s)) clock) k e) :
    Course w switching stride watch (s :: rest) clock (k + 1)
      { e with children := (offspring w switching stride s).map Run.solution ++ e.children } where
  le := Nat.succ_le_succ h.le
  children := by
    rw [h.children, List.take_succ_cons, childrenOf_cons]
  time := h.time.trans (clockAfter_succ k).symm
  able := by
    rw [List.take_succ_cons, List.forall_mem_cons]
    exact ⟨hs, h.able⟩
  passed := by
    intro j hj
    cases j with
    | zero => rfl
    | succ j =>
      rw [stopsAfter_succ hpass]
      exact h.passed j (Nat.lt_of_succ_lt_succ hj)
  done := by
    intro hdone
    rw [stopsAfter_succ hpass, List.length_cons, Nat.succ_inj]
    exact h.done hdone
  expired := by
    intro hexpired
    rw [stopsAfter_succ hpass]
    exact h.expired hexpired
  failed := by
    intro cause hfailed
    rw [stopsAfter_succ hpass, List.getElem?_cons_succ]
    exact h.failed cause hfailed

/-- **All that an extension can do.** -/
theorem grow_course (w : Workspace K S R A) (switching : Switching) (stride : Nat)
    (watch : Option (Stopwatch K)) (partials : List (Solution K S R)) (clock : K) :
    ∃ k, Course w switching stride watch partials clock k
      (grow w switching stride watch partials clock) := by
  induction partials generalizing clock with
  | nil => exact ⟨0, by constructor <;> simp [grow, childrenOf, clockAfter, stopsAfter, cost, tick]⟩
  | cons s rest ih =>
    cases hs : switching.candidates w.modes.length s.schedule with
    | error cause =>
      refine ⟨0, ?_⟩
      constructor <;> simp [grow, hs, childrenOf, clockAfter, stopsAfter, cost, tick]
    | ok js =>
      have hbranch : branch w stride s js = offspring w switching stride s :=
        branch_eq_offspring hs
      have hone : stopsAfter w switching stride watch (s :: rest) clock 1 =
          watch.any (Stopwatch.expired
            (tick w.stepCost (cost (offspring w switching stride s)) clock)) := by
        rw [stopsAfter, clockAfter_one]
      cases hstop : stopsAfter w switching stride watch (s :: rest) clock 1 with
      | true =>
        rw [hone] at hstop
        refine ⟨1, ?_⟩
        constructor <;> simp [grow, hs, hbranch, hstop, childrenOf, clockAfter_one, stopsAfter]
      | false =>
        -- The others start at what the clock shows after the first candidate.
        obtain ⟨k, hcourse⟩ := ih (tick w.stepCost (cost (offspring w switching stride s)) clock)
        refine ⟨k + 1, ?_⟩
        have hgrow := hcourse.cons ⟨js, hs⟩ hstop
        rw [hone] at hstop
        simpa only [grow, hs, hbranch, hstop, Bool.false_eq_true, if_false] using hgrow

end Extension
end ModeSchedule
