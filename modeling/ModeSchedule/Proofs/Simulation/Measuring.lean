/-
ModeSchedule.Proofs.Simulation.Measuring — candidates carry the distance that they have.

In a problem whose steps measure (`Problem.Measures`), a step leaves a candidate with
its own distance, and so does the correction of an overshoot, which measures the point
that it picks (`settle_measured`). A run of at least one step therefore ends with a
measured candidate (`advance_measured`, `replay_measured`).

A search accepts nothing else, and only what is complete (`Search.accepted_arrived`).
In the one-dimensional domain, the distance of a complete candidate is below the
threshold, so it is not infinite (`Rate.distance_of_arrived`).
-/
import ModeSchedule.Proofs.Search.Sweeps
import ModeSchedule.Proofs.Simulation.Locality
import ModeSchedule.Rate

namespace ModeSchedule

variable {K S R A : Type} [Scalar K]

/-- A candidate that carries its distance. -/
def Measured (P : Problem K S R A) (s : Solution K S R) : Prop := s.distance = some (P.distance s)

/-- Every step measures, and what is measured is the state. -/
structure Problem.Measures (P : Problem K S R A) : Prop where
  step_measured : ∀ m s, Measured P (P.step m s)
  distance_eq : ∀ {a b : Solution K S R}, a.state = b.state → P.distance a = P.distance b

theorem Rate.problem_measures (settings : Settings K K) : (Rate.problem settings).Measures where
  step_measured := fun _ _ => rfl
  distance_eq := by
    intro a b h
    show Rate.remaining settings a.state = Rate.remaining settings b.state
    rw [h]

/-! ## Runs -/

variable {P : Problem K S R A} {modes : List (Mode A)}

/-- The corrected end of a measured step is measured. -/
theorem Overshoot.settle_measured (hP : P.Measures) {previous current : Solution K S R}
    (h : Measured P current) : Measured P (settle P previous current) := by
  unfold settle
  cases hfirst : firstComplete? P previous current with
  | none => exact h
  | some point =>
    unfold firstComplete? at hfirst
    obtain ⟨t, -, rfl⟩ := Option.map_eq_some_iff.mp hfirst
    exact congrArg some (hP.distance_eq rfl)

namespace Run

theorem single_measured (hP : P.Measures) (dynamics : A) (i : Nat) (s : Solution K S R) :
    Measured P (single P dynamics i s).solution := by
  have hstep := hP.step_measured dynamics s
  have hstepped : Measured P (stepped P dynamics i s) :=
    hstep.trans (congrArg some (hP.distance_eq rfl))
  simp only [single]
  split
  · exact Overshoot.settle_measured hP hstepped
  · exact hstepped

/-- A run of measured steps ends with a measured candidate if it starts with one, or
takes a step. -/
theorem walk_measured (hP : P.Measures) {word : List Nat} (hword : ∀ i ∈ word, i < modes.length)
    {s : Solution K S R} (h : word ≠ [] ∨ Measured P s) :
    Measured P (walk P modes word s).solution := by
  induction word generalizing s with
  | nil => exact h.resolve_left fun hne => hne rfl
  | cons i word ih =>
    obtain ⟨m, hm⟩ := exists_mode (hword i List.mem_cons_self)
    have hsingle := single_measured hP m.dynamics i s
    rw [walk_cons hm]
    cases hc : (single P m.dynamics i s).completed with
    | true => rwa [andThen_of_completed hc]
    | false =>
      rw [andThen_of_not_completed hc]
      exact ih (fun j hj => hword j (List.mem_cons_of_mem i hj)) (Or.inr hsingle)

theorem advance_measured (hP : P.Measures) {i : Nat} {m : Mode A} (hm : modes[i]? = some m)
    {n : Nat} (hn : 0 < n) (s : Solution K S R) :
    Measured P (advance P m.dynamics i n s).solution := by
  have hi : i < modes.length := (List.getElem?_eq_some_iff.mp hm).1
  have hne : List.replicate n i ≠ [] := by simp [Nat.pos_iff_ne_zero.mp hn]
  rw [advance_eq_walk hm]
  exact walk_measured hP (fun j hj => by rwa [List.eq_of_mem_replicate hj]) (Or.inl hne)

/-- The replay of a schedule of at least one step ends with a measured candidate. -/
theorem replay_measured (hP : P.Measures) {q : Schedule} (hq : q.steps ≠ [])
    {run : Run K S R} (h : replay P modes q = .ok run) : Measured P run.solution := by
  obtain ⟨hrange, rfl⟩ := replay_eq_ok.mp h
  rw [follow_eq_walk hrange]
  exact walk_measured hP (Schedule.steps_inRange hrange) (Or.inl hq)

end Run

/-! ## Searches -/

/-- Candidates that a search may accept: measured and complete. -/
def Arrived (P : Problem K S R A) (s : Solution K S R) : Prop :=
  Measured P s ∧ P.complete s = true

variable {w : Workspace K S R A}

theorem Level.accepted_arrived (hP : w.problem.Measures) {algorithm : Algorithm}
    {resolution : Resolution K} (hstride : 0 < resolution.stride) {watch : Stopwatch K}
    {accepted : List (Solution K S R)} {clock : K} (h : ∀ s ∈ accepted, Arrived w.problem s) :
    ∀ s ∈ (perform w algorithm resolution watch accepted clock).final.accepted,
      Arrived w.problem s := by
  refine perform_invariant (fun _ f => ∀ s ∈ f.accepted, Arrived w.problem s) h ?_
  intro r _ _ now hperform hbefore s hs
  rw [hperform] at hs
  rcases Round.mem_accepted hs with hs | ⟨hs, hcomplete⟩
  · exact hbefore s hs
  · rw [Round.perform_extension] at hs
    obtain ⟨parent, -, i, m, hm, rfl⟩ := Extension.exists_parent hs
    exact ⟨Run.advance_measured hP hm hstride parent, hcomplete⟩

/-- What a granted search accepts is measured and complete. -/
theorem Search.accepted_arrived {stepCost : K} {algorithm : Algorithm} {levels : Given K}
    {script : Script K} {clock : K} {sweep : Sweep K S R} (hP : P.Measures)
    (h : scriptedSweep (some P) modes stepCost algorithm levels script clock = .ok sweep) :
    ∀ front ∈ sweep.outcome, ∀ s ∈ front.solutions, Arrived P s := by
  obtain ⟨plan, hplan, rfl, -, -⟩ := exists_plan_of_sweep h
  have haccepted :
      ∀ stage ∈ (Sweep.perform ⟨P, modes, stepCost⟩ algorithm plan script clock).stages,
        ∀ s ∈ stage.level.final.accepted, Arrived P s := by
    refine Sweep.perform_invariant (fun accepted => ∀ s ∈ accepted, Arrived P s) hplan (by simp) ?_
    intro stage _ before watch now hstride hlevel hbefore
    rw [hlevel]
    exact Level.accepted_arrived (w := ⟨P, modes, stepCost⟩) hP hstride hbefore
  intro front hfront s hs
  obtain ⟨stage, hstage, -, hsolutions⟩ := Sweep.exists_stage_of_outcome hfront
  rw [hsolutions] at hs
  exact haccepted stage hstage s hs

/-! ## Distances in the one-dimensional domain -/

/-- What a measured and complete candidate carries is its distance, which is finite or
negative. -/
theorem Rate.distance_of_arrived [Scalar.Capped K] {settings : Settings K K} {s : Candidate K}
    (h : Arrived (problem settings) s) :
    s.distance = Scalar.bounded? (remaining settings s.state) := by
  obtain ⟨hmeasured, hcomplete⟩ := h
  have hbelow : remaining settings s.state < settings.threshold := of_decide_eq_true hcomplete
  rw [Scalar.bounded?_of_lt hbelow]
  exact hmeasured

end ModeSchedule
