/-
ModeSchedule.Proofs.Search.Limits — where timeout and pauses enter a search.

`Problem.governed` gives a problem another timeout and says anew whether its
search pauses. No candidate is simulated or compared another way for it, so all
levels stay what they were (`Sweep.runStages_governed`): the timeout only sets
the limit of the stopwatch a sweep starts with, and the other choice only
whether the first level is followed by a pause (`Sweep.stages_governed`). Both
sweeps have the same plan (`Search.planned_governed`), and a request is granted
where that plan has only sound levels.
-/
import ModeSchedule.Proofs.Search.Sweeps

namespace ModeSchedule

variable {K S R A : Type} [Scalar K]

/-- No round of the level fails, and every candidate it compares can be measured. -/
structure Level.Sound (P : Problem K S R A) (l : Level K S R) : Prop where
  succeeds : l.failure? = none
  measured : ∀ s ∈ l.compared, P.misfit? s.state = none

/-- A sound level is followed by the next one unless the user quits or the limit is
reached. -/
theorem Stage.last_of_sound {P : Problem K S R A} {stage : Stage K S R}
    (h : stage.level.Sound P) : stage.last = (stage.quit || stage.expired) := by
  rw [Stage.last, h.succeeds, Option.isSome_none, Bool.or_false]

/-- The problem with a timeout and with or without pauses. -/
def Problem.governed (P : Problem K S R A) (timeout : Option K) (interactive : Bool) :
    Problem K S R A :=
  { P with settings := { P.settings with timeout, interactive } }

section

variable (P : Problem K S R A) (timeout : Option K) (interactive : Bool) (modes : List (Mode A))
  (stepCost : K)

theorem Run.advance_governed :
    Run.advance (P.governed timeout interactive) = Run.advance P := by
  funext dynamics mode n s
  induction n generalizing s with
  | zero => rfl
  | succ n ih =>
    simp only [Run.advance, ih]
    rfl

theorem Extension.grow_governed :
    Extension.grow ⟨P.governed timeout interactive, modes, stepCost⟩ =
      Extension.grow ⟨P, modes, stepCost⟩ := by
  funext switching stride watch partials clock
  induction partials generalizing clock with
  | nil => rfl
  | cons s rest ih => simp only [Extension.grow, Extension.branch, Run.advance_governed, ih]

theorem Round.perform_governed :
    Round.perform ⟨P.governed timeout interactive, modes, stepCost⟩ =
      Round.perform ⟨P, modes, stepCost⟩ := by
  funext algorithm stride watch before clock
  simp only [Round.perform_eq, Extension.grow_governed]
  rfl

theorem Level.runRounds_governed :
    Level.runRounds ⟨P.governed timeout interactive, modes, stepCost⟩ =
      Level.runRounds ⟨P, modes, stepCost⟩ := by
  funext algorithm stride watch n frontier clock
  induction n generalizing frontier clock with
  | zero => rfl
  | succ n ih => simp only [Level.runRounds, Round.perform_governed, ih]

theorem Level.perform_governed :
    Level.perform ⟨P.governed timeout interactive, modes, stepCost⟩ =
      Level.perform ⟨P, modes, stepCost⟩ := by
  funext algorithm resolution watch accepted clock
  simp only [Level.perform, Level.runRounds_governed]
  rfl

/-- The levels of a sweep look at neither choice. -/
theorem Sweep.runStages_governed :
    Sweep.runStages ⟨P.governed timeout interactive, modes, stepCost⟩ =
      Sweep.runStages ⟨P, modes, stepCost⟩ := by
  funext algorithm plan accepted pausing script watch clock
  induction plan generalizing accepted pausing script watch clock with
  | nil => rfl
  | cons resolution plan ih => simp only [Sweep.runStages, Level.perform_governed, ih]

/-- The timeout becomes the limit of the stopwatch, the other choice says whether
the first level is followed by a pause. -/
theorem Sweep.stages_governed (algorithm : Algorithm) (plan : List (Resolution K))
    (script : Script K) (clock : K) :
    (Sweep.perform ⟨P.governed timeout interactive, modes, stepCost⟩ algorithm plan script
        clock).stages =
      Sweep.runStages ⟨P, modes, stepCost⟩ algorithm plan [] interactive script
        (Stopwatch.started timeout clock) clock := by
  rw [← Sweep.runStages_governed P timeout interactive]
  rfl

end

namespace Search

variable {P : Problem K S R A} {timeout : Option K} {interactive : Bool} {modes : List (Mode A)}
  {stepCost : K} {algorithm : Algorithm} {levels : Given K} {script : Script K} {clock : K}
  {strides : List Nat} {plan : List (Resolution K)} {sweep : Sweep K S R}

theorem planned_governed :
    Planned (P.governed timeout interactive) modes algorithm levels strides plan ↔
      Planned P modes algorithm levels strides plan :=
  ⟨fun h => ⟨h.positive, h.nonempty, h.ids, h.counted, h.blocks⟩,
    fun h => ⟨h.positive, h.nonempty, h.ids, h.counted, h.blocks⟩⟩

/-- A granted request has the plan of the problem and performs levels of it, all
of them sound. -/
theorem exists_plan_of_governed
    (h : scriptedSweep (some (P.governed timeout interactive)) modes stepCost algorithm levels
      script clock = .ok sweep) :
    ∃ strides plan, Planned P modes algorithm levels strides plan ∧
      sweep.stages = Sweep.runStages ⟨P, modes, stepCost⟩ algorithm plan [] interactive script
        (Stopwatch.started timeout clock) clock ∧
      ∀ stage ∈ sweep.stages, stage.level.Sound P := by
  obtain ⟨strides, plan, hplanned, rfl, hmeasured, hfailure⟩ := scriptedSweep_eq_ok.mp h
  exact ⟨strides, plan, planned_governed.mp hplanned, Sweep.stages_governed .., fun stage hstage =>
    ⟨List.findSome?_eq_none_iff.mp hfailure stage hstage, hmeasured stage hstage⟩⟩

/-- A request with a plan is granted if all the levels it performs are sound. -/
theorem exists_governed (hplanned : Planned P modes algorithm levels strides plan)
    (hsound : ∀ stage ∈ Sweep.runStages ⟨P, modes, stepCost⟩ algorithm plan [] interactive script
      (Stopwatch.started timeout clock) clock, stage.level.Sound P) :
    ∃ sweep, scriptedSweep (some (P.governed timeout interactive)) modes stepCost algorithm levels
        script clock = .ok sweep ∧
      sweep.stages = Sweep.runStages ⟨P, modes, stepCost⟩ algorithm plan [] interactive script
        (Stopwatch.started timeout clock) clock := by
  have hperformed := Sweep.stages_governed P timeout interactive modes stepCost algorithm plan
    script clock
  refine ⟨_, scriptedSweep_eq_ok.mpr ⟨strides, plan, planned_governed.mpr hplanned, rfl, ?_, ?_⟩,
    hperformed⟩
  · rw [hperformed]
    exact fun stage hstage => (hsound stage hstage).measured
  · unfold Sweep.failure?
    rw [hperformed]
    exact List.findSome?_eq_none_iff.mpr fun stage hstage => (hsound stage hstage).succeeds

end Search
end ModeSchedule
