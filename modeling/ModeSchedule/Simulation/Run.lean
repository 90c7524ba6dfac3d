/-
ModeSchedule.Simulation.Run — running modes step by step.

* `Run.advance` applies one mode up to a number of times and stops at the first
  step that completes the candidate, with the overshoot corrected.
* `Run.replay` runs a whole schedule the same way from the initial state.
* `Run.trajectory` records every step of a single mode, uncorrected.

A run also tells how many elementary steps it took, which is what the clock of
a search is charged for.
-/
import ModeSchedule.Simulation.Overshoot

namespace ModeSchedule

/-- The outcome of running modes: the candidate at the end, the elementary
steps taken, and whether the last of them completed the candidate. -/
structure Run (K S R : Type) where
  solution : Solution K S R
  steps : Nat
  completed : Bool
deriving Repr

namespace Run

variable {K S R A : Type} [Scalar K]

/-- One elementary step of a mode, noted in the schedule. -/
def stepped (P : Problem K S R A) (dynamics : A) (mode : Nat) (s : Solution K S R) :
    Solution K S R :=
  let t := P.step dynamics s
  { t with schedule := t.schedule.append mode }

/-- Apply a mode up to a number of times, stopping where the candidate is
complete. -/
def advance (P : Problem K S R A) (dynamics : A) (mode : Nat) :
    Nat → Solution K S R → Run K S R
  | 0, s => ⟨s, 0, false⟩
  | n + 1, s =>
    let next := stepped P dynamics mode s
    if P.complete next then ⟨Overshoot.settle P s next, 1, true⟩
    else
      let rest := advance P dynamics mode n next
      { rest with steps := rest.steps + 1 }

/-- Run the entries of a schedule one after the other, stopping where the
candidate is complete. -/
def follow (P : Problem K S R A) (modes : List (Mode A)) :
    Schedule → Solution K S R → Run K S R
  | [], s => ⟨s, 0, false⟩
  | e :: entries, s =>
    match modes[e.mode]? with
    | none => ⟨s, 0, false⟩
    | some m =>
      let run := advance P m.dynamics e.mode e.times s
      if run.completed then run
      else
        let rest := follow P modes entries run.solution
        { rest with steps := run.steps + rest.steps }

/-- Every entry names a mode of the list. -/
def checkModes (modes : List (Mode A)) (schedule : Schedule) : Except PlanError Unit :=
  match schedule.find? fun e => modes.length ≤ e.mode with
  | some e => .error (.unknownMode e.mode modes.length)
  | none => .ok ()

/-- Replay a schedule from the initial state. A mode that is out of range is an
error wherever it stands, also behind the step that completes the candidate. -/
def replay (P : Problem K S R A) (modes : List (Mode A)) (schedule : Schedule) :
    Except PlanError (Run K S R) := do
  checkModes modes schedule
  return follow P modes schedule P.start

/-- The candidates after each step of a mode, up to a number of steps or the
first complete one; none if the first candidate is complete already. -/
def trajectory (P : Problem K S R A) (dynamics : A) :
    Nat → Solution K S R → List (Solution K S R)
  | 0, _ => []
  | n + 1, s =>
    if P.complete s then []
    else
      let next := P.step dynamics s
      next :: trajectory P dynamics n next

end Run

/-! ## Requests -/

namespace Simulation

variable {K S R A : Type} [Scalar K]

/-- Apply a mode to a candidate, noting it under `label`. -/
def applyMode (problem : Option (Problem K S R A)) (dynamics : A) (label : Nat)
    (steps : Given K) (s : Solution K S R) : Except PlanError (Run K S R) := do
  let P ← requireProblem problem
  requirePositive .steps steps
  let run := Run.advance P dynamics label (← requireCount steps) s
  requireMeasured P [run.solution]
  return run

/-- One step of a mode; the schedule is not touched. -/
def applyStep (problem : Option (Problem K S R A)) (dynamics : A) (s : Solution K S R) :
    Except PlanError (Solution K S R) := do
  let P ← requireProblem problem
  let next := P.step dynamics s
  requireMeasured P [next]
  return next

/-- Replay a schedule. -/
def replay (problem : Option (Problem K S R A)) (modes : List (Mode A)) (schedule : Schedule) :
    Except PlanError (Run K S R) := do
  let P ← requireProblem problem
  let run ← Run.replay P modes schedule
  requireMeasured P [run.solution]
  return run

/-- Record the steps of a single mode from the initial state. -/
def trajectory (problem : Option (Problem K S R A)) (dynamics : A) (steps : Given K) :
    Except PlanError (List (Solution K S R)) := do
  let P ← requireProblem problem
  requirePositive .steps steps
  let run := Run.trajectory P dynamics (← requireCount steps) P.start
  requireMeasured P run
  return run

end Simulation
end ModeSchedule
