/-
ModeSchedule.Search.Extension — growing candidates by one block of steps.

Each candidate gets one child per mode it may go on with. Under a stopwatch the
extension ends after the first candidate at which the limit is found reached;
the children made so far count.
-/
import ModeSchedule.Simulation.Run
import ModeSchedule.Search.Algorithm
import ModeSchedule.Stopwatch

namespace ModeSchedule

/-- What a search works on, and what an elementary step adds to its clock. -/
structure Workspace (K S R A : Type) where
  problem : Problem K S R A
  modes : List (Mode A)
  stepCost : K

/-- Why an extension ended: all candidates were extended, the stopwatch
expired, or a candidate has no mode to go on with. -/
inductive Ending where
  | done
  | expired
  | failed (cause : PlanError)
deriving Repr, DecidableEq

/-- The children of a list of candidates, in the order of their parents, and
the clock when the last one was made. -/
structure Extension (K S R : Type) where
  children : List (Solution K S R)
  clock : K
  ending : Ending
deriving Repr

namespace Extension

variable {K S R A : Type} [Scalar K]

/-- One run per mode, each starting at the candidate. -/
def branch (w : Workspace K S R A) (stride : Nat) (s : Solution K S R) (modes : List Nat) :
    List (Run K S R) :=
  modes.filterMap fun i => (w.modes[i]?).map fun m =>
    Run.advance w.problem m.dynamics i stride s

/-- Elementary steps of a list of runs. -/
def cost : List (Run K S R) → Nat
  | [] => 0
  | r :: runs => r.steps + cost runs

/-- Extend candidates one after the other. -/
def grow (w : Workspace K S R A) (switching : Switching) (stride : Nat)
    (watch : Option (Stopwatch K)) : List (Solution K S R) → K → Extension K S R
  | [], clock => ⟨[], clock, .done⟩
  | s :: rest, clock =>
    match switching.candidates w.modes.length s.schedule with
    | .error cause => ⟨[], clock, .failed cause⟩
    | .ok modes =>
      let runs := branch w stride s modes
      let children := runs.map Run.solution
      let clock := tick w.stepCost (cost runs) clock
      if watch.any (Stopwatch.expired clock) then ⟨children, clock, .expired⟩
      else
        let others := grow w switching stride watch rest clock
        { others with children := children ++ others.children }

end Extension

namespace Search

variable {K S R A : Type} [Scalar K]

/-- The stride for extending a list of candidates. Without candidates there is
nothing to count, and a candidate that cannot go on is found before that. -/
def strideFor (modes : List (Mode A)) (switching : Switching) (stride : Given K)
    (partials : List (Solution K S R)) : Except PlanError Nat :=
  match stride.integer?, partials with
  | some n, _ => .ok n.toNat
  | none, [] => .ok 1
  | none, s :: _ => do
    let _ ← switching.candidates modes.length s.schedule
    throw .noCount

/-- Extend a list of candidates on request. -/
def extend (problem : Option (Problem K S R A)) (modes : List (Mode A)) (stepCost : K)
    (switching : Switching) (stride : Given K) (watch : Option (Stopwatch K))
    (partials : List (Solution K S R)) (clock : K) : Except PlanError (Extension K S R) := do
  let problem ← requireProblem problem
  requirePositive .stride stride
  requireModes modes
  let stride ← strideFor modes switching stride partials
  let extension := Extension.grow { problem, modes, stepCost } switching stride
    watch partials clock
  requireMeasured problem extension.children
  return extension

end Search
end ModeSchedule
