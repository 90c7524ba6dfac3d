/-
ModeSchedule.Solution — candidates, fronts and results.

A candidate carries the schedule that was simulated, the state and the
resources it led to, and how far the target still is. The type of states and
that of resources belong to the problem; planning only hands them on.
-/
import ModeSchedule.Schedule
import ModeSchedule.Scalar

namespace ModeSchedule

/-- A candidate trajectory, possibly incomplete. -/
structure Solution (K S R : Type) where
  schedule : Schedule
  state : S
  resources : R
  /-- What is left to the target, signed; `none` where nothing has been
  measured, which counts as infinitely far. -/
  distance : Option K
deriving Repr

/-- Candidates as sorting orders them: two that share a schedule never compare,
others by their resources. -/
def Solution.precedes {K S R : Type} (lighter : R → R → Bool) (a b : Solution K S R) : Bool :=
  a.schedule != b.schedule && lighter a.resources b.resources

/-- What one level of a search found: the accepted candidates, the simulated
time of a block of steps and how many steps that is, the rounds performed and
the time they took. -/
structure Front (K S R : Type) where
  solutions : List (Solution K S R) := []
  stepLength : K
  stride : Nat := 0
  rounds : Nat := 0
  runtime : K
deriving Repr

namespace Front

variable {K S R : Type} [Scalar K]

/-- The front of a search that has not begun. -/
def empty : Front K S R := { stepLength := 0, runtime := 0 }

end Front

/-- The fronts of a search, coarsest level first. -/
abbrev Outcome (K S R : Type) := List (Front K S R)

namespace Outcome

variable {K S R : Type} [Scalar K]

/-- The runtimes of all fronts, added from the first to the last. -/
def totalRuntime (o : Outcome K S R) : K :=
  o.foldl (fun t f => t + f.runtime) 0

/-- The front of the finest level. -/
def finest? (o : Outcome K S R) : Option (Front K S R) := o.getLast?

end Outcome
end ModeSchedule
