/-
ModeSchedule.Problem — what a domain tells the planner.

A problem says how a mode advances a candidate, when a candidate has reached
the target, how candidates compare and how to interpolate inside a step. The
planner learns about the domain through these functions alone.

`Problem.Local` singles out the problems whose functions look at nothing but
state and resources, so that a schedule can be replayed.
-/
import ModeSchedule.Solution

namespace ModeSchedule

/-- The fixed data of a search. Lengths are in simulated seconds, the timeout
in seconds of the clock; no timeout and a timeout of zero both mean that the
search may take as long as it likes. -/
structure Settings (K S : Type) where
  initialState : S
  targetState : S
  timeDelta : K
  timeMax : K
  threshold : K
  timeout : Option K := none
  interactive : Bool := false
deriving Repr

/-- Why a state cannot be measured. -/
inductive Misfit where
  /-- It comes from parts whose sizes do not go together. -/
  | shape
  /-- It lacks a component that is needed. -/
  | short
  /-- The component that is needed is no number. -/
  | kind
deriving Repr, DecidableEq

/-- A domain: states `S`, resources `R`, and the dynamics `A` of a mode. -/
structure Problem (K S R A : Type) where
  settings : Settings K S
  /-- Advance a candidate by one elementary step. -/
  step : A → Solution K S R → Solution K S R
  complete : Solution K S R → Bool
  distance : Solution K S R → K
  /-- Exact dominance. -/
  strictlyBetter : Solution K S R → Solution K S R → Bool
  /-- Heuristic dominance, for pruning what is not complete yet. -/
  probablyBetter : Solution K S R → Solution K S R → Bool
  /-- The equality that deduplication uses. -/
  same : Solution K S R → Solution K S R → Bool
  /-- The order of resources that sorting uses. -/
  lighter : R → R → Bool
  blendResources : R → R → K → R
  blendState : S → S → K → S
  noResources : R
  /-- Why a state cannot be measured, if it cannot. Such a state counts as
  complete, so that nothing goes on from it, and a request that comes upon one
  is refused. -/
  misfit? : S → Option Misfit := fun _ => none
  /-- One number for a bundle of resources. -/
  cost : R → K

/-- A mode: its position in the list handed to the planner, and its dynamics. -/
structure Mode (A : Type) where
  id : Nat
  dynamics : A
deriving Repr

namespace Problem

variable {K S R A : Type} [Scalar K]

/-- A candidate at the initial state that has used nothing yet. -/
def start (P : Problem K S R A) (schedule : Schedule := []) : Solution K S R :=
  { schedule, state := P.settings.initialState, resources := P.noResources, distance := none }

/-- The seed of a search that begins with a mode. -/
def seed (P : Problem K S R A) (mode : Nat) : Solution K S R :=
  P.start [⟨mode, 0⟩]

/-- Candidates as sorting orders them. -/
def precedes (P : Problem K S R A) (a b : Solution K S R) : Bool :=
  Solution.precedes P.lighter a b

/-- How many blocks of a given length fit into the horizon. -/
def blocksWithin (P : Problem K S R A) (length : K) : Except NoInteger Nat :=
  (Scalar.truncate (P.settings.timeMax / length)).map Int.toNat

/-- How many elementary steps fit into the horizon, but at least one. -/
def maxSteps (P : Problem K S R A) : Except NoInteger Nat :=
  (P.blocksWithin P.settings.timeDelta).map (max 1)

/-- Two candidates that a replay cannot tell apart. -/
def Agree (a b : Solution K S R) : Prop :=
  a.state = b.state ∧ a.resources = b.resources

/-- The functions of the problem look at state and resources only. A step leaves
the schedule alone; the distance it may measure anew or leave as it was. -/
structure Local (P : Problem K S R A) : Prop where
  complete_agree : ∀ {a b}, Agree a b → P.complete a = P.complete b
  distance_agree : ∀ {a b}, Agree a b → P.distance a = P.distance b
  step_agree : ∀ {m a b}, Agree a b → Agree (P.step m a) (P.step m b)
  step_distance : ∀ {m a b}, Agree a b → a.distance = b.distance →
    (P.step m a).distance = (P.step m b).distance
  step_schedule : ∀ m a, (P.step m a).schedule = a.schedule

end Problem
end ModeSchedule
