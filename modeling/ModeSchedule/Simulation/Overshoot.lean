/-
ModeSchedule.Simulation.Overshoot — where inside a step the target is reached.

The step that completes a candidate usually goes past the target. The interval
of that step is scanned from its start, in equal increments that are the finer
the further the start lies from the tolerance band, and the first interpolated
point that is complete replaces the end of the step. Where no point qualifies,
the end of the step stands.
-/
import ModeSchedule.Problem
import ModeSchedule.PlanError

namespace ModeSchedule.Overshoot

variable {K S R A : Type} [Scalar K]

/-- The distance that a candidate carries, if that is a finite number. -/
def carriedDistance? (s : Solution K S R) : Option K :=
  s.distance.filter Scalar.isFinite

/-- How far the start of the step is from the target: the distance it carries or
else a fresh measurement. -/
def startDistance (P : Problem K S R A) (previous : Solution K S R) : K :=
  (carriedDistance? previous).getD (P.distance previous)

/-- The distance in thresholds, but at least one. -/
def refinement (P : Problem K S R A) (previous : Solution K S R) : K :=
  Scalar.larger 1 (Scalar.abs (startDistance P previous) / P.settings.threshold)

/-- The time between two points of the scan. -/
def increment (P : Problem K S R A) (previous : Solution K S R) : K :=
  P.settings.timeDelta / (10 * refinement P previous)

/-- Enough points for the whole step: the increments that fit into it, the
start, and two more for increments whose sum falls short of the step. -/
def pointBound (P : Problem K S R A) (previous : Solution K S R) : Nat :=
  match Scalar.truncate (P.settings.timeDelta / increment P previous) with
  | .ok n => n.toNat + 3
  | .error _ => 1

/-- The point at a relative position inside the step: the end of the step with
interpolated state and resources. -/
def pointAt (P : Problem K S R A) (previous current : Solution K S R) (relative : K) :
    Solution K S R :=
  { current with
    resources := P.blendResources previous.resources current.resources relative
    state := P.blendState previous.state current.state relative }

/-- The first accepted instant among `t`, `t + gap`, `t + gap + gap`, … that
is not after `last`, of at most as many as the first argument says. -/
def firstInstant? (accept : K → Bool) (last gap : K) : Nat → K → Option K
  | 0, _ => none
  | n + 1, t =>
    if t ≤ last then
      if accept t then some t else firstInstant? accept last gap n (t + gap)
    else none

/-- The first complete point of the scan. -/
def firstComplete? (P : Problem K S R A) (previous current : Solution K S R) :
    Option (Solution K S R) :=
  let length := P.settings.timeDelta
  let point (t : K) := pointAt P previous current (t / length)
  (firstInstant? (fun t => P.complete (point t)) length (increment P previous)
    (pointBound P previous) 0).map fun t =>
      { point t with distance := some (P.distance (point t)) }

/-- The corrected end of the step from `previous` to `current`. -/
def settle (P : Problem K S R A) (previous current : Solution K S R) : Solution K S R :=
  (firstComplete? P previous current).getD current

/-- The same for a request that may come without a problem or with states that
cannot be measured; also tells whether the end of the step stands. -/
def correct? (problem : Option (Problem K S R A)) (previous current : Solution K S R) :
    Except PlanError (Solution K S R × Bool) := do
  let P ← requireProblem problem
  if (carriedDistance? previous).isNone then requireMeasured P [previous]
  requireMeasured P [pointAt P previous current 0]
  return (settle P previous current, (firstComplete? P previous current).isNone)

end ModeSchedule.Overshoot
