/-
ModeSchedule.Rate — the one-dimensional domain.

The state is a number that a mode changes at a fixed rate. A step uses energy
in proportion to the size of the rate. The distance is what the state still
lacks of the target.
-/
import ModeSchedule.Usage

namespace ModeSchedule.Rate

variable {K : Type} [Scalar K]

abbrev Candidate (K : Type) := Solution K K (Usage K)

/-- What a state lacks of the target. -/
def remaining (settings : Settings K K) (state : K) : K := settings.targetState - state

def distance (settings : Settings K K) (s : Candidate K) : K := remaining settings s.state

/-- One step at a rate. -/
def step (settings : Settings K K) (rate : K) (s : Candidate K) : Candidate K :=
  let moved : Candidate K := { s with
    state := s.state + rate * settings.timeDelta
    resources :=
      { energy := s.resources.energy + Scalar.abs rate * settings.timeDelta
        time := s.resources.time + settings.timeDelta } }
  { moved with distance := some (distance settings moved) }

def blendState (a b : K) (relative : K) : K := a + relative * (b - a)

/-- The domain under given settings. -/
def problem (settings : Settings K K) : Problem K K (Usage K) K :=
  UsageOrder.byValue.problem settings (distance settings) (step settings) blendState

end ModeSchedule.Rate
