/-
ModeSchedule.Archive.Encode — results and settings as values to be saved.

Distances are not saved: they follow from the settings and the state.
-/
import ModeSchedule.Timespec
import ModeSchedule.Usage

namespace ModeSchedule

variable {K S R : Type} [Scalar K]

def Entry.toJson (e : Entry) : Json K :=
  .obj [("mode", .int e.mode), ("times", .int e.times)]

def Usage.toJson (u : Usage K) : Json K :=
  .obj [("energy", .real u.energy), ("time", .real u.time)]

/-- A candidate without its distance. -/
def Solution.toJson (state : S → Json K) (resources : R → Json K) (s : Solution K S R) : Json K :=
  .obj
    [("sequence", .arr (s.schedule.map Entry.toJson)),
     ("state", state s.state),
     ("resources", resources s.resources)]

def Front.toJson (state : S → Json K) (resources : R → Json K) (f : Front K S R) : Json K :=
  .obj
    [("solutions", .arr (f.solutions.map (Solution.toJson state resources))),
     ("step_length", .real f.stepLength),
     ("steps_per_iteration", .int f.stride),
     ("iteration", .int f.rounds),
     ("runtime", .real f.runtime)]

def Outcome.toJson (state : S → Json K) (resources : R → Json K) (o : Outcome K S R) : Json K :=
  .obj [("pareto_fronts", .arr (o.map (Front.toJson state resources)))]

/-- The settings, unless the limit has no whole seconds. -/
def Settings.toJson (state : S → Json K) (s : Settings K S) : Except NoInteger (Json K) := do
  let limit ← Timespec.ofLimit s.timeout
  return .obj
    [("initial_state", state s.initialState),
     ("target_state", state s.targetState),
     ("time_delta", .real s.timeDelta),
     ("time_max", .real s.timeMax),
     ("threshold", .real s.threshold),
     ("timeout", limit.toJson),
     ("interactive", .bool s.interactive)]

/-- A mode with the parameters it was made from. -/
def modeToJson (id : Nat) (system input parameters : Json K) : Json K :=
  .obj
    [("parameters", parameters),
     ("mode", .obj [("id", .int id), ("system", system), ("input", input)])]

end ModeSchedule
