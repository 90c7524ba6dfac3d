/-
ModeSchedule.Swarm.Parameters — the settings of a particle swarm.
-/
import ModeSchedule.Validation.Check

namespace ModeSchedule.Swarm

/-- How many particles move how often, and the weights of what a particle is
drawn by: its own motion, its own best place, and the best place of all. -/
structure Parameters (K : Type) where
  particles : Nat
  rounds : Nat
  inertia : K
  cognitive : K
  social : K
deriving Repr

namespace Parameters

variable {K : Type} [Scalar K]

/-- The settings that an object says. -/
def check (j : Json K) : Check (Parameters K) :=
  Check.object (fun j =>
    (Check.both (Check.optional "num_particles" 100 Check.positiveNatural j)
      (Check.both (Check.optional "max_iterations" 50 Check.positiveNatural j)
        (Check.both (Check.optional "inertia" (Scalar.ofDecimal 2 (-1)) Check.nonnegative j)
          (Check.both (Check.optional "cognitive" (Scalar.ofDecimal 4 (-1)) Check.nonnegative j)
            (Check.optional "social" (Scalar.ofDecimal 4 (-1)) Check.nonnegative j))))).map
      fun (particles, rounds, inertia, cognitive, social) =>
        { particles, rounds, inertia, cognitive, social }) j

/-- The settings of a swarm that is never used. -/
def idle : Parameters K :=
  { particles := 0, rounds := 0, inertia := 0, cognitive := 0, social := 0 }

def toJson (p : Parameters K) : Json K :=
  .obj
    [("num_particles", .int p.particles),
     ("max_iterations", .int p.rounds),
     ("inertia", .real p.inertia),
     ("cognitive", .real p.cognitive),
     ("social", .real p.social)]

end Parameters
end ModeSchedule.Swarm
