/-
ModeSchedule.Swarm.Particle — particles and how they move.

A particle holds one count per entry of a schedule, each with a velocity. A
move changes the velocities and then the counts, which stay in a box: from one
up to a limit.
-/
import ModeSchedule.Word
import ModeSchedule.Swarm.Parameters
import ModeSchedule.Random.Source

namespace ModeSchedule.Swarm

variable {K : Type} [Scalar K]

/-! ## The box -/

/-- What stands for a count where the number it comes from is undefined: far
below every box. -/
def noCount : Int := Word.least

/-- The nearest count in the box. -/
def clamp (limit n : Int) : Int := min (max n 1) limit

/-- The count in the box that a rule picks for a number, as it can be counted. -/
def toCount (rule : Rat → Int) (limit : Int) (x : K) : Int :=
  match Scalar.exact x with
  | .finite q => Scalar.asCount K (clamp limit (rule q))
  | .infinite negative => Scalar.asCount K (if negative then clamp limit 1 else limit)
  | .undefined => noCount

/-! ## Particles -/

/-- One coordinate of a particle: where it is, how fast it moves, and where it
was when the particle was at its best. -/
structure Gene (K : Type) where
  count : Int
  velocity : K
  best : Int
deriving Repr

/-- A particle and the cost at its best place; `none` if that was no complete
candidate. -/
structure Particle (K : Type) where
  genes : List (Gene K)
  bestFitness : Option K
deriving Repr

namespace Gene

/-- The velocity after a move: what is kept of it, and the pulls of the own best
place and of the leader's. -/
def pulled (p : Parameters K) (leader : Int) (g : Gene K) : K :=
  p.inertia * g.velocity + p.cognitive * Scalar.ofInt (g.best - g.count) +
    p.social * Scalar.ofInt (leader - g.count)

/-- One move. The new count is rounded to the nearest integer and kept in the
box. -/
def move (p : Parameters K) (limit leader : Int) (g : Gene K) : Gene K :=
  let velocity := g.pulled p leader
  { g with velocity, count := toCount nearestEven limit (Scalar.ofInt g.count + velocity) }

/-- A resting gene at a count that a draw moves away from a given one by at most
five, rounded down and kept in the box. -/
def scatter (limit : Int) (count : Nat) (draw : K) : Gene K :=
  let moved := Scalar.larger (Scalar.ofNat count + (draw - 5)) 1
  let count := toCount Rat.floor limit moved
  { count, velocity := 0, best := count }

end Gene

namespace Particle

def counts (p : Particle K) : List Int := p.genes.map Gene.count

/-- Move all genes towards the leader. -/
def move (q : Parameters K) (limit : Int) (leader : List Int) (p : Particle K) : Particle K :=
  { p with genes := List.zipWith (fun l g => Gene.move q limit l g) leader p.genes }

/-- A particle scattered around given counts. -/
def scatter (limit : Int) (counts : List Nat) (draws : List K) : Particle K :=
  { genes := List.zipWith (Gene.scatter limit) counts draws, bestFitness := none }

end Particle

/-- A number of particles scattered around given counts, and what is left of
the source. -/
def scatter {G : Type} (source : Source G K) (particles : Nat) (limit : Int)
    (counts : List Nat) (g : G) : List (Particle K) × G :=
  let (draws, g) := source.grid counts.length particles g
  (draws.map (Particle.scatter limit counts), g)

end ModeSchedule.Swarm
