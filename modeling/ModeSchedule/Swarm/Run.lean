/-
ModeSchedule.Swarm.Run — refining the counts of a schedule with a swarm.

The modes of the schedule and their order are kept; only the counts move. In
each round every particle is replayed and measured, the leader is replaced
whenever a particle is strictly better, and then all particles move. The leader
starts as the given candidate, so the outcome is never worse than that.
-/
import ModeSchedule.Swarm.Particle
import ModeSchedule.Simulation.Run

namespace ModeSchedule

/-- Why a refinement fails. -/
inductive SwarmError where
  | plan (cause : PlanError)
  /-- A particle has a negative count. -/
  | negativeCount
  /-- A mode beyond 64 bits, or a count that the number type cannot hold. -/
  | tooWide
  | negativeSeed
deriving Repr, DecidableEq

namespace Swarm

variable {K S R A : Type} [Scalar K]

/-! ## Fitness -/

/-- The cost of a candidate; `none`, the worst of all, unless it is complete. -/
def fitnessOf (P : Problem K S R A) (s : Solution K S R) : Option K :=
  if P.complete s then Scalar.bounded? (P.cost s.resources) else none

/-- Strictly less. Nothing is less than an undefined cost, nor the reverse. -/
def fitter : Option K → Option K → Bool
  | none, _ => false
  | some x, none => Scalar.exact x != .undefined
  | some x, some y => x < y

/-- A cost that is a finite number. -/
def finite : Option K → Bool
  | some x => Scalar.isFinite x
  | none => false

/-- Replay a schedule and measure the outcome. -/
def evaluate (problem : Option (Problem K S R A)) (modes : List (Mode A)) (schedule : Schedule) :
    Except PlanError (Solution K S R × Option K) := do
  let P ← requireProblem problem
  let run ← Run.replay P modes schedule
  requireMeasured P [run.solution]
  return (run.solution, fitnessOf P run.solution)

/-! ## Rounds -/

/-- A particle that has been replayed. -/
structure Trial (K S R : Type) where
  counts : List Int
  solution : Solution K S R
  fitness : Option K
deriving Repr

/-- The best so far. -/
structure Leader (K S R : Type) where
  counts : List Int
  solution : Solution K S R
  fitness : Option K
deriving Repr

/-- One round: all trials in order, and the leader after them. -/
structure Generation (K S R : Type) where
  trials : List (Trial K S R)
  leader : Leader K S R
deriving Repr

/-- A schedule with other counts; none if a count is negative. -/
def withCounts? (order : List Nat) (counts : List Int) : Option Schedule :=
  (order.zip counts).mapM fun x => if x.2 < 0 then none else some ⟨x.1, x.2.toNat⟩

/-- Replay a particle. -/
def trial (P : Problem K S R A) (modes : List (Mode A)) (order : List Nat) (p : Particle K) :
    Except SwarmError (Trial K S R) :=
  match withCounts? order p.counts with
  | none => .error .negativeCount
  | some schedule =>
    match evaluate (some P) modes schedule with
    | .error cause => .error (.plan cause)
    | .ok (solution, fitness) => .ok { counts := p.counts, solution, fitness }

/-- A particle remembers where it was, if that is better than before. -/
def remember (t : Trial K S R) (p : Particle K) : Particle K :=
  if fitter t.fitness p.bestFitness then
    { genes := p.genes.map fun g => { g with best := g.count }, bestFitness := t.fitness }
  else p

/-- A better trial becomes the leader. -/
def lead (l : Leader K S R) (t : Trial K S R) : Leader K S R :=
  if fitter t.fitness l.fitness then ⟨t.counts, t.solution, t.fitness⟩ else l

/-- Trials with a finite cost. -/
def Generation.valid (g : Generation K S R) : Nat :=
  g.trials.countP fun t => finite t.fitness

/-- A number of rounds. -/
def generations (P : Problem K S R A) (modes : List (Mode A)) (q : Parameters K) (limit : Int)
    (order : List Nat) :
    Nat → List (Particle K) → Leader K S R → Except SwarmError (List (Generation K S R))
  | 0, _, _ => .ok []
  | n + 1, particles, leader => do
    let trials ← particles.mapM (trial P modes order)
    let leader := trials.foldl lead leader
    let particles := List.zipWith remember trials particles
    let moved := particles.map (Particle.move q limit leader.counts)
    let rest ← generations P modes q limit order n moved leader
    return { trials, leader } :: rest

/-! ## Runs -/

/-- A refinement: the leader at the start, and the rounds. -/
structure Refinement (K S R : Type) where
  parameters : Parameters K
  start : Leader K S R
  generations : List (Generation K S R)
deriving Repr

namespace Refinement

/-- The leader at the end. -/
def leader (r : Refinement K S R) : Leader K S R :=
  match r.generations.getLast? with
  | some g => g.leader
  | none => r.start

def solution (r : Refinement K S R) : Solution K S R := r.leader.solution

/-- The best cost after each round. -/
def history (r : Refinement K S R) : List (Option K) := r.generations.map fun g => g.leader.fitness

/-- The valid trials of each round. -/
def validCounts (r : Refinement K S R) : List Nat := r.generations.map Generation.valid

end Refinement

/-- The given candidate as a leader. -/
def Leader.ofSolution (P : Problem K S R A) (s : Solution K S R) : Leader K S R :=
  { counts := s.schedule.map fun e => Scalar.asCount K e.times
    solution := s
    fitness := fitnessOf P s }

/-- Refine a candidate. One without a schedule is left alone, and nothing is
drawn for it. -/
def refine {G : Type} (source : Source G K) (P : Problem K S R A) (q : Parameters K)
    (modes : List (Mode A)) (s : Solution K S R) (g : G) :
    Except SwarmError (Refinement K S R × G) := do
  (requireMeasured P [s]).mapError .plan
  let start := Leader.ofSolution P s
  if s.schedule.isEmpty then .ok (⟨q, start, []⟩, g)
  else if s.schedule.any fun e =>
      !Word.signed e.mode || (Scalar.ofInt? e.times : Option K).isNone then
    .error .tooWide
  else
    match P.maxSteps with
    | .error cause => .error (.plan (.horizon cause))
    | .ok limit => do
      let (particles, g) := scatter source q.particles limit (s.schedule.map Entry.times) g
      let rounds ← generations P modes q limit (s.schedule.map Entry.mode) q.rounds particles start
      return (⟨q, start, rounds⟩, g)

end Swarm
end ModeSchedule
