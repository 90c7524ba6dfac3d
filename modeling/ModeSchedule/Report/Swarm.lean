/-
ModeSchedule.Report.Swarm — the messages of a refinement: one line per round,
and one per candidate and per front that is taken up.
-/
import ModeSchedule.Report.Message
import ModeSchedule.Report.Text
import ModeSchedule.Swarm.Refine

namespace ModeSchedule.Report

variable {S R : Type}

def generations (q : Swarm.Parameters Float) :
    Nat → List (Swarm.Generation Float S R) → List Message
  | _, [] => []
  | number, g :: rest =>
    .info (fun _ =>
      s!"[pso]         Iteration {aligned 2 number}/{aligned 2 q.rounds}, " ++
      s!"best fitness: {fixed 6 2 (orInfinite g.leader.fitness)}, " ++
      s!"valid solutions: {aligned 3 g.valid}/{aligned 3 q.particles}") ::
    generations q (number + 1) rest

/-- The rounds of a refinement. -/
def refinement (r : Swarm.Refinement Float S R) : List Message :=
  generations r.parameters 1 r.generations

/-- A candidate is taken up, at a place among so many. -/
def candidateTaken (place count : Nat) : Message :=
  .info fun _ => s!"[pso]     Optimize solution {aligned 3 place}/{aligned 3 count}..."

/-- A front is taken up, at a place among so many. -/
def frontTaken (f : Front Float S R) (place count : Nat) : Message :=
  .info fun _ => s!"[pso] Optimize Pareto front (step: {fixed 6 2 f.stepLength}) " ++
    s!"{aligned 3 place}/{aligned 3 count}..."

/-- The refinements of a front. -/
def frontRefinement (r : Swarm.FrontRefinement Float S R) : List Message :=
  r.refinements.zipIdx.flatMap fun (x, i) =>
    candidateTaken (i + 1) r.refinements.length :: refinement x

/-- The refinements of a result. -/
def outcomeRefinement (rs : List (Swarm.FrontRefinement Float S R)) : List Message :=
  rs.zipIdx.flatMap fun (x, i) =>
    frontTaken x.front (i + 1) rs.length :: frontRefinement x

/-- What is said up to the first candidate of a result, if it has one. -/
def firstRefinement : Outcome Float S R → List Message
  | [] => []
  | f :: fronts =>
    frontTaken f 1 (fronts.length + 1) ::
      if f.solutions.isEmpty then [] else [candidateTaken 1 f.solutions.length]

end ModeSchedule.Report
