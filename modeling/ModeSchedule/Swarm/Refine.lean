/-
ModeSchedule.Swarm.Refine — refining candidates, fronts and whole results.

The candidates of a front are refined one after the other, as are the fronts of
a result; all of them draw from one generator. A refined front keeps its
numbers, so a refined result has the shape of the given one.
-/
import ModeSchedule.Swarm.Run
import ModeSchedule.Random.Generator

namespace ModeSchedule.Swarm

/-- A front and the refinement of each of its candidates. -/
structure FrontRefinement (K S R : Type) where
  front : Front K S R
  refinements : List (Refinement K S R)
deriving Repr

/-- The refined front. -/
def FrontRefinement.refined {K S R : Type} (r : FrontRefinement K S R) : Front K S R :=
  { r.front with solutions := r.refinements.map Refinement.solution }

section

variable {G K S R A : Type} [Scalar K]

/-- The problem, which is asked for only once there is a candidate to refine. -/
def requireSwarmProblem (problem : Option (Problem K S R A)) :
    Except SwarmError (Problem K S R A) :=
  (requireProblem problem).mapError .plan

def refineSolutions (source : Source G K) (problem : Option (Problem K S R A)) (q : Parameters K)
    (modes : List (Mode A)) :
    List (Solution K S R) → G → Except SwarmError (List (Refinement K S R) × G)
  | [], g => .ok ([], g)
  | s :: rest, g => do
    let P ← requireSwarmProblem problem
    let (r, g) ← refine source P q modes s g
    let (rs, g) ← refineSolutions source problem q modes rest g
    return (r :: rs, g)

def refineFront (source : Source G K) (problem : Option (Problem K S R A)) (q : Parameters K)
    (modes : List (Mode A)) (f : Front K S R) (g : G) :
    Except SwarmError (FrontRefinement K S R × G) := do
  let (refinements, g) ← refineSolutions source problem q modes f.solutions g
  return ({ front := f, refinements }, g)

def refineOutcome (source : Source G K) (problem : Option (Problem K S R A)) (q : Parameters K)
    (modes : List (Mode A)) :
    Outcome K S R → G → Except SwarmError (List (FrontRefinement K S R) × G)
  | [], g => .ok ([], g)
  | f :: rest, g => do
    let (r, g) ← refineFront source problem q modes f g
    let (rs, g) ← refineOutcome source problem q modes rest g
    return (r :: rs, g)

end

/-! ## Requests

A single candidate needs a problem before it needs a generator; fronts and
results need a generator first. -/

variable {S R A : Type}

def requireGenerator (plan : DrawPlan) : Except SwarmError Generator :=
  match Generator.ofPlan? plan with
  | some g => .ok g
  | none => .error .negativeSeed

/-- Refine a candidate. -/
def solution (problem : Option (Problem Float S R A)) (q : Parameters Float)
    (modes : List (Mode A)) (s : Solution Float S R) (plan : DrawPlan) :
    Except SwarmError (Refinement Float S R) := do
  let P ← requireSwarmProblem problem
  let g ← requireGenerator plan
  return (← refine Generator.source P q modes s g).1

/-- Refine the candidates of a front. -/
def front (problem : Option (Problem Float S R A)) (q : Parameters Float)
    (modes : List (Mode A)) (f : Front Float S R) (plan : DrawPlan) :
    Except SwarmError (FrontRefinement Float S R) := do
  let g ← requireGenerator plan
  return (← refineFront Generator.source problem q modes f g).1

/-- Refine the fronts of a result. -/
def outcome (problem : Option (Problem Float S R A)) (q : Parameters Float)
    (modes : List (Mode A)) (o : Outcome Float S R) (plan : DrawPlan) :
    Except SwarmError (List (FrontRefinement Float S R)) := do
  let g ← requireGenerator plan
  return (← refineOutcome Generator.source problem q modes o g).1

end ModeSchedule.Swarm
