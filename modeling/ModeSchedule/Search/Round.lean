/-
ModeSchedule.Search.Round — one round of a search level.

The incomplete candidates are extended, what an accepted candidate dominates is
dropped, and the rest is divided. Newly complete candidates join the accepted
ones, which are then pruned and deduplicated. Under the heuristic algorithm the
incomplete candidates are pruned among themselves as well.

A round is recorded with all its intermediate lists, and works on its record:
both lists of candidates are edited one step after the other, and what cannot
be done leaves them as they are at that moment.
-/
import ModeSchedule.Search.Extension
import ModeSchedule.Search.Pruning

namespace ModeSchedule

/-- What a search level works on: candidates to extend and accepted ones. -/
structure Frontier (K S R : Type) where
  partials : List (Solution K S R)
  accepted : List (Solution K S R)
deriving Repr

/-- A round: the extension, what it left of the children, how these divide, the
accepted candidates before deduplication, and the frontier as the round has
edited it. -/
structure Round (K S R : Type) where
  before : Frontier K S R
  extension : Extension K S R
  surviving : List (Solution K S R)
  complete : List (Solution K S R)
  incomplete : List (Solution K S R)
  undominated : List (Solution K S R)
  after : Frontier K S R
deriving Repr

/-- Work on a round. -/
abbrev Work (K S R : Type) := EStateM PlanError (Round K S R)

namespace Round

variable {K S R A : Type} [Scalar K]

/-- A round that has done nothing yet. -/
def begun (before : Frontier K S R) (clock : K) : Round K S R :=
  { before, extension := ⟨[], clock, .done⟩, surviving := [], complete := [], incomplete := [],
    undominated := before.accepted, after := before }

/-- The round with other candidates accepted. -/
def accept (r : Round K S R) (accepted : List (Solution K S R)) : Round K S R :=
  { r with after := { r.after with accepted } }

/-- Go on with the children of an extension, if it has not failed. -/
def proceed (misfit? : S → Option Misfit) (extension : Extension K S R) : Work K S R Unit := do
  liftExcept (requireFit misfit? extension.children)
  modify fun r => { r with extension }
  match extension.ending with
  | .failed cause => throw cause
  | _ => return ()

/-- Drop the children that an accepted candidate dominates, and divide the rest. -/
def divide (P : Problem K S R A) (misfit? : S → Option Misfit) : Work K S R Unit := do
  let r ← get
  let surviving ← liftExcept <| Pruning.undominatedByM (Algorithm.exhaustive.compare P misfit?)
    r.after.accepted r.extension.children
  liftExcept (requireFit misfit? surviving)
  let (complete, incomplete) := surviving.partition P.complete
  set { r with surviving, complete, incomplete }

/-- Let the complete candidates join the accepted ones; prune and deduplicate these, unless
nothing has joined. -/
def join (P : Problem K S R A) (misfit? : S → Option Misfit) : Work K S R Unit := do
  let r ← get
  if !r.complete.isEmpty then
    modify fun r => r.accept (r.after.accepted ++ r.complete)
    let accepted := (← get).after.accepted
    let undominated ← liftExcept <|
      Pruning.undominatedM (Algorithm.exhaustive.compare P misfit?) accepted
    modify fun r => { r.accept undominated with undominated }
    modify fun r => r.accept (Insertion.sort P.precedes r.after.accepted)
    modify fun r => r.accept (Pruning.collapse P.same r.after.accepted)

/-- Retain the incomplete candidates for the next round. -/
def retain (P : Problem K S R A) (misfit? : S → Option Misfit) (algorithm : Algorithm) :
    Work K S R Unit := do
  let incomplete := (← get).incomplete
  let partials ← match algorithm with
    | .heuristic => liftExcept <|
      Pruning.undominatedByM (Algorithm.heuristic.compare P misfit?) incomplete incomplete
    | _ => pure incomplete
  modify fun r => { r with after := { r.after with partials } }

/-- All of a round. What cannot be measured is told by `misfit?`. -/
def work (w : Workspace K S R A) (misfit? : S → Option Misfit) (algorithm : Algorithm)
    (stride : Nat) (watch : Option (Stopwatch K)) : Work K S R Unit := do
  let r ← get
  proceed misfit? <|
    Extension.grow w algorithm.switching stride watch r.after.partials r.extension.clock
  divide w.problem misfit?
  join w.problem misfit?
  retain w.problem misfit? algorithm

/-- The record that some work leaves, done or not. -/
def recordOf : EStateM.Result PlanError (Round K S R) Unit → Round K S R
  | .ok _ r => r
  | .error _ r => r

/-- Perform a round of candidates that are not measured before the end of the level. -/
def perform (w : Workspace K S R A) (algorithm : Algorithm) (stride : Nat)
    (watch : Option (Stopwatch K)) (before : Frontier K S R) (clock : K) : Round K S R :=
  recordOf ((work w (fun _ => none) algorithm stride watch).run (begun before clock))

/-- The clock at the end of the round. -/
def clock (r : Round K S R) : K := r.extension.clock

/-- The candidates that are compared: the children and, if there are any, those
accepted before. -/
def compared (r : Round K S R) : List (Solution K S R) :=
  match r.extension.children with
  | [] => []
  | children => children ++ r.before.accepted

/-- Why the round failed, if it did. -/
def failure? (r : Round K S R) : Option PlanError :=
  match r.extension.ending with
  | .failed cause => some cause
  | _ => none

end Round

namespace Search

variable {K S R A : Type} [Scalar K]

/-- The work that a request for a round comes to. -/
def workOn (problem : Option (Problem K S R A)) (modes : List (Mode A)) (stepCost : K)
    (algorithm : Algorithm) (stride : Given K) (watch : Option (Stopwatch K)) :
    Work K S R Unit := do
  let problem ← liftExcept (requireProblem problem)
  liftExcept (requirePositive .stride stride)
  liftExcept (requireModes modes)
  let partials := (← get).after.partials
  let stride ← liftExcept (strideFor modes algorithm.switching stride partials)
  Round.work { problem, modes, stepCost } problem.misfit? algorithm stride watch

/-- Perform a round on request. An error does not tell how far the round has come. -/
def round (problem : Option (Problem K S R A)) (modes : List (Mode A)) (stepCost : K)
    (algorithm : Algorithm) (stride : Given K) (watch : Option (Stopwatch K))
    (before : Frontier K S R) (clock : K) : Except PlanError (Round K S R) :=
  match (workOn problem modes stepCost algorithm stride watch).run (Round.begun before clock) with
  | .ok _ r => .ok r
  | .error cause r => if r.failure?.isSome then .ok r else .error cause

end Search
end ModeSchedule
