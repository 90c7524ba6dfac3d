/-
ModeSchedule.Search.Pruning — dropping what other candidates dominate.

* `undominated` keeps what no other member of the list dominates.
* `undominatedBy` keeps what no member of a reference list dominates.
* `deduplicate` sorts and keeps one of each group of neighbours that the
  problem counts as the same.

Where a comparison may fail, `undominatedM` and `undominatedByM` compare in the
order of the lists, and no more than it takes.
-/
import ModeSchedule.Search.Algorithm
import ModeSchedule.Order.Sorting

namespace ModeSchedule.Pruning

variable {α : Type}

/-- The members that no member at another position is better than. -/
def undominated (better : α → α → Bool) (xs : List α) : List α :=
  let placed := xs.zipIdx
  (placed.filter fun x => !placed.any fun y => y.2 != x.2 && better y.1 x.1).map (·.1)

/-- The members that no member of the reference is better than. -/
def undominatedBy (better : α → α → Bool) (reference xs : List α) : List α :=
  xs.filter fun x => !reference.any fun y => better y x

/-- The members that no member at another position is better than, if that can be told. -/
def undominatedM {ε : Type} (better : α → α → Except ε Bool) (xs : List α) :
    Except ε (List α) := do
  let placed := xs.zipIdx
  let kept ← placed.filterM fun x => do
    return !(← placed.anyM fun y => if y.2 != x.2 then better y.1 x.1 else return false)
  return kept.map (·.1)

/-- The members that no member of the reference is better than, if that can be told. -/
def undominatedByM {ε : Type} (better : α → α → Except ε Bool) (reference xs : List α) :
    Except ε (List α) :=
  xs.filterM fun x => do
    return !(← reference.anyM fun y => better y x)

/-- Keep the first of each group of neighbours that are the same as it. -/
def collapse (same : α → α → Bool) : List α → List α
  | [] => []
  | [x] => [x]
  | x :: y :: rest =>
    if same x y then collapse same (x :: rest) else x :: collapse same (y :: rest)
termination_by xs => xs.length

/-- Sort by `before` and collapse. -/
def deduplicate (before same : α → α → Bool) (xs : List α) : List α :=
  collapse same (Insertion.sort before xs)

end ModeSchedule.Pruning

namespace ModeSchedule

/-- Whether a candidate is better than another one, by the relation of an algorithm. Of two with
different schedules, the better one has to be measured, and both for heuristic dominance. -/
def Algorithm.compare {K S R A : Type} (P : Problem K S R A) (misfit? : S → Option Misfit)
    (algorithm : Algorithm) (x y : Solution K S R) : Except PlanError Bool := do
  let better := algorithm.better P
  if x.schedule != y.schedule then
    match algorithm with
    | .heuristic => requireFit misfit? [x, y]
    | _ => requireFit misfit? [x]
  return better x y

/-! ## Requests -/

/-- What a list of candidates is pruned against. -/
inductive Reference (α : Type) where
  /-- The other members of the list. -/
  | members
  /-- A second list. -/
  | list (xs : List α)
  /-- The list to be pruned itself, given as its own reference. -/
  | itself

namespace Search

variable {K S R A : Type} [Scalar K]

/-- Drop the dominated candidates of a list. -/
def prune (problem : Option (Problem K S R A)) (algorithm : Algorithm)
    (reference : Reference (Solution K S R)) (xs : List (Solution K S R)) :
    Except PlanError (List (Solution K S R)) := do
  let P ← requireProblem problem
  match reference with
  | .members => if 1 < xs.length then requireMeasured P xs
  | .list ys => if !xs.isEmpty then requireMeasured P ys
  | .itself => throw .sameList
  match reference with
  | .members => return Pruning.undominated (algorithm.better P) xs
  | .list ys => return Pruning.undominatedBy (algorithm.better P) ys xs
  | .itself => throw .sameList

/-- Sort a list of candidates and drop repetitions. -/
def deduplicate (problem : Option (Problem K S R A)) (xs : List (Solution K S R)) :
    Except PlanError (List (Solution K S R)) := do
  let P ← requireProblem problem
  return Pruning.deduplicate P.precedes P.same xs

/-- The complete and the incomplete candidates of a list, in order. -/
def split (problem : Option (Problem K S R A)) (xs : List (Solution K S R)) :
    Except PlanError (List (Solution K S R) × List (Solution K S R)) := do
  let P ← requireProblem problem
  requireMeasured P xs
  return xs.partition P.complete

end Search
end ModeSchedule
