/-
ModeSchedule.Report.Comparison — ordering and comparing results by their usage.

Candidates are listed by energy, those of nearly the same energy by time. Two
results of one shape are compared candidate by candidate: lower is better.
-/
import ModeSchedule.Report.Message
import ModeSchedule.Report.Text
import ModeSchedule.Validation.Check
import ModeSchedule.Order.Sorting

namespace ModeSchedule

/-- How a number has changed. -/
inductive Change where
  | improved
  | worsened
  | unchanged
deriving Repr, DecidableEq

namespace Change

def name : Change → String
  | improved => "improved"
  | worsened => "worsened"
  | unchanged => "unchanged"

/-- A number that went down has improved. -/
def between {K : Type} [Scalar K] (before after : K) : Change :=
  if after < before then improved else if before < after then worsened else unchanged

/-- The same for numbers as data, of which integers count exactly. -/
def ofData {K : Type} [Scalar K] (before after : Json K) : Except Unreadable Change := do
  let x ← value before
  let y ← value after
  return if y.less x then improved else if x.less y then worsened else unchanged
where
  value : Json K → Except Unreadable Value
    | .int n => .ok (.finite n)
    | v => v.plainNumber.map Scalar.exact

end Change

/-- A candidate of one result beside the candidate at the same place of another
one. Places are counted from one. -/
structure Comparison (K : Type) where
  front : Nat
  place : Nat
  before : Usage K
  after : Usage K
deriving Repr

namespace Comparison

variable {K : Type} [Scalar K]

def time (c : Comparison K) : Change := Change.between c.before.time c.after.time

def energy (c : Comparison K) : Change := Change.between c.before.energy c.after.energy

end Comparison

/-- What comparing two results brings up, in order. -/
inductive Finding (K : Type) where
  | compared (c : Comparison K)
  /-- The numbers of candidates of a front differ. -/
  | sizes (front before after : Nat)
  /-- The numbers of fronts differ. -/
  | fronts (before after : Nat)
deriving Repr

namespace Outcome

variable {K S : Type} [Scalar K]

/-- Each front in ascending order of energy, then time. -/
def sorted (o : Outcome K S (Usage K)) : Outcome K S (Usage K) :=
  o.map fun f => { f with
    solutions := Insertion.sort (fun a b => Usage.nearlyLess a.resources b.resources) f.solutions }

/-- Compare two fronts. -/
def compareFronts (number : Nat) (before after : Front K S (Usage K)) : List (Finding K) :=
  if before.solutions.length != after.solutions.length then
    [.sizes number before.solutions.length after.solutions.length]
  else
    (before.solutions.zip after.solutions).zipIdx.map fun ((a, b), i) =>
      .compared { front := number, place := i + 1, before := a.resources, after := b.resources }

/-- Compare two results, which have to have the same number of fronts. -/
def findings (before after : Outcome K S (Usage K)) : List (Finding K) :=
  if before.length != after.length then [.fronts before.length after.length]
  else
    (before.zip after).zipIdx.flatMap fun ((a, b), i) => compareFronts (i + 1) a b

/-- The candidates that could be compared. -/
def comparisons (before after : Outcome K S (Usage K)) : List (Comparison K) :=
  (findings before after).filterMap fun
    | .compared c => some c
    | _ => none

end Outcome

namespace Report

def finding : Finding Float → Message
  | .compared c => .info fun _ =>
    s!"[app] Front {aligned 2 c.front}, solution {aligned 3 c.place}: " ++
    s!"time {leftAligned 9 c.time.name} " ++
    s!"({fixed 8 3 c.before.time} -> {fixed 8 3 c.after.time}), " ++
    s!"energy {leftAligned 9 c.energy.name} " ++
    s!"({fixed 8 3 c.before.energy} -> {fixed 8 3 c.after.energy})"
  | .sizes front before after => .warning fun _ =>
    s!"[app] Pareto front {front} differ in the number of solutions ({before} vs {after})."
  | .fronts before after => .warning fun _ =>
    s!"[app] Results differ in the number of Pareto fronts ({before} vs {after})."

/-- The messages of a comparison. -/
def comparison {S : Type} (before after : Outcome Float S (Usage Float)) : List Message :=
  (Outcome.findings before after).map finding

/-- A result between two rules, every message of one severity. -/
def listing {S R : Type} (describe : R → String) (severity : Severity) (o : Outcome Float S R) :
    List Message :=
  let rule : Message := ⟨severity, fun _ => "[app] " ++ String.ofList (List.replicate 60 '=')⟩
  [rule] ++ (o.flatMap fun f =>
    ⟨severity, fun _ => s!"[app] Pareto front (step: {fixed 8 3 f.stepLength} s, " ++
      s!"runtime: {fixed 8 3 f.runtime} s):"⟩ ::
    f.solutions.map fun s => ⟨severity, fun _ => "[app]     " ++ s.text describe⟩) ++ [rule]

end Report
end ModeSchedule
