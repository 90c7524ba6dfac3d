/-
ModeSchedule.Order.Insertion — runs, and binary insertion into a run.

* `initialRun` is the longest run at the front of a list, reversed if it
  descends.
* `insert` puts an element behind all members of a run that a binary search
  finds not to come after it.
-/

namespace ModeSchedule.Insertion

variable {α : Type}

/-- Split after the longest front in which each element relates to the one
before it as `step` says; `last` is the element in front of the list. -/
def splitRun (step : α → α → Bool) (last : α) : List α → List α × List α
  | [] => ([], [])
  | x :: xs =>
    if step x last then
      let (run, rest) := splitRun step x xs
      (x :: run, rest)
    else ([], x :: xs)

/-- The run at the front in ascending order, and what follows it. -/
def initialRun (before : α → α → Bool) : List α → List α × List α
  | [] => ([], [])
  | [x] => ([x], [])
  | x :: y :: rest =>
    if before y x then
      let (run, rest) := splitRun before y rest
      ((x :: y :: run).reverse, rest)
    else
      let (run, rest) := splitRun (fun b a => !before b a) y rest
      (x :: y :: run, rest)

/-- Where a binary search of positions `low` to `high` puts `x`. -/
def slot (before : α → α → Bool) (x : α) (run : List α) (low high : Nat) : Nat :=
  if _h : low < high then
    let middle := low + (high - low) / 2
    match run[middle]? with
    | some y =>
      if before x y then slot before x run low middle
      else slot before x run (middle + 1) high
    | none => high
  else low
termination_by high - low

/-- Put an element into a run. -/
def insert (before : α → α → Bool) (run : List α) (x : α) : List α :=
  let position := slot before x run 0 run.length
  run.take position ++ x :: run.drop position

end ModeSchedule.Insertion
