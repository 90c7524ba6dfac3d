/-
ModeSchedule.Order.Merging — merging two neighbouring runs.

A merge leaves alone what stands in the right place already: the front of the
left run and the back of the right one. What is in between is taken from the
front, or from the back if the left part is the longer one. Both directions are
one procedure (`weave`) with the parts that differ as parameters (`Taking`).

It compares two members at a time until one run has been taken from often enough
in a row, then gallops: it searches how many members of one run go before a
member of the other, and takes them all at once. How often is enough (the
threshold) goes down while galloping pays, up when it does not, and is handed
from merge to merge.
-/
import ModeSchedule.Order.Insertion

namespace ModeSchedule.Insertion

variable {α : Type}

/-! ## Galloping -/

/-- Try the distances 1, 3, 7, … as long as they hold: the last one that holds, and the first
that does not or the limit. -/
def probe (holds : Nat → Bool) (limit near far : Nat) : Nat × Nat :=
  if far < limit then
    if holds far then probe holds limit far (2 * far + 1) else (near, far)
  else (near, limit)
termination_by limit - far

/-- How many members of a run are in front of `x`, if it is `beyond x` that tells those behind.
From the hint on, growing distances are tried until `x` is enclosed; a binary search does
the rest. -/
def gallop (beyond : α → α → Bool) (x : α) (run : List α) (hint : Nat) : Nat :=
  if run[hint]?.any (beyond x) then
    let (near, far) := probe (fun d => run[hint - d]?.any (beyond x)) (hint + 1) 0 1
    slot beyond x run (hint + 1 - far) (hint - near)
  else
    let (near, far) := probe (fun d => !run[hint + d]?.any (beyond x)) (run.length - hint) 0 1
    slot beyond x run (hint + near + 1) (hint + far)

/-! ## Weaving -/

/-- How a merge takes from two runs. -/
structure Taking (α : Type) where
  /-- Whether a member of the second run goes before one of the first. -/
  second : α → α → Bool
  /-- How many of the first run go before a member of the second. -/
  ofFirst : α → List α → Nat
  /-- How many of the second run go before a member of the first. -/
  ofSecond : α → List α → Nat
  /-- Whether it is the first run that a gallop begins with. -/
  leads : Bool

/-- What a merge has been doing. -/
inductive Pace where
  /-- Member by member: how often in a row either run has been taken from. -/
  | pairs (first second : Nat)
  /-- One gallop out of two: how many it took. -/
  | halfway (took : Nat)
  /-- Two gallops, one in either run: how many the longer one took. -/
  | galloped (took : Nat)

/-- What a merge does next. -/
inductive Move where
  | pair (first second : Nat)
  | gallop (first : Bool) (after : Nat → Pace)

/-- The next move, and the threshold from then on. -/
def Pace.next (leads : Bool) (threshold : Nat) : Pace → Nat × Move
  | .pairs first second =>
    if threshold ≤ first || threshold ≤ second then (threshold, .gallop leads .halfway)
    else (threshold, .pair first second)
  | .halfway took => (threshold, .gallop (!leads) fun more => .galloped (max took more))
  | .galloped took =>
    if 7 ≤ took then
      (if 1 < threshold then threshold - 1 else threshold, .gallop leads .halfway)
    else (threshold + 1, .pair 0 0)

/-- Take from two runs until one is used up. The last member of the first run goes behind all
of the second. -/
def weave (t : Taking α) (threshold : Nat) (pace : Pace) : List α → List α → List α × Nat
  | [], ys => (ys, threshold)
  | [x], ys => (ys ++ [x], threshold)
  | xs, [] => (xs, threshold)
  | x :: x' :: xs, y :: ys =>
    match pace.next t.leads threshold with
    | (threshold, .pair first second) =>
      if t.second x y then
        let (out, threshold) := weave t threshold (.pairs 0 (second + 1)) (x :: x' :: xs) ys
        (y :: out, threshold)
      else
        let (out, threshold) := weave t threshold (.pairs (first + 1) 0) (x' :: xs) (y :: ys)
        (x :: out, threshold)
    | (threshold, .gallop true after) =>
      let took := t.ofFirst y (x :: x' :: xs)
      let (out, threshold) :=
        weave t threshold (after took) ((x :: x' :: xs).drop took) ys
      ((x :: x' :: xs).take took ++ y :: out, threshold)
    | (threshold, .gallop false after) =>
      let took := t.ofSecond x (y :: ys)
      let (out, threshold) := weave t threshold (after took) (x' :: xs) ((y :: ys).drop took)
      ((y :: ys).take took ++ x :: out, threshold)
termination_by xs ys => xs.length + ys.length

/-- Begin with the second run, whose first member is known to go first. -/
def weaveFrom (t : Taking α) (threshold : Nat) (xs : List α) : List α → List α × Nat
  | [] => (xs, threshold)
  | y :: ys =>
    let (out, threshold) := weave t threshold (.pairs 0 0) xs ys
    (y :: out, threshold)

/-! ## Merging -/

/-- From the front: the left run is the first one. -/
def forward (before : α → α → Bool) : Taking α where
  second x y := before y x
  ofFirst y xs := gallop before y xs 0
  ofSecond x ys := gallop (fun a b => !before b a) x ys 0
  leads := true

/-- From the back: the right run is the first one, and both are reversed. -/
def backward (before : α → α → Bool) : Taking α where
  second x y := before x y
  ofFirst y xs :=
    xs.length - gallop (fun a b => !before b a) y xs.reverse (xs.length - 1)
  ofSecond x ys := ys.length - gallop before x ys.reverse (ys.length - 1)
  leads := false

/-- Merge what has to be moved, from the side of the longer run. -/
def mergeMoved (before : α → α → Bool) (threshold : Nat) (left right : List α) : List α × Nat :=
  if left.length ≤ right.length then weaveFrom (forward before) threshold left right
  else
    let (out, threshold) := weaveFrom (backward before) threshold right.reverse left.reverse
    (out.reverse, threshold)

/-- Merge two neighbouring runs. -/
def merge (before : α → α → Bool) (threshold : Nat) (left : List α) : List α → List α × Nat
  | [] => (left, threshold)
  | b :: bs =>
    let skipped := gallop before b left 0
    match (left.drop skipped).getLast? with
    | none => (left ++ b :: bs, threshold)
    | some a =>
      let moved := gallop (fun x y => !before y x) a (b :: bs) bs.length
      let (out, threshold) :=
        mergeMoved before threshold (left.drop skipped) ((b :: bs).take moved)
      (left.take skipped ++ out ++ (b :: bs).drop moved, threshold)

end ModeSchedule.Insertion
