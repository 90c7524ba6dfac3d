/-
ModeSchedule.Order.Sorting — sorting a list.

The relation to sort by need not be an order: candidates that share a schedule
never compare, and resources that are nearly equal count as equal. What a sort
makes of such a relation depends on which pairs it compares, so the algorithm
is part of the result:

* the list is cut into runs, and a run that is too short is made longer by
  inserting what follows it. A list of less than 64 members is one run;
* the runs are put on a stack, and neighbours are merged before that and at the
  end. Which ones, and when, is decided by how deep their border lies in a tree
  of halves of the whole list (`power`).
-/
import ModeSchedule.Order.Merging

namespace ModeSchedule.Insertion

variable {α : Type}

/-! ## Runs -/

/-- The least length of a run in a list of `n` members: its six leading binary digits, plus one
if any other digit is set. -/
def minRun (odd : Bool) (n : Nat) : Nat :=
  if 64 ≤ n then minRun (odd || n % 2 == 1) (n / 2) else n + odd.toNat
termination_by n

theorem splitRun_rest_length (step : α → α → Bool) (last : α) (xs : List α) :
    (splitRun step last xs).2.length ≤ xs.length := by
  induction xs generalizing last with
  | nil => exact Nat.le_refl 0
  | cons x xs ih =>
    simp only [splitRun]
    split
    · exact Nat.le_succ_of_le (ih x)
    · exact Nat.le_refl _

theorem initialRun_rest_length (before : α → α → Bool) (x : α) (xs : List α) :
    (initialRun before (x :: xs)).2.length < (x :: xs).length := by
  cases xs with
  | nil => exact Nat.one_pos
  | cons y rest =>
    have hdescending := splitRun_rest_length before y rest
    have hascending := splitRun_rest_length (fun b a => !before b a) y rest
    simp only [initialRun, List.length_cons]
    split <;> (simp only; omega)

/-- Cut a list into runs, none but the last shorter than `least`. -/
def runs (before : α → α → Bool) (least : Nat) : List α → List (List α)
  | [] => []
  | x :: xs =>
    let found := initialRun before (x :: xs)
    let missing := least - found.1.length
    (found.2.take missing).foldl (insert before) found.1 ::
      runs before least (found.2.drop missing)
termination_by xs => xs.length
decreasing_by
  have h := initialRun_rest_length before x xs
  simp only [List.length_drop]
  omega

/-! ## The stack -/

/-- A run that waits to be merged. -/
structure Pending (α : Type) where
  /-- Where the run begins. -/
  start : Nat
  run : List α
  /-- How deep the border to the run above lies. -/
  power : Nat

/-- The runs that wait, the newest first, and the threshold of the next merge. -/
structure Stack (α : Type) where
  pending : List (Pending α)
  threshold : Nat

/-- The first binary digit in which two fractions `a / n` and `b / n` differ. -/
def power (n a b : Nat) : Nat :=
  if a < b ∧ b < 2 * n then
    if n ≤ a then 1 + power n (2 * (a - n)) (2 * (b - n))
    else if n ≤ b then 1
    else 1 + power n (2 * a) (2 * b)
  else 0
termination_by n - (b - a)

/-- Merge the top of the stack into the runs below it as long as the border between them lies
deeper than `power`. -/
def settle (before : α → α → Bool) (power threshold : Nat) (top : Pending α) :
    List (Pending α) → Stack α
  | [] => ⟨[{ top with power }], threshold⟩
  | below :: rest =>
    if power < below.power then
      let (run, threshold) := merge before threshold below.run top.run
      settle before power threshold { below with run } rest
    else ⟨{ top with power } :: below :: rest, threshold⟩

/-- Put a run on the stack, in a list of `total` members. -/
def push (before : α → α → Bool) (total : Nat) (stack : Stack α) (run : List α) : Stack α :=
  match stack.pending with
  | [] => { stack with pending := [⟨0, run, 0⟩] }
  | top :: rest =>
    let middle := 2 * top.start + top.run.length
    let border := power total middle (middle + top.run.length + run.length)
    let settled := settle before border stack.threshold top rest
    { settled with pending := ⟨top.start + top.run.length, run, 0⟩ :: settled.pending }

/-- Merge the runs that are left, the newest first; the one in the middle of three goes to
the shorter side. -/
def collapse (before : α → α → Bool) (threshold : Nat) : List (List α) → List α
  | [] => []
  | [run] => run
  | [right, left] => (merge before threshold left right).1
  | right :: middle :: left :: rest =>
    if left.length < right.length then
      let (run, threshold) := merge before threshold left middle
      collapse before threshold (right :: run :: rest)
    else
      let (run, threshold) := merge before threshold middle right
      collapse before threshold (run :: left :: rest)
termination_by runs => runs.length

/-- Sort a list. -/
def sort (before : α → α → Bool) (xs : List α) : List α :=
  let found := runs before (minRun false xs.length) xs
  let stack := found.foldl (push before xs.length) ⟨[], 7⟩
  collapse before stack.threshold (stack.pending.map Pending.run)

end ModeSchedule.Insertion
