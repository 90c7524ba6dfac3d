/-
ModeSchedule.Schedule — schedules as runs of equal modes.

A schedule says which mode is applied at each elementary step. It is stored as
a list of entries, each a mode and the number of consecutive steps it lasts.

* `Schedule.append` adds one step and keeps the encoding short: a step of the
  mode that is already running lengthens the last entry.
* An entry of zero steps is a marker: it names the mode a fresh candidate is
  meant to start with, and the first appended step replaces it.
* `Schedule.steps` is the list of single steps a schedule stands for, and
  `Schedule.Canonical` says that an encoding is the shortest one.
-/

namespace ModeSchedule

/-- A mode applied for a number of consecutive steps. -/
structure Entry where
  mode : Nat
  times : Nat
deriving DecidableEq, Repr

/-- Entries are hashed by what is left of their numbers modulo a prime. -/
def Entry.hashModulus : Nat := 2305843009213693951

/-- The two entries have one hash. -/
def Entry.collides (a b : Entry) : Bool :=
  a.mode % Entry.hashModulus == b.mode % Entry.hashModulus &&
    a.times % Entry.hashModulus == b.times % Entry.hashModulus

/-- Entries in the order they are executed. -/
abbrev Schedule := List Entry

namespace Schedule

/-- The single steps a schedule stands for. -/
def steps (s : Schedule) : List Nat :=
  s.flatMap fun e => List.replicate e.times e.mode

/-- How many single steps there are. -/
def totalSteps : Schedule → Nat
  | [] => 0
  | e :: s => e.times + totalSteps s

/-- The modes that occur, in increasing order, each once. -/
def modes (s : Schedule) : List Nat :=
  ((s.map Entry.mode).mergeSort (· ≤ ·)).eraseDups

/-- Without the last entry, if that is a marker. -/
def dropMarker : Schedule → Schedule
  | [] => []
  | [e] => if e.times = 0 then [] else [e]
  | e :: f :: s => e :: dropMarker (f :: s)

/-- One more step of a mode: the last entry grows if it is of that mode. -/
def push (mode : Nat) : Schedule → Schedule
  | [] => [⟨mode, 1⟩]
  | [e] => if e.mode = mode then [⟨mode, e.times + 1⟩] else [e, ⟨mode, 1⟩]
  | e :: f :: s => e :: push mode (f :: s)

/-- Append one step of a mode, in place of a marker at the end. -/
def append (mode : Nat) (s : Schedule) : Schedule :=
  push mode (dropMarker s)

/-- The encoding of a list of single steps. -/
def ofSteps (modes : List Nat) : Schedule :=
  modes.foldl (fun s m => append m s) []

/-- No two neighbours are of the same mode. -/
def Changing : Schedule → Prop
  | [] => True
  | [_] => True
  | e :: f :: s => e.mode ≠ f.mode ∧ Changing (f :: s)

/-- Every entry lasts at least one step, and no two neighbours are of the same
mode: no shorter encoding has the same steps. -/
def Canonical (s : Schedule) : Prop :=
  (∀ e ∈ s, 0 < e.times) ∧ Changing s

/-- The mode of the last entry: the one that is running. -/
def active? (s : Schedule) : Option Nat :=
  s.getLast?.map Entry.mode

end Schedule
end ModeSchedule
