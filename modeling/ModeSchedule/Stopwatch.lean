/-
ModeSchedule.Stopwatch — a pausable stopwatch with a limit.

The clock is not part of the stopwatch: each function is told what the clock
shows. A limit of zero is no limit, and nothing happens by itself when it is
reached; whoever works under it asks `expired` between two units of work.
-/
import ModeSchedule.Scalar

namespace ModeSchedule

/-- Time counted in finished intervals, and the start of the running one. -/
structure Stopwatch (K : Type) where
  limit : Option K
  counted : K
  startedAt : Option K
deriving Repr

namespace Stopwatch

variable {K : Type} [Scalar K]

/-- A limit of zero is no limit. -/
def limitOf (timeout : Option K) : Option K :=
  timeout.filter fun t => !(t == 0)

/-- A stopped stopwatch that shows zero. -/
def withLimit (timeout : Option K) : Stopwatch K :=
  { limit := limitOf timeout, counted := 0, startedAt := none }

def setLimit (timeout : Option K) (w : Stopwatch K) : Stopwatch K :=
  { w with limit := limitOf timeout }

def running (w : Stopwatch K) : Bool := w.startedAt.isSome

/-- Start counting, unless it already does. -/
def start (now : K) (w : Stopwatch K) : Stopwatch K :=
  { w with startedAt := some (w.startedAt.getD now) }

/-- Stop counting and keep what was counted. -/
def pause (now : K) (w : Stopwatch K) : Stopwatch K :=
  match w.startedAt with
  | none => w
  | some t => { w with counted := w.counted + (now - t), startedAt := none }

/-- Back to zero, stopped; the limit stays. -/
def reset (w : Stopwatch K) : Stopwatch K :=
  { w with counted := 0, startedAt := none }

/-- The time counted so far. -/
def elapsed (now : K) (w : Stopwatch K) : K :=
  match w.startedAt with
  | none => w.counted
  | some t => w.counted + (now - t)

/-- The time left, never negative; `none` without a limit. -/
def remaining (now : K) (w : Stopwatch K) : Option K :=
  w.limit.map fun limit => Scalar.larger 0 (limit - w.elapsed now)

/-- The limit has been reached. -/
def expired (now : K) (w : Stopwatch K) : Bool :=
  match w.limit with
  | none => false
  | some limit => decide (limit ≤ w.elapsed now)

/-- A stopwatch that has just been started. -/
def started (timeout : Option K) (now : K) : Stopwatch K :=
  (withLimit timeout).start now

end Stopwatch

/-- The clock after a number of ticks, each of the same length. Ticks are added
one by one. -/
def tick {K : Type} [Add K] (length : K) : Nat → K → K
  | 0, clock => clock
  | n + 1, clock => tick length n (clock + length)

end ModeSchedule
