/-
ModeSchedule.Integration.Crossing — where a function of time crosses zero.

The crossing is kept between two instants at which the function has different
signs. Each round interpolates for the next instant if that is likely to gain
more than halving the interval, and halves it otherwise; it ends where the
interval is as short as numbers of that size can tell apart.
-/

namespace ModeSchedule.Integration

/-- An instant and the value of the function there. -/
structure Sample where
  time : Float
  value : Float
deriving Repr, Inhabited

/-- The best instant so far, the one before it, and one on the other side of the
crossing; the last two moves. -/
structure Bracket where
  before : Sample
  best : Sample
  across : Sample
  lastMove : Float
  move : Float
deriving Repr

/-- Neither value is zero, and one is negative. -/
def differ (a b : Float) : Bool := a != 0 && b != 0 && (a < 0) != (b < 0)

namespace Bracket

/-- Let the sample before the best one be the one across, if it is. -/
def turn (b : Bracket) : Bracket :=
  if differ b.before.value b.best.value then
    let move := b.best.time - b.before.time
    { b with across := b.before, lastMove := move, move }
  else b

/-- Let the best sample be the one with the smaller value. -/
def order (b : Bracket) : Bracket :=
  if b.across.value.abs < b.best.value.abs then
    { b with before := b.best, best := b.across, across := b.best }
  else b

/-- How close two instants may be to count as one. -/
def resolution (b : Bracket) : Float :=
  let unit : Float := 4 * 2.220446049250313e-16
  (unit + unit * b.best.time.abs) / 2

/-- Half of what is left of the interval. -/
def half (b : Bracket) : Float := (b.across.time - b.best.time) / 2

def found (b : Bracket) : Bool := b.best.value == 0 || b.half.abs < b.resolution

/-- The move to where a line, or a curve through all three samples, is zero. -/
def interpolated (b : Bracket) : Float :=
  let (p, q, r) := (b.before, b.best, b.across)
  if p.time == r.time then -q.value * (q.time - p.time) / (q.value - p.value)
  else
    let s := (p.value - q.value) / (p.time - q.time)
    let t := (r.value - q.value) / (r.time - q.time)
    q.value * (p.value * s - r.value * t) / (t * s * (r.value - p.value))

/-- Choose the next move. -/
def choose (b : Bracket) : Bracket :=
  let halved := { b with lastMove := b.half, move := b.half }
  if b.resolution < b.lastMove.abs && b.best.value.abs < b.before.value.abs then
    let move := b.interpolated
    let most := 3 * b.half.abs - b.resolution
    if 2 * move.abs < (if b.lastMove.abs < most then b.lastMove.abs else most) then
      { b with lastMove := b.move, move }
    else halved
  else halved

/-- Move on, by the resolution at least. -/
def advance (f : Float → Float) (b : Bracket) : Bracket :=
  let least := if 0 < b.half then b.resolution else -b.resolution
  let time := b.best.time + (if b.resolution < b.move.abs then b.move else least)
  { b with before := b.best, best := ⟨time, f time⟩ }

/-- Narrow the interval down, in at most a number of rounds. -/
def narrow (f : Float → Float) : Nat → Bracket → Float
  | 0, b => b.best.time
  | n + 1, b =>
    let b := b.turn.order
    if b.found then b.best.time else narrow f n (b.choose.advance f)

end Bracket

/-- The crossing between two instants; there is none if the signs agree. -/
def crossing? (f : Float → Float) (start stop : Float) : Option Float :=
  let a : Sample := ⟨start, f start⟩
  let b : Sample := ⟨stop, f stop⟩
  if a.value == 0 then some start
  else if b.value == 0 then some stop
  else if differ a.value b.value then
    some (Bracket.narrow f 100 { before := a, best := b, across := a, lastMove := 0, move := 0 })
  else none

end ModeSchedule.Integration
