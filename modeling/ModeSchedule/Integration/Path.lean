/-
ModeSchedule.Integration.Path — following a flow up to a time or a crossing.

Steps are as long as the estimated error allows, but no longer than a given
length. A step that turns out too long is taken again, shorter; where numbers
around the time cannot resolve the length that would be needed, the path ends
early. It also ends where a watched function of the state crosses zero between
two steps; a function that is zero at the start crosses there.
-/
import ModeSchedule.Integration.Step
import ModeSchedule.Integration.Crossing

namespace ModeSchedule.Integration

/-! ## Errors -/

/-- The root of the mean square. -/
def size (x : Vector) : Float :=
  (x.foldl (fun s a => s + a * a) 0).sqrt / (Float.ofNat x.length).sqrt

/-- The larger of two magnitudes; undefined if one of them is. -/
def greater (x y : Float) : Float := if x < y || y.isNaN then y else x

/-- The error that is tolerated: one thousandth of a magnitude, and a millionth
besides. -/
def tolerated (magnitude : Float) : Float := 1e-6 + magnitude * 1e-3

/-- A vector in tolerated errors. -/
def relative (x magnitudes : Vector) : Float :=
  size (List.zipWith (fun x m => x / tolerated m) x magnitudes)

/-- The error of a step in tolerated errors. -/
def Step.defect (s : Step) : Float :=
  relative s.error (List.zipWith (fun x y => greater x.abs y.abs) s.state s.next)

/-! ## Lengths -/

/-- The smaller of two numbers; the first one where they do not compare. -/
def smaller (x y : Float) : Float := if y < x then y else x

/-- By how much a length may be changed after a step with a defect. -/
def adjustment (defect : Float) : Float := 0.9 * defect.pow (-0.2)

/-- The distance to the next number. -/
def spacing (t : Float) : Float :=
  let bits := t.toBits
  let next :=
    if t == 0 then Float.ofBits 1
    else if t < 0 then Float.ofBits (bits - 1)
    else if t.isInf then t
    else Float.ofBits (bits + 1)
  (next - t).abs

/-- What is followed: the flow, from one time to another, in steps of a greatest
length, and the watched function. -/
structure Course where
  flow : Vector → Vector
  start : Float
  stop : Float
  longest : Float
  watched : Vector → Float

/-- How long to try the first step. A trial step shows how the slope changes. -/
def Course.firstLength (c : Course) (state slope : Vector) : Float :=
  let interval := (c.stop - c.start).abs
  if interval == 0 then 0
  else
    let magnitudes := state.map Float.abs
    let d := relative state magnitudes
    let s := relative slope magnitudes
    let trial := smaller (if d < 1e-5 || s < 1e-5 then 1e-6 else 0.01 * d / s) interval
    let later := c.flow (along state trial slope)
    let bend := relative (List.zipWith (· - ·) later slope) magnitudes / trial
    let fine :=
      if s <= 1e-15 && bend <= 1e-15 then Scalar.larger 1e-6 (trial * 1e-3)
      else (0.01 / Scalar.larger s bend).pow (1 / 5)
    smaller (smaller (smaller (100 * trial) fine) interval) c.longest

/-! ## Paths -/

/-- Where a path has got to, the slope there, and how long to try the next step. -/
structure Place where
  time : Float
  state : Vector
  slope : Vector
  length : Float
deriving Repr

/-- Take a step from a place, shorter and shorter until its error is tolerated;
the step and the length to try after it, if there is such a step. -/
def Course.attempt (c : Course) (p : Place) (shortest : Float) :
    Nat → Bool → Float → Option (Step × Float)
  | 0, _, _ => none
  | n + 1, again, length =>
    if length < shortest then none
    else
      let reached := p.time + length
      let stop := if 0 < reached - c.stop then c.stop else reached
      let length := stop - p.time
      let step := Step.take c.flow p.time p.state p.slope length
      let defect := step.defect
      if defect < 1 then
        let factor := if defect == 0 then 10 else smaller 10 (adjustment defect)
        some (step, length.abs * (if again then smaller 1 factor else factor))
      else attempt c p shortest n true (length.abs * Scalar.larger 0.2 (adjustment defect))

/-- The next step from a place. -/
def Course.step? (c : Course) (p : Place) : Option (Step × Float) :=
  let shortest := 10 * spacing p.time
  let length :=
    if c.longest < p.length then c.longest
    else if p.length < shortest then shortest
    else p.length
  c.attempt p shortest 2000 false length

/-- The watched function has crossed zero between two values, or touched it. -/
def crossed (g h : Float) : Bool := (g ≤ 0 && 0 ≤ h) || (0 ≤ g && h ≤ 0)

/-- Follow a course from a place, in at most a number of steps; the state at the
end, unless there is a crossing that cannot be located. -/
def Course.follow (c : Course) : Nat → Place → Option Vector
  | 0, p => some p.state
  | n + 1, p =>
    if p.time == c.stop then some p.state
    else
      match c.step? p with
      | none => some p.state
      | some (step, length) =>
        -- the end of the last step is the end of the course itself
        let reached := p.time + step.length
        let time := if 0 ≤ reached - c.stop then c.stop else reached
        if crossed (c.watched p.state) (c.watched step.next) then
          (crossing? (fun t => c.watched (step.stateAt t)) p.time time).map step.stateAt
        else if time == c.stop then some step.next
        else follow c n ⟨time, step.next, step.nextSlope, length⟩

/-- The state at the end of a course. -/
def Course.destination? (c : Course) (state : Vector) : Option Vector :=
  let slope := c.flow state
  c.follow 1000000 ⟨c.start, state, slope, c.firstLength state slope⟩

end ModeSchedule.Integration
