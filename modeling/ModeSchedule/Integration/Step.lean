/-
ModeSchedule.Integration.Step — one step along a flow, of order five.

Six slopes are sampled for a step, each at a point that the slopes before it lead
to. Weighted in one way they give the state at the end of the step; together with
the slope there, weighted in others, they give an estimate of the error that this
makes, and the state at any instant inside the step, both of order four.
-/
import ModeSchedule.Linear.Matrix

namespace ModeSchedule.Integration

abbrev Vector := Linear.Vector Float

/-- The weights of the slopes before it, for the second slope and those after. -/
def stageWeights : List (List Float) :=
  [[1 / 5],
   [3 / 40, 9 / 40],
   [44 / 45, -56 / 15, 32 / 9],
   [19372 / 6561, -25360 / 2187, 64448 / 6561, -212 / 729],
   [9017 / 3168, -355 / 33, 46732 / 5247, 49 / 176, -5103 / 18656]]

/-- The weights of the first six slopes in the step. -/
def stepWeights : List Float :=
  [35 / 384, 0, 500 / 1113, 125 / 192, -2187 / 6784, 11 / 84]

/-- The weights of all seven slopes in the error. -/
def errorWeights : List Float :=
  [-71 / 57600, 0, 71 / 16695, -71 / 1920, 17253 / 339200, -22 / 525, 1 / 40]

/-- The weights of all seven slopes at an instant inside the step: for each power
of its relative position, from the first to the fourth. -/
def insideWeights : List (List Float) :=
  [[1, 0, 0, 0, 0, 0, 0],
   [-8048581381 / 2820520608, 0, 131558114200 / 32700410799, -1754552775 / 470086768,
    127303824393 / 49829197408, -282668133 / 205662961, 40617522 / 29380423],
   [8663915743 / 2820520608, 0, -68118460800 / 10900136933, 14199869525 / 1410260304,
    -318862633887 / 49829197408, 2019193451 / 616988883, -110615467 / 29380423],
   [-12715105075 / 11282082432, 0, 87487479700 / 32700410799, -10690763975 / 1880347072,
    701980252875 / 199316789632, -1453857185 / 822651844, 69997945 / 29380423]]

/-- A weighted sum of vectors of one size. -/
def weighted (size : Nat) (weights : List Float) (vectors : List Vector) : Vector :=
  (weights.zip vectors).foldl
    (fun sum x => List.zipWith (fun s v => s + x.1 * v) sum x.2) (List.replicate size 0)

/-- Go from a state along a direction, for a length of time. -/
def along (state : Vector) (length : Float) (direction : Vector) : Vector :=
  List.zipWith (fun x d => x + length * d) state direction

/-- A step: where it starts, its length, its seven slopes and where it ends. -/
structure Step where
  time : Float
  state : Vector
  length : Float
  slopes : List Vector
  next : Vector
deriving Repr

namespace Step

/-- Step along a flow, which gives the slope at each state; `slope` is the one
at the start. -/
def take (flow : Vector → Vector) (time : Float) (state slope : Vector) (length : Float) : Step :=
  let size := state.length
  let slopes := stageWeights.foldl
    (fun slopes weights =>
      slopes ++ [flow (along state length (weighted size weights slopes))]) [slope]
  let next := along state length (weighted size stepWeights slopes)
  { time, state, length, slopes := slopes ++ [flow next], next }

/-- The slope at the end. -/
def nextSlope (s : Step) : Vector := s.slopes.getLastD []

/-- What the step is estimated to be off by. -/
def error (s : Step) : Vector :=
  (weighted s.state.length errorWeights s.slopes).map (s.length * ·)

/-- The state at an instant inside the step. -/
def stateAt (s : Step) (time : Float) : Vector :=
  let x := (time - s.time) / s.length
  let size := s.state.length
  let powers := [x, x * x, x * x * x, x * x * x * x]
  along s.state s.length
    (weighted size powers (insideWeights.map fun weights => weighted size weights s.slopes))

end Step
end ModeSchedule.Integration
