/-
ModeSchedule.Search.Level — searching at one resolution.

A level extends candidates by blocks of a fixed number of steps. It starts from
one seed per mode and from the candidates that an earlier level accepted, and
performs rounds until no incomplete candidate is left, the horizon is covered,
or the stopwatch of the search has expired.
-/
import ModeSchedule.Search.Round
import ModeSchedule.Word

namespace ModeSchedule

/-- The blocks of a level: steps per block, simulated time per block, and how
many blocks fit into the horizon. -/
structure Resolution (K : Type) where
  stride : Nat
  stepLength : K
  blocks : Nat
deriving Repr

namespace Resolution

variable {K S R A : Type} [Scalar K]

/-- The blocks of a given number of steps. -/
def ofStride (P : Problem K S R A) (stride : Nat) : Except PlanError (Resolution K) :=
  match Scalar.ofInt? stride with
  | none => .error .strideTooLong
  | some (count : K) =>
    let stepLength := P.settings.timeDelta * count
    match P.blocksWithin stepLength with
    | .error cause => .error (.horizon cause)
    | .ok blocks => .ok { stride, stepLength, blocks }

/-- The stride of a front, from a real number of steps. -/
def wholeStride (steps : K) : Except PlanError Nat :=
  match Scalar.exact steps with
  | .finite q =>
    if q.den = 1 ∧ Word.inside q.num then .ok q.num.toNat else .error (.unfitStride (.finite q))
  | value => .error (.unfitStride value)

/-- The blocks of a number of steps that need not be whole as long as no block
fits into the horizon. -/
def ofGiven (P : Problem K S R A) : Given K → Except PlanError (Resolution K)
  | .real steps _ => do
    let stepLength := P.settings.timeDelta * steps
    match P.blocksWithin stepLength with
    | .error cause => throw (.horizon cause)
    | .ok 0 => return { stride := ← wholeStride steps, stepLength, blocks := 0 }
    | .ok _ => throw .noCount
  | given => do ofStride P (← requireCount given)

end Resolution

/-- A level: its blocks, the stopwatch of the search, the clock when it began,
the frontier it began with, and its rounds in order. -/
structure Level (K S R : Type) where
  resolution : Resolution K
  watch : Stopwatch K
  startedAt : K
  start : Frontier K S R
  rounds : List (Round K S R)
deriving Repr

namespace Level

variable {K S R A : Type} [Scalar K]

/-- The frontier a level begins with. -/
def startFrontier (w : Workspace K S R A) (accepted : List (Solution K S R)) :
    Frontier K S R :=
  { partials := (List.range w.modes.length).map w.problem.seed, accepted }

/-- At most a number of rounds, each working on what the one before left. -/
def runRounds (w : Workspace K S R A) (algorithm : Algorithm) (stride : Nat)
    (watch : Stopwatch K) : Nat → Frontier K S R → K → List (Round K S R)
  | 0, _, _ => []
  | n + 1, frontier, clock =>
    if frontier.partials.isEmpty then []
    else
      let r := Round.perform w algorithm stride (some watch) frontier clock
      if r.failure?.isSome || watch.expired r.clock then [r]
      else r :: runRounds w algorithm stride watch n r.after r.clock

/-- Perform a level. -/
def perform (w : Workspace K S R A) (algorithm : Algorithm) (resolution : Resolution K)
    (watch : Stopwatch K) (accepted : List (Solution K S R)) (clock : K) : Level K S R :=
  let start := startFrontier w accepted
  { resolution, watch, startedAt := clock, start
    rounds := runRounds w algorithm resolution.stride watch resolution.blocks start clock }

/-- The frontier reached. -/
def final (l : Level K S R) : Frontier K S R :=
  match l.rounds.getLast? with
  | some r => r.after
  | none => l.start

/-- The clock at the end. -/
def clock (l : Level K S R) : K :=
  match l.rounds.getLast? with
  | some r => r.clock
  | none => l.startedAt

/-- Why the last round failed, if it did. -/
def failure? (l : Level K S R) : Option PlanError :=
  l.rounds.getLast?.bind Round.failure?

/-- The candidates that are compared in some round. -/
def compared (l : Level K S R) : List (Solution K S R) := l.rounds.flatMap Round.compared

/-- What the level found. -/
def front (l : Level K S R) : Front K S R :=
  { solutions := l.final.accepted
    stepLength := l.resolution.stepLength
    stride := l.resolution.stride
    rounds := l.rounds.length
    runtime := (Stopwatch.started none l.startedAt).elapsed l.clock }

end Level

namespace Search

variable {K S R A : Type} [Scalar K]

/-- Perform a level on request, under a running stopwatch or else under one
with the timeout of the problem that starts now. -/
def level (problem : Option (Problem K S R A)) (modes : List (Mode A)) (stepCost : K)
    (algorithm : Algorithm) (stride : Given K) (previous : Option (Front K S R))
    (watch : Option (Stopwatch K)) (clock : K) : Except PlanError (Level K S R) := do
  let problem ← requireProblem problem
  requirePositive .stride stride
  requireModes modes
  let resolution ← Resolution.ofGiven problem stride
  let watch := watch.getD (Stopwatch.started problem.settings.timeout clock)
  let level := Level.perform { problem, modes, stepCost } algorithm resolution
    watch ((previous.map Front.solutions).getD []) clock
  requireMeasured problem level.compared
  match level.failure? with
  | some cause => throw cause
  | none => return level

end Search
end ModeSchedule
