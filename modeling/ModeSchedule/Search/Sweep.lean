/-
ModeSchedule.Search.Sweep — the coarse-to-fine search.

Levels are performed from the coarsest stride to single steps, each seeded with
the candidates that the level before it accepted. An interactive search pauses
after each level; the stopwatch does not run while it waits for keys. The
search ends early when the user quits or the stopwatch has expired.

A sweep is recorded level by level; its outcome is the list of the fronts that
are not empty.
-/
import ModeSchedule.Search.Level
import ModeSchedule.Search.Prompt

namespace ModeSchedule

/-- A level and what followed it: the answer to the pause, if there was one,
and the stopwatch and the clock after it. -/
structure Stage (K S R : Type) where
  level : Level K S R
  answer : Option Answer
  watch : Stopwatch K
  clock : K
deriving Repr

namespace Stage

variable {K S R : Type} [Scalar K]

/-- The user has asked for the search to stop. -/
def quit (s : Stage K S R) : Bool :=
  s.answer.any fun a => a.command == .quit

/-- The stopwatch has expired. -/
def expired (s : Stage K S R) : Bool := s.watch.expired s.clock

/-- No level follows. -/
def last (s : Stage K S R) : Bool := s.quit || s.expired || s.level.failure?.isSome

end Stage

/-- A recorded search: the blocks of every planned level, the levels performed
in order, and the stopwatch and clock at the end. -/
structure Sweep (K S R : Type) where
  algorithm : Algorithm
  modes : Nat
  plan : List (Resolution K)
  stages : List (Stage K S R)
  watch : Stopwatch K
  clock : K
deriving Repr

namespace Sweep

variable {K S R A : Type} [Scalar K]

/-- Pause after a level, if the search still does: read an answer with the
stopwatch stopped. -/
def conclude (pausing : Bool) (script : Script K) (level : Level K S R) : Stage K S R :=
  let clock := level.clock
  if pausing then
    let a := Prompt.answer script.keys
    let later := script.pass a.read.length clock
    { level, answer := some a, clock := later
      watch := (level.watch.pause clock).start later }
  else { level, answer := none, watch := level.watch, clock }

/-- The levels of a plan, one after the other. -/
def runStages (w : Workspace K S R A) (algorithm : Algorithm) :
    List (Resolution K) → List (Solution K S R) → Bool → Script K → Stopwatch K → K →
      List (Stage K S R)
  | [], _, _, _, _, _ => []
  | resolution :: plan, accepted, pausing, script, watch, clock =>
    let level := Level.perform w algorithm resolution watch accepted clock
    let stage := conclude pausing script level
    if stage.last then [stage]
    else
      let pausing := pausing && !stage.answer.any fun a => a.command == .resume
      let script := (stage.answer.map script.after).getD script
      stage ::
        runStages w algorithm plan level.final.accepted pausing script stage.watch stage.clock

/-- Sweep the levels of a plan. -/
def perform (w : Workspace K S R A) (algorithm : Algorithm) (plan : List (Resolution K))
    (script : Script K) (clock : K) : Sweep K S R :=
  let settings := w.problem.settings
  let watch := Stopwatch.started settings.timeout clock
  let stages := runStages w algorithm plan [] settings.interactive script watch clock
  let (watch, clock) := match stages.getLast? with
    | some s => (s.watch, s.clock)
    | none => (watch, clock)
  { algorithm, modes := w.modes.length, plan, stages, watch, clock }

/-- The fronts that are not empty, coarsest first. -/
def outcome (s : Sweep K S R) : Outcome K S R :=
  (s.stages.map fun stage => stage.level.front).filter fun f => !f.solutions.isEmpty

/-- All keys read, in order. -/
def keysRead (s : Sweep K S R) : List String :=
  s.stages.flatMap fun stage => (stage.answer.map Answer.read).getD []

/-- Why a level failed, if one did. -/
def failure? (s : Sweep K S R) : Option PlanError :=
  s.stages.findSome? fun stage => stage.level.failure?

end Sweep

namespace Search

variable {K S R A : Type} [Scalar K]

/-- Every mode stands at the position its id names. -/
def checkIds (modes : List (Mode A)) : Except PlanError Unit :=
  match modes.zipIdx.find? fun x => x.1.id != x.2 with
  | some (m, position) => .error (.misplacedMode position m.id)
  | none => .ok ()

/-- Search on request, while keys come as a script says. -/
def scriptedSweep (problem : Option (Problem K S R A)) (modes : List (Mode A)) (stepCost : K)
    (algorithm : Algorithm) (levels : Given K) (script : Script K) (clock : K) :
    Except PlanError (Sweep K S R) := do
  let problem ← requireProblem problem
  requirePositive .levels levels
  requireModes modes
  checkIds modes
  let plan ← (← algorithm.stridesFor levels).mapM (Resolution.ofStride problem)
  let sweep := Sweep.perform { problem, modes, stepCost } algorithm plan script clock
  requireMeasured problem (sweep.stages.flatMap fun stage => stage.level.compared)
  match sweep.failure? with
  | some cause => throw cause
  | none => return sweep

/-- Search on request, where all keys take equally long. -/
def sweep (problem : Option (Problem K S R A)) (modes : List (Mode A)) (stepCost keyCost : K)
    (algorithm : Algorithm) (levels : Given K) (keys : List String) (clock : K) :
    Except PlanError (Sweep K S R) :=
  scriptedSweep problem modes stepCost algorithm levels (.steady keys keyCost) clock

end Search
end ModeSchedule
