/-
ModeSchedule.App.Session — what the program does with a configuration.

A search is performed, its result sorted, listed and saved, and then refined if
the configuration says so; a simulation runs each mode by itself. A session is
recorded: the messages in order, the text of the file, and what went wrong.
-/
import ModeSchedule.App.Configuration
import ModeSchedule.Archive.SavedRun
import ModeSchedule.Report.Search
import ModeSchedule.Report.Swarm
import ModeSchedule.Report.Comparison

namespace ModeSchedule.App

inductive Failure where
  | config (cause : ConfigError)
  | rejected (cause : Rejection)
  | machine (cause : Tapping.MachineError)
  | plan (cause : PlanError)
  | save (cause : SaveError)
  | swarm (cause : SwarmError)
deriving Repr

/-- The record of a session. -/
structure Session where
  messages : List Message
  file : Option String
  failure : Option Failure

namespace Session

/-- A session that went wrong after some messages. -/
def failed (messages : List Message) (cause : Failure) : Session := ⟨messages, none, some cause⟩

/-- A session with messages in front. -/
def after (messages : List Message) (s : Session) : Session :=
  { s with messages := messages ++ s.messages }

/-- Go on with what a step yields, unless it went wrong. -/
def andThen {ε α : Type} (step : Except ε α) (failure : ε → Failure) (next : α → Session) :
    Session :=
  match step with
  | .ok x => next x
  | .error cause => failed [] (failure cause)

end Session

/-- What a session works on. -/
structure Workshop where
  configuration : Configuration
  problem : Problem Float (Tapping.State Float) (Usage Float) (Linear.Drive Float)
  gears : List (Tapping.Gear Float)

namespace Workshop

open Session (andThen)

def modes (w : Workshop) : List (Mode (Linear.Drive Float)) := w.gears.map Tapping.Gear.mode

/-- Build what a configuration describes. -/
def build (c : Configuration) : Except Failure Workshop := do
  let variant ← c.variant.mapError .config
  let settings ← c.settings.mapError .config
  let setup ← (Settings.check Tapping.State.check settings).mapError .rejected
  let ratios ← (← c.ratios.mapError .config).mapError .machine
  let parameters ← c.parameters.mapError .config
  let base ← (Tapping.Parameters.check parameters).mapError .rejected
  let given (x : Float) : Given Float := (Json.real x).given
  let interval := match variant with
    | .discrete => some (given setup.timeDelta)
    | .continuous => none
  let gears ← (Tapping.gears base interval (ratios.map given)).mapError .machine
  let problem := match variant with
    | .discrete => Tapping.discrete setup
    | .continuous => Tapping.continuous setup
  return { configuration := c, problem, gears }

abbrev Found := Outcome Float (Tapping.State Float) (Usage Float)

/-! ## Searching -/

/-- Refine a result with the swarm that a section describes. What is wrong with
the section shows when the first candidate is taken up. -/
def refined (w : Workshop) (description : Configuration) (found : Found) (seed : Int) : Session :=
  let first := Report.firstRefinement found
  match description.swarm, first with
  | .error cause, _ :: _ => .failed first (.config cause)
  | swarm, _ =>
    let q := swarm.toOption.getD Swarm.Parameters.idle
    andThen (Swarm.outcome (some w.problem) q w.modes found (.seed seed)) .swarm fun refinements =>
      let refined : Found := refinements.map Swarm.FrontRefinement.refined
      { messages := Report.outcomeRefinement refinements ++
          Report.listing Usage.columnText .info refined ++ Report.comparison found refined
        file := none
        failure := none }

/-- Refine a result and compare the two. -/
def refine (w : Workshop) (entropy : Nat) (found : Found) : Session :=
  let running := Message.info fun _ => "[app] Running PSO..."
  Session.after [running] <|
    andThen w.configuration.swarmSection .config fun description =>
    andThen (w.configuration.seed entropy) .config fun seed =>
    andThen (Swarm.requireGenerator (.seed seed)) .swarm fun _ =>
    w.refined description found seed

/-- Save a result, and go on with refining it if that is asked for. -/
def save (w : Workshop) (path : String) (entropy : Nat) (found : Found) : Session :=
  andThen (SavedRun.text StateFormat.tapping w.problem.settings found
    (w.modes.map SavedMode.ofDrive) (some (w.gears.map fun g => g.parameters.toJson))) .save
    fun text =>
      let saved := Message.info fun _ => s!"[app] Saved {found.length} Pareto fronts to {path}"
      let rest := andThen w.configuration.refines .config fun refines =>
        if refines then w.refine entropy found else ⟨[], none, none⟩
      { Session.after [saved] rest with file := some text }

/-- Search with a number of levels, sort, list and save. -/
def searchLevels (w : Workshop) (algorithm : Algorithm) (levels : Given Float) (path : String)
    (keys : List String) (entropy : Nat) : Session :=
  match Search.sweep (some w.problem) w.modes 0.0 0.0 algorithm levels keys 0.0 with
  | .error cause =>
    .failed (Report.refusedSweep w.problem w.modes.length algorithm levels cause) (.plan cause)
  | .ok sweep =>
    let found := sweep.outcome.sorted
    let sorting := Message.info fun _ => "[app] Sorting solutions..."
    Session.after
      (Report.sweep Usage.columnText sweep ++ [sorting] ++
        Report.listing Usage.columnText .info found)
      (w.save path entropy found)

/-- Search as the configuration says. -/
def search (w : Workshop) (path : String) (keys : List String) (entropy : Nat) : Session :=
  andThen w.configuration.algorithm .config fun algorithm =>
    Session.after [.info fun _ => "[app] Searching..."] <|
      andThen w.configuration.levels .config fun levels =>
        w.searchLevels algorithm levels path keys entropy

/-! ## Simulating -/

/-- The line about one mode that has been run by itself. -/
def simulated (w : Workshop) (m : Mode (Linear.Drive Float))
    (run : List (Tapping.Candidate Float)) : Message :=
  match run.getLast? with
  | none => .info fun _ => s!"[app] Mode {aligned 2 m.id}: already at the target"
  | some final =>
    let complete := if w.problem.complete final then "True" else "False"
    .info fun _ => s!"[app] Mode {aligned 2 m.id}: {aligned 6 run.length} steps, " ++
      s!"depth {fixed 8 3 final.state.depth}, complete: {complete}, " ++
      s!"resources: {final.resources.columnText}"

/-- Run modes by themselves, one after the other, each for a number of steps. -/
def simulateEach (w : Workshop) (steps : Nat) : List (Mode (Linear.Drive Float)) → Session
  | [] => ⟨[], none, none⟩
  | m :: rest =>
    andThen (Simulation.trajectory (some w.problem) m.dynamics (.whole steps)) .plan fun run =>
      Session.after [w.simulated m run] (simulateEach w steps rest)

/-- Run every mode by itself over the whole horizon. -/
def simulate (w : Workshop) : Session :=
  andThen w.problem.maxSteps (fun cause => .plan (.horizon cause)) fun steps =>
    Session.after
      [.info fun _ => s!"[app] Simulating {w.modes.length} modes for {steps} steps..."]
      (w.simulateEach steps w.modes)

end Workshop

/-- Perform a session. Keys are read where the search pauses; `entropy` is the
seed where none is given. -/
def Session.perform (c : Configuration) (path : String) (keys : List String) (entropy : Nat) :
    Session :=
  andThen c.activity .config fun activity =>
    andThen (Workshop.build c) id fun w =>
      match activity with
      | .search => w.search path keys entropy
      | .simulation => w.simulate

end ModeSchedule.App
