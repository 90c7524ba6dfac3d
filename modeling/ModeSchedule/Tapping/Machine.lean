/-
ModeSchedule.Tapping.Machine — the tapping machine as a domain.

The distance is the depth that is still to be tapped. A step draws energy from
the supply in proportion to the current it ends with, and takes its full length.

Under `discrete` a step is one step of a sampled system. Under `continuous` the
system is followed along its flow, and it comes to rest for the remainder of the
step where the depth passes the threshold.
-/
import ModeSchedule.Tapping.State
import ModeSchedule.Integration.Path
import ModeSchedule.Linear.System
import ModeSchedule.Usage

namespace ModeSchedule.Tapping

variable {K : Type} [Scalar K]

abbrev Candidate (K : Type) := Solution K (State K) (Usage K)

abbrev Setup (K : Type) := Settings K (State K)

/-- What is still to be tapped at a depth. -/
def remaining (setup : Setup K) (depth : K) : K := setup.targetState.depth - depth

def distance (setup : Setup K) (s : Candidate K) : K := remaining setup s.state.depth

/-- Interpolate all components. -/
def blendState (a b : State K) (relative : K) : State K :=
  match a, b with
  | .vector x, .vector y =>
    let change := zipStretched (fun x y => relative * (y - x)) x y
    match change.bind fun d => Linear.zipStretched? (· + ·) x d with
    | some z => .vector z
    | none => .void .shape
  | _, _ => .void .shape
where
  zipStretched (f : K → K → K) (x y : List K) : Option (List K) := Linear.zipStretched? f x y

/-- The state of a candidate after a step of a drive, which needs the voltage
that the drive is under. -/
def supplied (drive : Linear.Drive K) (state : State K) : State K :=
  match state, drive.input with
  | .vector _, [] => .void .short
  | _, _ => state

/-- A candidate that a step of a drive has brought to a new state. -/
def account (setup : Setup K) (drive : Linear.Drive K) (state : State K) (s : Candidate K) :
    Candidate K :=
  let voltage := drive.input.headD 0
  let moved : Candidate K := { s with
    state := supplied drive state
    resources :=
      { energy := s.resources.energy + state.current * voltage * setup.timeDelta
        time := s.resources.time + setup.timeDelta } }
  { moved with distance := some (distance setup moved) }

/-- The machine whose states a drive yields, from the time already used and the
state before. -/
def machine (setup : Setup K) (move : Linear.Drive K → K → State K → State K) :
    Problem K (State K) (Usage K) (Linear.Drive K) :=
  let base : Problem K (State K) (Usage K) (Linear.Drive K) :=
    UsageOrder.tolerant.problem setup (distance setup)
      (fun drive s => account setup drive (move drive s.resources.time s.state) s) blendState
  { base with
    misfit? := State.misfit?
    complete := fun s => s.state.misfit?.isSome || base.complete s }

/-- A step from a state that is a vector; no other state allows one. -/
def stepFrom (step : List K → State K) : State K → State K
  | .vector components => step components
  | .other (.number _) => .void .shape
  | .other (.list _) => .void .kind
  | .void cause => .void cause

/-! ## Discrete time -/

/-- The state after one step of the system of a drive. -/
def sampledMove (drive : Linear.Drive K) : State K → State K :=
  stepFrom fun x =>
    match drive.system.next? drive.input x with
    | some y => .vector y
    | none => .void .shape

def discrete (setup : Setup K) : Problem K (State K) (Usage K) (Linear.Drive K) :=
  machine setup fun drive _ => sampledMove drive

/-! ## Continuous time -/

/-- The course of a state over one step, if the matrices of the drive fit the
state. What is watched is what the depth lacks of the point where the machine
comes to rest. -/
def course? (setup : Setup Float) (drive : Linear.Drive Float) (time : Float)
    (x : List Float) : Option Integration.Course := do
  let size := x.length
  let slope? (y : List Float) : Option (List Float) :=
    (drive.system.next? drive.input y).bind (Linear.stretch? size)
  let longest := setup.timeDelta / 100
  let _ ← slope? x
  if !x.all Float.isFinite || !(0 < longest) then none
  return {
    flow := fun y => (slope? y).getD y
    start := time
    stop := time + setup.timeDelta
    longest
    watched := fun y => remaining setup (State.vector y).depth - setup.threshold }

/-- The state after one step in continuous time. -/
def continuousMove (setup : Setup Float) (drive : Linear.Drive Float) (time : Float) :
    State Float → State Float :=
  stepFrom fun x =>
    match course? setup drive time x with
    | none => .void .shape
    | some course =>
      if x.length < 3 then .void .short
      else match course.destination? x with
        | some y => .vector y
        | none => .void .shape

def continuous (setup : Setup Float) :
    Problem Float (State Float) (Usage Float) (Linear.Drive Float) :=
  machine setup (continuousMove setup)

end ModeSchedule.Tapping
