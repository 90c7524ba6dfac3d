/-
ModeSchedule.Tapping.Gear — the modes of a tapping machine.

Each gear ratio is a mode. Its system has the angular speed, the current and the
depth as its state, and the voltage and the friction at rest as its input.
Discrete modes are sampled at a given interval.
-/
import ModeSchedule.Given
import ModeSchedule.Tapping.Parameters
import ModeSchedule.Linear.System
import ModeSchedule.Problem

namespace ModeSchedule.Tapping

/-- Why a machine cannot be built. What was given is kept as it was spelled. -/
inductive MachineError where
  | sampleTime (given : String)
  /-- The sampling interval is no number. -/
  | undefinedSampleTime
  /-- The matrices of a system do not fit together. -/
  | misfit
  | noGears
  | gear (given : String)
  /-- A negative number of values. -/
  | count (given : String)
  /-- Values are to be spread from or to a text. -/
  | text
  | unreadable (cause : Unreadable)
deriving Repr, DecidableEq

def MachineError.message : MachineError → String
  | sampleTime given => s!"sample_time must be greater than 0, got {given}"
  | undefinedSampleTime => "sample_time:greater_than"
  | misfit => "the matrices do not fit together"
  | noGears => "at least one gear factor is required"
  | gear given => s!"gear factors must be positive, got {given}"
  | count given => s!"num must be non-negative, got {given}"
  | text => "a text is no number to spread values from"
  | unreadable _ => "a number cannot be read"

variable {K : Type} [Scalar K]

/-! ## Systems -/

/-- Revolutions per radian, from nine decimals of the degrees in a radian. -/
def revolutions : K := Scalar.ofDecimal 57295779513 (-9) / 360

/-- The system of a machine. -/
def Parameters.system (p : Parameters K) : Linear.System K :=
  let depth := revolutions * p.slope * p.gear
  Linear.System.observed 3
    [[-p.friction / p.momentum, p.torque / p.momentum,
        -p.dynamicFriction * p.gear / p.momentum],
     [-p.backForce / p.inductance, -p.resistance / p.inductance, 0],
     [depth, 0, 0]]
    [[0, -p.gear / p.momentum],
     [1 / p.inductance, 0],
     [0, 0]]

/-- The input of a machine. -/
def Parameters.input (p : Parameters K) : Linear.Vector K := [p.voltage, p.staticFriction]

/-- A number that has to be positive, and is refused by `refusal` if it is not. -/
def positiveNumber (refusal : String → MachineError) (given : Given K) :
    Except MachineError K :=
  match given.atMostZero? with
  | none => .error (.unreadable .kind)
  | some true => .error (refusal given.spelling)
  | some false => given.toScalar.mapError .unreadable

/-- Hold the input of a system over a sampling interval, which has to be
positive. -/
def sample (s : Linear.System K) (interval : Given K) :
    Except MachineError (Linear.System K) := do
  let t ← positiveNumber .sampleTime interval
  match s.held? t with
  | none => throw .misfit
  | some held => if 0 < t then return held else throw .undefinedSampleTime

/-! ## Gears -/

/-- A gear ratio with the parameters of its machine and its mode. -/
structure Gear (K : Type) where
  parameters : Parameters K
  mode : Mode (Linear.Drive K)
deriving Repr

/-- The gear at a position. -/
def Gear.make (base : Parameters K) (interval : Option (Given K)) (position : Nat)
    (ratio : Given K) : Except MachineError (Gear K) := do
  let parameters := { base with gear := ← positiveNumber .gear ratio }
  let system ← match interval with
    | none => pure parameters.system
    | some t => sample parameters.system t
  return { parameters, mode := ⟨position, { system, input := parameters.input }⟩ }

/-- One gear per ratio; at least one is required. -/
def gears (base : Parameters K) (interval : Option (Given K)) (ratios : List (Given K)) :
    Except MachineError (List (Gear K)) :=
  if ratios.isEmpty then .error .noGears
  else ratios.zipIdx.mapM fun x => Gear.make base interval x.2 x.1

/-! ## Evenly spaced ratios -/

/-- A number of evenly spaced values, the last of which is `stop`. -/
def spread (start stop : K) (count : Nat) : List K :=
  let intervals : K := Scalar.ofNat (count - 1)
  let span := stop - start
  let step := span / intervals
  let value (i : Nat) : K :=
    if i + 1 = count then stop
    else if step == 0 then Scalar.ofNat i / intervals * span + start
    else Scalar.ofNat i * step + start
  (List.range count).map value

/-- Evenly spaced values on request; a single one may also be given as a text. -/
def evenly (start stop : Json K) (count : Given K) : Except MachineError (List K) := do
  match count.negative? with
  | none => throw (.unreadable .kind)
  | some true => throw (.count count.spelling)
  | some false =>
    if count.isOne then return [← stop.toNumber.mapError .unreadable]
    else match count.integer? with
      | none => throw (.unreadable .kind)
      | some n => return spread (← number start) (← number stop) n.toNat
where
  number : Json K → Except MachineError K
    | .str _ => .error .text
    | v => v.toNumber.mapError .unreadable

end ModeSchedule.Tapping
