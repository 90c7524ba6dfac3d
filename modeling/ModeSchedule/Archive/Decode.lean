/-
ModeSchedule.Archive.Decode — results from saved values.

Reading goes through the value from the outside to the inside and stops at the
first thing that is wrong. What is wrong with the saved data is `Malformed`; a
number that is too big and a state too short to measure are found too late for
that and reported as they are.
-/
import ModeSchedule.Validation.Record

namespace ModeSchedule

/-- Why saved data is not read. -/
inductive DecodeError where
  | missingMember (name : String)
  /-- A value of another kind stands where a member, a list or a number is
  needed. -/
  | wrongKind
  /-- A text says no number, or lists do not line up. -/
  | badValue
  | invalid (rejection : Rejection)
  /-- A number too big for its type. -/
  | overflow
  /-- A state without the component that the distance is measured on. -/
  | shortState
  /-- A state in which that component is a text. -/
  | textState
deriving Repr, DecidableEq

namespace DecodeError

/-- The errors that count as malformed data. -/
def malformed : DecodeError → Bool
  | .overflow | .shortState => false
  | _ => true

def ofUnreadable : Unreadable → DecodeError
  | .kind => .wrongKind
  | .text => .badValue
  | .size => .overflow

/-- A failed check, which may have been abandoned. -/
def ofRejection : Rejection → DecodeError
  | .failures fs => .invalid (.failures fs)
  | .abandoned cause => ofUnreadable cause

end DecodeError

/-- How the states and resources of a domain are read, and how the distance of
a state is measured, if it is. -/
structure Decoder (K S R : Type) where
  state : Json K → Except DecodeError S
  resources : Json K → Except DecodeError R
  distance : Option (S → Except DecodeError K)

namespace Decode

variable {K S R : Type} [Scalar K]

/-- A member that has to be there. -/
def member (name : String) (j : Json K) : Except DecodeError (Json K) :=
  match j with
  | .obj _ =>
    match j.find? name with
    | some v => .ok v
    | none => .error (.missingMember name)
  | _ => .error .wrongKind

/-- What a value offers when it is gone through: the items of a list, the names
of the members of an object, the characters of a text. -/
def items : Json K → Except DecodeError (List (Json K))
  | .arr xs => .ok xs
  | .obj ms => .ok (ms.map fun m => .str m.1)
  | .str s => .ok (s.toList.map fun c => .str (String.singleton c))
  | _ => .error .wrongKind

def entry (j : Json K) : Except DecodeError Entry :=
  (Entry.check j).mapError .ofRejection

def solution (d : Decoder K S R) (j : Json K) : Except DecodeError (Solution K S R) := do
  let schedule ← (← items (← member "sequence" j)).mapM entry
  let state ← d.state (← member "state" j)
  let resources ← d.resources (← member "resources" j)
  match d.distance with
  | none => return { schedule, state, resources, distance := none }
  | some measure =>
    let distance := Scalar.bounded? (← measure state)
    return { schedule, state, resources, distance }

def front (d : Decoder K S R) (j : Json K) : Except DecodeError (Front K S R) := do
  let solutions ← (← items (← member "solutions" j)).mapM (solution d)
  let stepLength ← member "step_length" j
  let stride ← member "steps_per_iteration" j
  let rounds ← member "iteration" j
  let runtime ← member "runtime" j
  (Front.checkNumbers (.ok solutions)
    (.obj [("step_length", stepLength), ("steps_per_iteration", stride),
      ("iteration", rounds), ("runtime", runtime)])).mapError .ofRejection

/-- The fronts of a saved result. -/
def outcome (d : Decoder K S R) (j : Json K) : Except DecodeError (Outcome K S R) := do
  (← items (← member "pareto_fronts" j)).mapM (front d)

end Decode
end ModeSchedule
