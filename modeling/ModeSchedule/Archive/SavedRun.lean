/-
ModeSchedule.Archive.SavedRun — a whole run as the text of a file.

A file holds the settings of a search, its result, and the modes with the
parameters they were made from. Loading checks the settings and measures the
distances of the result anew.
-/
import ModeSchedule.Archive.Encode
import ModeSchedule.Archive.Decode
import ModeSchedule.Json.Reader
import ModeSchedule.Json.Writer
import ModeSchedule.Linear.System
import ModeSchedule.Rate
import ModeSchedule.Tapping.Machine

namespace ModeSchedule

/-- A mode as it is saved. -/
structure SavedMode (K : Type) where
  id : Nat
  system : Json K
  input : Json K
deriving Repr

/-- Why a run is not saved. -/
inductive SaveError where
  | parameterSets (given modes : Nat)
  /-- The limit has no whole seconds. -/
  | limit (cause : NoInteger)
  | unwritable (cause : Json.Unwritable)
deriving Repr, DecidableEq

def SaveError.message : SaveError → String
  | parameterSets given modes => s!"Got {given} parameter sets for {modes} modes"
  | limit _ => "the limit has no whole seconds"
  | unwritable _ => "a value cannot be written"

/-- Why a run is not loaded. -/
inductive LoadError where
  | noText
  /-- Something other than an object. -/
  | wrongKind
  | missingSettings
  | settings (rejection : Rejection)
  | missingResult
  | result (cause : DecodeError)
deriving Repr, DecidableEq

namespace DecodeError

/-- The message about saved data in which a member is missing. -/
def missingMessage (name : String) : String := s!"Malformed result data: '{name}'"

end DecodeError

namespace LoadError

def missingSettingsMessage (path : String) : String :=
  "Failed to load \x60" ++ path ++ "\x60: 'manager'"

def missingResultMessage (path : String) : String :=
  "Failed to load \x60" ++ path ++ "\x60: missing 'results'"

end LoadError

/-! ## Modes -/

section

variable {K : Type} [Scalar K]

/-- The mode of a rate. -/
def SavedMode.ofRate (m : Mode K) (rate : K) : SavedMode K :=
  { id := m.id, system := .str "rate", input := .real rate }

/-- The mode of a linear system. -/
def SavedMode.ofDrive (m : Mode (Linear.Drive K)) : SavedMode K :=
  { id := m.id
    system := m.dynamics.system.toJson
    input := Json.reals m.dynamics.input }

end

/-! ## Domains -/

/-- How the states of a domain stand in files: `S` in settings, `T` in results,
where more is allowed. -/
structure StateFormat (K S T : Type) where
  toJson : S → Json K
  check : Json K → Check S
  /-- The state that a candidate is given. -/
  read : Json K → Check S
  resultToJson : T → Json K
  decode : Json K → Except DecodeError T
  /-- The distance of a saved state under given settings. -/
  distance : Settings K S → T → Except DecodeError K

namespace StateFormat

variable {K : Type} [Scalar K]

/-- States that are numbers. -/
def number : StateFormat K K K :=
  { toJson := .real
    check := Check.number
    read := Check.number
    resultToJson := .real
    decode := fun j => j.toNumber.mapError .ofUnreadable
    distance := fun settings x => .ok (Rate.remaining settings x) }

/-- A number in a saved state, where a text is another error. -/
def savedNumber (text : DecodeError) : Json K → Except DecodeError K
  | .str _ => .error text
  | v => v.toNumber.mapError .ofUnreadable

/-- What numbers in lists stand for: nothing, unless a lone one is allowed to count. -/
def loneNumber (lone : Bool) : List K → Except DecodeError K
  | [x] => if lone then .ok x else .error .wrongKind
  | _ => .error .wrongKind

/-- The depth of a saved state of the tapping machine. Lists in its place are gone through value
by value. -/
def savedDepth (lone : Bool) : Json K → Except DecodeError K
  | .arr items =>
    match items.drop 2 with
    | [] => .error .shortState
    | .arr parts :: _ => do
      let text := if (Json.arr items).kindAfter .truth = .text then .textState else .wrongKind
      loneNumber lone (← (Json.arr parts).leaves.mapM (savedNumber text))
    | depth :: _ => savedNumber .textState depth
  | _ => .error .shortState

/-- States of the tapping machine. Results may have any values in their place,
as long as they are uniform. -/
def tappingWith (lone : Bool) : StateFormat Float (Tapping.State Float) (Json Float) :=
  { toJson := Tapping.State.toJson
    check := Tapping.State.check
    read := Tapping.State.read
    resultToJson := id
    decode := fun j => j.uniform?.elim (.error .badValue) .ok
    distance := fun settings j => do return Tapping.remaining settings (← savedDepth lone j) }

/-- States of the tapping machine, where lists do not count as numbers. -/
def tapping : StateFormat Float (Tapping.State Float) (Json Float) := tappingWith false

variable {S T : Type}

/-- How results are read, with distances if settings are given. -/
def decoder (f : StateFormat K S T) (settings : Option (Settings K S)) :
    Decoder K T (Usage K) :=
  { state := f.decode
    resources := fun j => (Usage.check j).mapError .ofRejection
    distance := settings.map f.distance }

end StateFormat

/-! ## Files -/

namespace SavedRun

section

variable {K S T : Type} [Scalar K]

/-- Give each mode the parameters at its place, or none. -/
def pairParameters (modes : List (SavedMode K)) :
    Option (List (Json K)) → Except SaveError (List (SavedMode K × Json K))
  | none => .ok (modes.map fun m => (m, .null))
  | some parameters =>
    if parameters.length = modes.length then .ok (modes.zip parameters)
    else .error (.parameterSets parameters.length modes.length)

/-- A run as a value. -/
def toJson (f : StateFormat K S T) (settings : Settings K S) (o : Outcome K S (Usage K))
    (modes : List (SavedMode K)) (parameters : Option (List (Json K))) :
    Except SaveError (Json K) := do
  let modes ← pairParameters modes parameters
  let head ← (settings.toJson f.toJson).mapError .limit
  return .obj
    [("manager", head),
     ("results", o.toJson f.toJson Usage.toJson),
     ("modes", .arr (modes.map fun (m, p) => modeToJson m.id m.system m.input p))]

/-- Read a run from a value. -/
def ofJson (f : StateFormat K S T) (root : Json K) :
    Except LoadError (Settings K S × Outcome K T (Usage K)) :=
  match root with
  | .obj _ => do
    let head ← match root.find? "manager" with
      | some v => pure v
      | none => throw .missingSettings
    let settings ← (settings? head)
    let results ← match root.find? "results" with
      | some v => pure v
      | none => throw .missingResult
    let o ← (Decode.outcome (f.decoder (some settings)) results).mapError .result
    return (settings, o)
  | _ => .error .wrongKind
where
  settings? (j : Json K) : Except LoadError (Settings K S) :=
    (Settings.check f.check j).mapError .settings

end

variable {S T : Type}

/-- The text of a run. -/
def text (f : StateFormat Float S T) (settings : Settings Float S)
    (o : Outcome Float S (Usage Float)) (modes : List (SavedMode Float))
    (parameters : Option (List (Json Float))) : Except SaveError String := do
  let value ← toJson f settings o modes parameters
  (Json.write Json.Style.lines value).mapError .unwritable

/-- Read a run from the bytes of a file. -/
def load (f : StateFormat Float S T) (bytes : ByteArray) :
    Except LoadError (Settings Float S × Outcome Float T (Usage Float)) :=
  match (String.fromUTF8? bytes).bind (Json.parse? Json.Dialect.file) with
  | some root => ofJson f root
  | none => .error .noText

end SavedRun
end ModeSchedule
