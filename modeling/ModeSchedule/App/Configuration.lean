/-
ModeSchedule.App.Configuration — what a configuration asks for.

A configuration is an object with the sections `problem`, `search` and `pso`.
It says whether to search or to simulate, and on which variant of the tapping
machine.

Members are looked up where they are needed. One that is missing, or that still
holds the marker for something to be filled in, is an error there and then.
-/
import ModeSchedule.Validation.Record
import ModeSchedule.Json.Spelling
import ModeSchedule.Tapping.Gear
import ModeSchedule.Tapping.Machine
import ModeSchedule.Swarm.Parameters
import ModeSchedule.Search.Algorithm

namespace ModeSchedule.App

inductive Activity where
  | search
  | simulation
deriving Repr, DecidableEq

inductive Variant where
  | discrete
  | continuous
deriving Repr, DecidableEq

/-- What is wrong with a configuration itself. -/
inductive ConfigError where
  | activity (given : String)
  | variant (given : String)
  /-- A section has no member of a name. -/
  | missing (name : String)
  /-- A member is looked up in something that is no section. -/
  | noSection (name : String)
  /-- A member has not been filled in. -/
  | unfilled (name : String)
  | unknownAlgorithm
  /-- The swarm that a section describes cannot be built. -/
  | unbuildable
  /-- A value is none of the kind that is needed. -/
  | unreadable (cause : Unreadable)
deriving Repr, DecidableEq

def ConfigError.message : ConfigError → String
  | activity given => s!"Unknown run mode '{given}', expected 'search' or 'simulation'"
  | variant given => s!"Unknown tapping variant '{given}', expected 'discrete' or 'continuous'"
  | missing name => s!"there is no '{name}'"
  | noSection name => s!"'{name}' is looked up in something that is no section"
  | unfilled name => s!"'{name}' has not been filled in"
  | unknownAlgorithm => "unknown algorithm"
  | unbuildable => "the swarm cannot be built"
  | unreadable _ => "a value is not of the kind that is needed"

abbrev Configuration := Json Float

namespace Configuration

/-! ## Looking things up -/

/-- The marker for what is still to be filled in. -/
def marker : String := "???"

/-- A member of a section. -/
def member (c : Configuration) (name : String) : Except ConfigError Configuration :=
  match c with
  | .obj _ =>
    match c.find? name with
    | none => .error (.missing name)
    | some (.str s) => if s == marker then .error (.unfilled name) else .ok (.str s)
    | some v => .ok v
  | .arr _ => .error (.missing name)
  | _ => .error (.noSection name)

/-- A value by its path. -/
def lookup (c : Configuration) (path : List String) : Except ConfigError Configuration :=
  path.foldlM member c

/-- An object whose members have all been filled in. -/
def filled (members : List (String × Configuration)) : Except ConfigError Configuration := do
  return .obj (← members.mapM fun (name, _) => do
    return (name, ← Configuration.member (.obj members) name))

/-- A value without members: sections count as empty lists. -/
def closed : Configuration → Configuration
  | .obj _ => .arr []
  | v => v

/-! ## The problem -/

def activity (c : Configuration) : Except ConfigError Activity := do
  match (← c.lookup ["run"]).spelled with
  | "search" => return .search
  | "simulation" => return .simulation
  | given => throw (.activity given)

def variant (c : Configuration) : Except ConfigError Variant := do
  match (← c.lookup ["problem", "variant"]).spelled with
  | "discrete" => return .discrete
  | "continuous" => return .continuous
  | given => throw (.variant given)

/-- The settings as data. A search starts at rest and ends at the depth of the
problem. -/
def settings (c : Configuration) : Except ConfigError Configuration := do
  let zero : Configuration := .real 0.0
  let depth ← c.lookup ["problem", "depth"]
  let entries ← ["time_delta", "time_max", "threshold", "timeout", "interactive"].mapM
    fun name => do return (name, (← c.lookup ["search", name]).closed)
  return .obj
    ([("initial_state", .arr [zero, zero, zero]),
      ("target_state", .arr [zero, zero, depth.closed])] ++ entries)

/-- The gear ratios, from the greatest to the least. -/
def ratios (c : Configuration) :
    Except ConfigError (Except Tapping.MachineError (List Float)) := do
  let greatest ← c.lookup ["problem", "max_gear"]
  let least ← c.lookup ["problem", "min_gear"]
  let count ← c.lookup ["problem", "num_gear"]
  return Tapping.evenly greatest least count.given

/-- The parameters of the machine, which may be left out. -/
def parameters (c : Configuration) : Except ConfigError Configuration := do
  match (← c.lookup ["problem"]).find? "parameters" with
  | none => return .obj []
  | some (.obj members) => filled members
  | some _ => throw (.unreadable .kind)

/-! ## The search -/

def algorithm (c : Configuration) : Except ConfigError Algorithm := do
  match (← c.lookup ["search", "algorithm"]) with
  | .str name =>
    match Algorithm.ofName? name with
    | some a => return a
    | none => throw .unknownAlgorithm
  | _ => throw .unknownAlgorithm

def levels (c : Configuration) : Except ConfigError (Given Float) := do
  return (← c.lookup ["search", "iterations"]).given

/-! ## The refinement -/

/-- Whether the result is refined. -/
def refines (c : Configuration) : Except ConfigError Bool := do
  return (← c.lookup ["pso", "enabled"]).truthy

/-- The seed of a refinement; `entropy` where there is none. -/
def seed (c : Configuration) (entropy : Nat) : Except ConfigError Int := do
  match (← c.lookup ["pso", "seed"]) with
  | .null => return entropy
  | .int n => return n
  | .bool b => return if b then 1 else 0
  | _ => throw (.unreadable .kind)

/-- The member that tells what a section is to be built into. -/
def target : String := "_target_"

/-- What a section is to be built into, if it says so. -/
def target? (s : Configuration) : Option Configuration :=
  (s.find? target).filter fun
    | .str s => s != marker
    | _ => true

/-- A path that leads to the settings of a swarm. -/
def isSwarmPath : Configuration → Bool
  | .str path => path.endsWith ".SolverParameters"
  | _ => false

/-- The section with the settings of the swarm. One that says what it is built
into is checked as a whole; another one is kept as it is. -/
def swarmSection (c : Configuration) : Except ConfigError Configuration := do
  let s ← c.lookup ["pso", "parameters"]
  match s, s.target? with
  | .obj members, some path =>
    if !isSwarmPath path then throw .unbuildable
    match Swarm.Parameters.check (← filled members) with
    | .ok q => return q.toJson
    | .error _ => throw .unbuildable
  | .obj _, none | .arr _, _ | .null, _ => return s
  | _, _ => throw .unbuildable

/-- A number of things. -/
def count (c : Configuration) (name : String) : Except ConfigError Int := do
  match (← c.member name).given.integer? with
  | some n => return n
  | none => throw (.unreadable .kind)

/-- A factor of a weighted sum. -/
def weight (c : Configuration) (name : String) : Except ConfigError Float := do
  (← c.member name).plainNumber.mapError .unreadable

/-- The settings in a section as the swarm comes to need them: the weights only
if anything moves. -/
def swarm (s : Configuration) : Except ConfigError (Swarm.Parameters Float) := do
  let particles ← s.count "num_particles"
  if particles < 0 then throw (.unreadable .text)
  let rounds ← s.count "max_iterations"
  if particles ≤ 0 || rounds ≤ 0 then
    return { Swarm.Parameters.idle with particles := particles.toNat, rounds := rounds.toNat }
  return {
    particles := particles.toNat
    rounds := rounds.toNat
    inertia := ← s.weight "inertia"
    cognitive := ← s.weight "cognitive"
    social := ← s.weight "social" }

end Configuration
end ModeSchedule.App
