/-
ModeSchedule.PlanError — why planning refuses a request.

Each constructor is a cause; `PlanError.message` is its wording, and
`PlanError.kind` says whether the request itself was wrong, or a candidate met
during the search, or a number that has no integer part, or a state that cannot
be measured.
-/
import ModeSchedule.Problem
import ModeSchedule.Given

namespace ModeSchedule

/-- A number in a request that has to be positive. -/
inductive Quantity where
  | steps
  | stride
  | levels
deriving Repr, DecidableEq

def Quantity.name : Quantity → String
  | .steps => "steps"
  | .stride => "steps_per_iteration"
  | .levels => "iterations"

/-- Which modes a candidate may go on with. -/
inductive Switching where
  /-- Only the mode that is running. -/
  | none
  /-- The running mode and those after it. -/
  | increasing
  /-- Any mode. -/
  | free
deriving Repr, DecidableEq

def Switching.name : Switching → String
  | .none => "none"
  | .increasing => "increasing"
  | .free => "free"

inductive PlanError where
  | noProblem
  | notPositive (what : Quantity) (spelling : String)
  /-- A count was given as something else than an integer. -/
  | noCount
  | noModes
  /-- A schedule to be replayed names a mode that is not in the list. -/
  | unknownMode (mode count : Nat)
  | misplacedMode (position id : Nat)
  /-- Switching is restricted, but the candidate has no running mode. -/
  | noActiveMode (switching : Switching)
  | unknownActiveMode (mode count : Nat)
  /-- A list was to be pruned against itself. -/
  | sameList
  /-- The number of blocks in the horizon is no integer. -/
  | horizon (cause : NoInteger)
  /-- A block has more steps than the number type can hold. -/
  | strideTooLong
  /-- A front cannot hold a stride that is given as a real number. -/
  | unfitStride (value : Value)
  /-- A candidate cannot be measured. -/
  | unmeasured (cause : Misfit)
deriving Repr, DecidableEq

namespace PlanError

inductive Kind where
  | precondition
  | search
  | invalid
  | wrongKind
  | overflow
  | undefined
  | outOfRange
deriving Repr, DecidableEq

def kind : PlanError → Kind
  | .noActiveMode _ | .unknownActiveMode _ _ => .search
  | .horizon .undefined | .unmeasured .shape => .undefined
  | .unmeasured .short => .outOfRange
  | .noCount | .unmeasured .kind => .wrongKind
  | .unfitStride _ => .invalid
  | .horizon .infinite | .strideTooLong => .overflow
  | _ => .precondition

def message : PlanError → String
  | .noProblem => "manager is None"
  | .notPositive what spelling => s!"{what.name} must be greater than 0, got {spelling}"
  | .noCount => "a count has to be an integer"
  | .noModes => "modes list is empty"
  | .unknownMode mode count => s!"mode {mode} is out of range for {count} modes"
  | .misplacedMode position id =>
    s!"mode at position {position} has id {id}, ids must match positions"
  | .noActiveMode switching =>
    s!"partial solution has no active mode, required by {switching.name} switching"
  | .unknownActiveMode mode count => s!"active mode {mode} is out of range for {count} modes"
  | .sameList => "solutions and solutions_to_check_against must not be the same list"
  | .horizon _ => "the horizon is no whole number of blocks"
  | .strideTooLong => "the block is too long"
  | .unfitStride (.finite q) =>
    if q.den = 1 then "steps_per_iteration:int_parsing_size"
    else "steps_per_iteration:int_from_float"
  | .unfitStride _ => "steps_per_iteration:finite_number"
  | .unmeasured _ => "a candidate cannot be measured"

end PlanError

/-! ## Checks that every request passes first -/

/-- There is a problem to work on. -/
def requireProblem {α : Type} : Option α → Except PlanError α
  | some p => .ok p
  | none => .error .noProblem

section

variable {K : Type} [Scalar K]

/-- The number is positive. -/
def requirePositive (what : Quantity) (given : Given K) : Except PlanError Unit :=
  match given.atMostZero? with
  | none => .error .noCount
  | some true => .error (.notPositive what given.spelling)
  | some false => .ok ()

/-- The number is an integer. -/
def requireCount {K : Type} (given : Given K) : Except PlanError Nat :=
  match given.integer? with
  | some n => .ok n.toNat
  | none => .error .noCount

end

/-- No candidate has a state with a misfit. -/
def requireFit {K S R : Type} (misfit? : S → Option Misfit) (xs : List (Solution K S R)) :
    Except PlanError Unit :=
  match xs.findSome? fun s => misfit? s.state with
  | some cause => .error (.unmeasured cause)
  | none => .ok ()

/-- All candidates can be measured. -/
def requireMeasured {K S R A : Type} (P : Problem K S R A) (xs : List (Solution K S R)) :
    Except PlanError Unit :=
  requireFit P.misfit? xs

/-- There are modes to choose from. -/
def requireModes {α : Type} (modes : List α) : Except PlanError Unit :=
  if modes.isEmpty then .error .noModes else .ok ()

end ModeSchedule
