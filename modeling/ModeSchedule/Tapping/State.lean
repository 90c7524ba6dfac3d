/-
ModeSchedule.Tapping.State — the state of a tapping machine, also from data.

Data for a state may be any number or any nesting of lists of numbers in which
all lists at one depth have the same length. Settings need a list of three
numbers; a candidate may come with a state that has more components, or with one
that turns out to be no state as soon as it is measured.
-/
import ModeSchedule.Problem
import ModeSchedule.Json.Uniform
import ModeSchedule.Validation.Check

namespace ModeSchedule.Tapping

/-- A number, or a list of tensors of one shape. -/
inductive Tensor (K : Type) where
  | number (x : K)
  | list (items : List (Tensor K))
deriving Repr, Inhabited

inductive State (K : Type) where
  /-- Angular speed, current, depth, and whatever follows. -/
  | vector (components : List K)
  /-- Data that is no vector. -/
  | other (data : Tensor K)
  /-- What is left where a step cannot be taken. -/
  | void (cause : Misfit)
deriving Repr, Inhabited

variable {K : Type}

namespace Tensor

variable [Scalar K]

/-- A single number; nothing at all is an undefined one. -/
def leaf : Json K → Except Unreadable K
  | .null =>
    match (Scalar.undefined? : Option K) with
    | some x => .ok x
    | none => .error .kind
  | v => v.toNumber

/-- The numbers of data that is known to have a shape. -/
def read : Json K → Except Unreadable (Tensor K)
  | .arr items => (readItems items).map .list
  | v => (leaf v).map .number
where
  readItems : List (Json K) → Except Unreadable (List (Tensor K))
    | [] => .ok []
    | v :: vs => do
      let t ← read v
      return t :: (← readItems vs)

/-- A tensor from data. -/
def ofJson (j : Json K) : Except Unreadable (Tensor K) :=
  if j.regular then read j else .error .text

def toJson : Tensor K → Json K
  | number x => .real x
  | list items => .arr (itemsJson items)
where
  itemsJson : List (Tensor K) → List (Json K)
    | [] => []
    | t :: ts => toJson t :: itemsJson ts

/-- The number that a tensor without lists is. -/
def number? : Tensor K → Option K
  | number x => some x
  | list _ => none

/-- The numbers of a list of numbers. -/
def vector? : Tensor K → Option (List K)
  | list items => items.mapM number?
  | number _ => none

end Tensor

namespace State

def ofTensor (t : Tensor K) : State K :=
  match t.vector? with
  | some components => .vector components
  | none => .other t

/-- The component at a position. -/
def component? (i : Nat) : State K → Option K
  | vector components => components[i]?
  | _ => none

/-- Why a state cannot be measured: it lacks the depth, or the depth is no
number. -/
def misfit? : State K → Option Misfit
  | vector components => if components.length < 3 then some .short else none
  | other (.number _) => some .short
  | other (.list items) => some (if items.length < 3 then .short else .kind)
  | void cause => some cause

def toJson : State K → Json K
  | vector components => Json.reals components
  | other data => data.toJson
  | void _ => .null

variable [Scalar K]

def current (s : State K) : K := (s.component? 1).getD 0

def depth (s : State K) : K := (s.component? 2).getD 0

/-- The state that a candidate is given. -/
def read (j : Json K) : Check (State K) :=
  match Tensor.ofJson j with
  | .error cause => .error (.abandoned cause)
  | .ok t => .ok (ofTensor t)

/-- The state that settings say. -/
def check (j : Json K) : Check (State K) :=
  match read j with
  | .error (.abandoned .text) => Check.fail .refused
  | .ok (.vector [speed, current, depth]) => .ok (.vector [speed, current, depth])
  | .ok _ => Check.fail .refused
  | e => e

end State
end ModeSchedule.Tapping
