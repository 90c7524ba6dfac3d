/-
ModeSchedule.Validation.Check — checking untyped data against a type.

A check either yields a value or a list of failures, each with the path to the
offending part and the kind of fault. The members of an object are checked
independently of each other, and all their failures are reported in the order
in which the type declares them.

Some data cannot even be looked at, such as an object in the place of a number
inside a limit or a state; such a check is abandoned as a whole.
-/
import ModeSchedule.Word
import ModeSchedule.Given
import ModeSchedule.Json.Value
import ModeSchedule.Decimal.Numeral

namespace ModeSchedule

/-- What is wrong with a part. -/
inductive Fault where
  | missing
  | notAbove
  | notAtLeast
  | notInteger
  | integerText
  | fraction
  | integerSize
  | notFinite
  | notNumber
  | numberText
  | notBoolean
  | booleanText
  | notList
  | notObject
  | refused
deriving Repr, DecidableEq

def Fault.name : Fault → String
  | missing => "missing"
  | notAbove => "greater_than"
  | notAtLeast => "greater_than_equal"
  | notInteger => "int_type"
  | integerText => "int_parsing"
  | fraction => "int_from_float"
  | integerSize => "int_parsing_size"
  | notFinite => "finite_number"
  | notNumber => "float_type"
  | numberText => "float_parsing"
  | notBoolean => "bool_type"
  | booleanText => "bool_parsing"
  | notList => "list_type"
  | notObject => "model_type"
  | refused => "value_error"

structure Failure where
  path : List String
  fault : Fault
deriving Repr, DecidableEq

/-- Path and fault in one text. -/
def Failure.text (f : Failure) : String :=
  ".".intercalate f.path ++ ":" ++ f.fault.name

/-- Why a check does not yield a value. -/
inductive Rejection where
  | failures (fs : List Failure)
  | abandoned (cause : Unreadable)
deriving Repr, DecidableEq

/-- All failures in one text. -/
def Rejection.message : Rejection → String
  | failures fs => "; ".intercalate (fs.map Failure.text)
  | abandoned _ => ""

abbrev Check (α : Type) := Except Rejection α

namespace Check

/-- A single failure at the place that is being checked. -/
def fail {α : Type} (fault : Fault) : Check α := .error (.failures [⟨[], fault⟩])

/-- Failures of a part are failures of the whole, one step further away. -/
def under {α : Type} (step : String) : Check α → Check α
  | .error (.failures fs) => .error (.failures (fs.map fun f => ⟨step :: f.path, f.fault⟩))
  | c => c

/-- Two independent checks: both sides' failures count. -/
def both {α β : Type} (a : Check α) (b : Check β) : Check (α × β) :=
  match a, b with
  | .ok x, .ok y => .ok (x, y)
  | .error (.abandoned c), _ => .error (.abandoned c)
  | _, .error (.abandoned c) => .error (.abandoned c)
  | .error (.failures fs), .error (.failures gs) => .error (.failures (fs ++ gs))
  | .error e, .ok _ => .error e
  | .ok _, .error e => .error e

/-- Combine a checked function with a checked argument. -/
def apply {α β : Type} (f : Check (α → β)) (a : Check α) : Check β :=
  (both f a).map fun (g, x) => g x

/-- Check all members of a list, naming each by its position. -/
def each {α β : Type} (check : α → Check β) (position : Nat) : List α → Check (List β)
  | [] => .ok []
  | x :: xs =>
    (both (under (toString position) (check x)) (each check (position + 1) xs)).map
      fun (y, ys) => y :: ys

/-- A further condition on a checked value. -/
def ensure {α : Type} (condition : α → Bool) (fault : Fault) (c : Check α) : Check α :=
  match c with
  | .ok x => if condition x then .ok x else fail fault
  | e => e

variable {K : Type} [Scalar K]

/-! ## Plain values -/

/-- The rational that a real number stands for, if it is an integer. -/
def wholeValue? (x : K) : Option Int :=
  match Scalar.exact x with
  | .finite q => if q.den = 1 then some q.num else none
  | _ => none

/-- An integer: also a boolean, a whole real number inside 64 bits, or a text
that says one. -/
def integer : Json K → Check Int
  | .int n => .ok n
  | .bool b => .ok (if b then 1 else 0)
  | .real x =>
    match wholeValue? x with
    | none => fail (if Scalar.isFinite x then .fraction else .notFinite)
    | some n => if Word.inside n then .ok n else fail .integerSize
  | .str s =>
    match Numeral.integer? s with
    | .ok n => .ok n
    | .error .text => fail .integerText
    | .error .size => fail .integerSize
  | _ => fail .notInteger

/-- A number: also a boolean, or a text that says one. -/
def number : Json K → Check K
  | .int n =>
    match Scalar.ofInt? n with
    | some x => .ok x
    | none => fail .notNumber
  | .bool b => .ok (if b then 1 else 0)
  | .real x => .ok x
  | .str s =>
    match (Numeral.checked? s).bind Numeral.Free.toScalar? with
    | some x => .ok x
    | none => fail .numberText
  | _ => fail .notNumber

/-- The boolean that an integer stands for. -/
def ofInteger (n : Int) : Check Bool :=
  if n = 1 then .ok true else if n = 0 then .ok false else fail .booleanText

/-- A boolean: also zero or one, or a word for one of the two. -/
def boolean : Json K → Check Bool
  | .bool b => .ok b
  | .int n => if Word.signed n then ofInteger n else fail .notBoolean
  | .real x =>
    match wholeValue? x with
    | some n => if Word.inside n then ofInteger n else fail .notBoolean
    | none => fail .notBoolean
  | .str s =>
    let word := String.ofList (s.toList.map Char.toLower)
    if ["true", "t", "yes", "y", "on", "1"].contains word then .ok true
    else if ["false", "f", "no", "n", "off", "0"].contains word then .ok false
    else fail .booleanText
  | _ => fail .notBoolean

/-- A natural number. -/
def natural (j : Json K) : Check Nat :=
  (ensure (fun n => 0 ≤ n) .notAtLeast (integer j)).map Int.toNat

/-- A natural number other than zero. -/
def positiveNatural (j : Json K) : Check Nat :=
  (ensure (fun n => 0 < n) .notAbove (integer j)).map Int.toNat

/-- A number above zero. -/
def positive (j : Json K) : Check K := ensure (fun x => 0 < x) .notAbove (number j)

/-- A number not below zero. -/
def nonnegative (j : Json K) : Check K := ensure (fun x => 0 ≤ x) .notAtLeast (number j)

/-- A list, member by member. -/
def list {α : Type} (check : Json K → Check α) : Json K → Check (List α)
  | .arr items => each check 0 items
  | _ => fail .notList

/-- A member of an object that has to be there. -/
def required {α : Type} (name : String) (check : Json K → Check α) (j : Json K) : Check α :=
  under name (match j.find? name with
    | some v => check v
    | none => fail .missing)

/-- A member of an object with a value to take where it is missing. -/
def optional {α : Type} (name : String) (default : α) (check : Json K → Check α) (j : Json K) :
    Check α :=
  under name (match j.find? name with
    | some v => check v
    | none => .ok default)

/-- An object, whose members are checked by `members`. -/
def object {α : Type} (members : Json K → Check α) (j : Json K) : Check α :=
  match j with
  | .obj _ => members j
  | _ => fail .notObject

end Check

/-! ## Numbers without a check

Some places take whatever stands for a number and give up on the rest. -/

namespace Json

variable {K : Type} [Scalar K]

/-- The number that a value stands for. -/
def toNumber : Json K → Except Unreadable K
  | .int n =>
    match Scalar.ofInt? n with
    | some x => .ok x
    | none => .error .size
  | .bool b => .ok (if b then 1 else 0)
  | .real x => .ok x
  | .str s =>
    match (Numeral.free? s).bind Numeral.Free.toScalar? with
    | some x => .ok x
    | none => .error .text
  | _ => .error .kind

/-- The number that a value stands for, where a text stands for none. -/
def plainNumber : Json K → Except Unreadable K
  | .str _ => .error .kind
  | v => v.toNumber

end Json
end ModeSchedule
