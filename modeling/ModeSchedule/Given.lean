/-
ModeSchedule.Given — numbers as requests give them.

A request may give an integer, a truth value, which counts as one or zero, a real
number, which is kept together with its spelling, or something that is no number
at all. A limit on the number can be checked for any of these that is a number;
a count can be taken only from the first two. Refusals quote what was given.
-/
import ModeSchedule.Scalar

namespace ModeSchedule

/-- Why data cannot be read as a number at all. -/
inductive Unreadable where
  /-- It is nothing that stands for a number. -/
  | kind
  /-- It is a text that says no number. -/
  | text
  /-- It is an integer that the number type cannot hold. -/
  | size
deriving Repr, DecidableEq

inductive Given (K : Type) where
  | whole (n : Int)
  | truth (b : Bool)
  | real (x : K) (spelling : String)
  /-- Nothing that compares with a number. -/
  | other
deriving Repr

namespace Given

variable {K : Type}

def spelling : Given K → String
  | whole n => toString n
  | truth b => if b then "True" else "False"
  | real _ spelling => spelling
  | other => ""

/-- The integer that it counts as. -/
def integer? : Given K → Option Int
  | whole n => some n
  | truth b => some (if b then 1 else 0)
  | _ => none

variable [Scalar K]

/-- The number of the type. -/
def toScalar : Given K → Except Unreadable K
  | whole n =>
    match Scalar.ofInt? n with
    | some x => .ok x
    | none => .error .size
  | truth b => .ok (if b then 1 else 0)
  | real x _ => .ok x
  | other => .error .kind

/-- It is zero or less; nothing where it does not compare. -/
def atMostZero? : Given K → Option Bool
  | real x _ => some (x ≤ 0)
  | other => none
  | g => g.integer?.map fun n => n ≤ 0

/-- It is less than zero; nothing where it does not compare. -/
def negative? : Given K → Option Bool
  | real x _ => some (x < 0)
  | other => none
  | g => g.integer?.map fun n => n < 0

/-- It is the number one. -/
def isOne : Given K → Bool
  | real x _ => x == 1
  | g => g.integer? == some 1

end Given
end ModeSchedule
