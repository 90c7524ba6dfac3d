/-
ModeSchedule.Json.Value — the values of saved files.

Integers and other numbers are kept apart, since a file tells them apart and
integers are exact. The members of an object keep their order.
-/
import ModeSchedule.Scalar

namespace ModeSchedule

inductive Json (K : Type) where
  | null
  | bool (b : Bool)
  | int (n : Int)
  | real (x : K)
  | str (s : String)
  | arr (items : List (Json K))
  | obj (members : List (String × Json K))
deriving Repr, Inhabited

namespace Json

variable {K : Type}

/-- The member of an object. -/
def find? (key : String) : Json K → Option (Json K)
  | obj members => members.lookup key
  | _ => none

/-- The member of an object; null where there is none. -/
def get (key : String) (j : Json K) : Json K := (j.find? key).getD .null

/-- Set a member: in its place if there is one of that name, otherwise at the
end. -/
def setMember (key : String) (value : Json K) :
    List (String × Json K) → List (String × Json K)
  | [] => [(key, value)]
  | m :: ms => if m.1 == key then (key, value) :: ms else m :: setMember key value ms

/-- A list of numbers. -/
def reals (xs : List K) : Json K := arr (xs.map real)

/-- A list of texts. -/
def texts (xs : List String) : Json K := arr (xs.map str)

mutual

/-- Change all real numbers inside a value. -/
def mapReals (f : K → K) : Json K → Json K
  | real x => real (f x)
  | arr items => arr (mapItems f items)
  | obj members => obj (mapMembers f members)
  | v => v

def mapItems (f : K → K) : List (Json K) → List (Json K)
  | [] => []
  | v :: vs => mapReals f v :: mapItems f vs

def mapMembers (f : K → K) : List (String × Json K) → List (String × Json K)
  | [] => []
  | (key, v) :: ms => (key, mapReals f v) :: mapMembers f ms

end

end Json
end ModeSchedule
