/-
ModeSchedule.Json.Uniform — nested lists whose values are all of one kind.

All lists at one depth have to have the same length. The values are brought to
the narrowest kind that holds them all: truth values, integers of 64 bits with
or without a sign, real numbers, texts, or values of any kind, which stay as
they are.
-/
import ModeSchedule.Word
import ModeSchedule.Json.Spelling

namespace ModeSchedule.Json

/-! ## Shape -/

/-- How deep lists nest at most where all their values are of one kind. -/
def deepest : Nat := 64

/-- The lengths of the lists at each depth; none if they differ. -/
def shape? {K : Type} : Json K → Option (List Nat)
  | .arr items => do
    match ← shapes? items with
    | [] => some [0]
    | first :: rest => if rest.all (· == first) then some ((rest.length + 1) :: first) else none
  | _ => some []
where
  shapes? : List (Json K) → Option (List (List Nat))
    | [] => some []
    | v :: vs => do
      let shape ← shape? v
      return shape :: (← shapes? vs)

/-- The lists have a shape and do not nest too deep. -/
def regular {K : Type} (j : Json K) : Bool := j.shape?.any fun shape => shape.length ≤ deepest

/-- The values inside lists, in order. -/
def leaves {K : Type} : Json K → List (Json K)
  | .arr items => leavesOf items
  | v => [v]
where
  leavesOf : List (Json K) → List (Json K)
    | [] => []
    | v :: vs => leaves v ++ leavesOf vs

/-! ## Kinds -/

inductive Kind where
  | truth
  | signed
  | unsigned
  | real
  | text
  | any
deriving Repr, DecidableEq

namespace Kind

/-- Kinds from the narrowest to the widest. -/
def rank : Kind → Nat
  | truth => 0
  | signed | unsigned => 1
  | real => 2
  | text => 3
  | any => 4

/-- The narrowest kind that holds the values of two. -/
def join (a b : Kind) : Kind :=
  if a = b then a
  else if a.rank = b.rank then real
  else if a.rank < b.rank then b
  else a

end Kind

/-- The kind of a value that is no list. -/
def kind {K : Type} : Json K → Kind
  | .bool _ => .truth
  | .int n => if Word.signed n then .signed else if Word.fits n then .unsigned else .any
  | .real _ => .real
  | .str _ => .text
  | _ => .any

/-- A value as one of a kind that holds it. -/
def widen (k : Kind) (v : Json Float) : Json Float :=
  match k, v with
  | .real, .int n => .real (Scalar.ofInt n)
  | .real, .bool b => .real (if b then 1 else 0)
  | .signed, .bool b | .unsigned, .bool b => .int (if b then 1 else 0)
  | .text, .str s => .str s
  | .text, v => .str v.literal
  | _, v => v

mutual

/-- The narrowest kind that holds all values inside lists; `k` holds those
before them. -/
def kindAfter {K : Type} (k : Kind) : Json K → Kind
  | .arr items => kindAfterAll k items
  | v => k.join v.kind

def kindAfterAll {K : Type} (k : Kind) : List (Json K) → Kind
  | [] => k
  | v :: vs => kindAfterAll (kindAfter k v) vs

end

mutual

/-- Widen all values inside lists. -/
def widenAll (k : Kind) : Json Float → Json Float
  | .arr items => .arr (widenItems k items)
  | v => v.widen k

def widenItems (k : Kind) : List (Json Float) → List (Json Float)
  | [] => []
  | v :: vs => widenAll k v :: widenItems k vs

end

/-- Values in lists brought to one kind, where the lists are regular. -/
def uniform? (j : Json Float) : Option (Json Float) :=
  if j.regular then some (j.widenAll (j.kindAfter .truth)) else none

end ModeSchedule.Json
