/-
ModeSchedule.Linear.Matrix — matrices as lists of rows.

All rows are meant to have one length. Sums of products run from left to right.

Where two vectors meet, a single component stands for as many as the other has;
any other difference in length is a misfit, and there is no result.
-/
import ModeSchedule.Scalar

namespace ModeSchedule.Linear

abbrev Vector (K : Type) := List K
abbrev Matrix (K : Type) := List (Vector K)

/-- A list of a length: itself, or its only item repeated. -/
def stretch? {α : Type} (length : Nat) (xs : List α) : Option (List α) :=
  if xs.length = length then some xs
  else match xs with
    | [x] => some (List.replicate length x)
    | _ => none

/-- Combine two lists item by item, after stretching one to the other. -/
def zipStretched? {α β γ : Type} (f : α → β → γ) (xs : List α) (ys : List β) :
    Option (List γ) :=
  match stretch? ys.length xs, stretch? xs.length ys with
  | some long, _ => some (List.zipWith f long ys)
  | none, some long => some (List.zipWith f xs long)
  | none, none => none

/-- The columns of a matrix with a number of them. -/
def columns {α : Type} (width : Nat) (m : List (List α)) : List (List α) :=
  m.foldr (List.zipWith (· :: ·)) (List.replicate width [])

variable {K : Type} [Scalar K]

namespace Vector

def scale (c : K) (x : Vector K) : Vector K := x.map (c * ·)

def dot (x y : Vector K) : K := (List.zipWith (· * ·) x y).foldl (· + ·) 0

end Vector

namespace Matrix

/-- Number of columns. -/
def width (m : Matrix K) : Nat := (m.head?.map List.length).getD 0

def zero (rows columns : Nat) : Matrix K := List.replicate rows (List.replicate columns 0)

def identity (n : Nat) : Matrix K :=
  (List.range n).map fun i => (List.range n).map fun j => if i = j then 1 else 0

def scale (c : K) (a : Matrix K) : Matrix K := a.map (Vector.scale c)

/-- A matrix times a vector, where they fit. -/
def times? (a : Matrix K) (x : Vector K) : Option (Vector K) :=
  if a.isEmpty || a.any (fun row => row.length != x.length) then none
  else some (a.map fun row => Vector.dot row x)

/-- The square matrix of a size that stretching rows and columns makes. -/
def squared? (n : Nat) (a : Matrix K) : Option (Matrix K) :=
  (a.mapM (stretch? n)).bind (stretch? n)

/-- Two matrices side by side. -/
def beside (a b : Matrix K) : Matrix K := List.zipWith (· ++ ·) a b

end Matrix
end ModeSchedule.Linear
