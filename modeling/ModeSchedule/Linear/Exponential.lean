/-
ModeSchedule.Linear.Exponential — the exponential of a matrix.

The exponential is computed from the exact entries and rounded once, at the end.
In between, numbers are integers that count a small unit, with places to spare:
the matrix is halved until it is small, the exponential of the small matrix is
taken from the power series, and the result is squared as often as the matrix
was halved. Entries beyond the range of doubles stop growing.
-/
import ModeSchedule.Linear.Matrix

namespace ModeSchedule.Linear

/-- Integers, each of which counts units of one by two to the number of places. -/
abbrev FixedMatrix := List (List Int)

namespace FixedMatrix

def one (places : Nat) : Int := (Nat.pow 2 places : Nat)

/-- The unit matrix added to a matrix. -/
def plusOne (places : Nat) (a : FixedMatrix) : FixedMatrix :=
  a.zipIdx.map fun (row, i) => row.modify i (· + one places)

def mul (places : Nat) (a b : FixedMatrix) : FixedMatrix :=
  let columns := columns b.length b
  let dot (x y : List Int) : Int := (List.zipWith (· * ·) x y).foldl (· + ·) 0
  a.map fun row => columns.map fun column => dot row column >>> places

/-- The power series `1 + a/k + a²/(k(k+1)) + …` up to a number of terms. -/
def series (places : Nat) (a : FixedMatrix) : Nat → Nat → FixedMatrix
  | 0, _ => plusOne places (a.map fun row => row.map fun _ => 0)
  | n + 1, k =>
    plusOne places ((mul places a (series places a n (k + 1))).map fun row => row.map (· / k))

/-- Between the bounds at which entries stop growing. -/
def bounded (places : Nat) (x : Int) : Int :=
  let limit := one (places + 1100)
  max (-limit) (min limit x)

def squarings (places : Nat) : Nat → FixedMatrix → FixedMatrix
  | 0, a => a
  | n + 1, a =>
    squarings places n ((mul places a a).map fun row => row.map (bounded places))

/-- The integer part, from above, of the largest sum of magnitudes of a row. -/
def norm (a : List (List Rat)) : Nat :=
  a.foldl (fun n row => max n (row.foldl (fun s x => s + Scalar.abs x) 0).ceil.natAbs) 0

/-- How often a matrix has to be halved until the sums of magnitudes of its rows
are at most one half. -/
def halvings (a : List (List Rat)) : Nat := Nat.log2 (norm a) + 2

end FixedMatrix

namespace Matrix

variable {K : Type} [Scalar K]

/-- The rational that a number stands for, if it does. -/
def rational? (x : K) : Option Rat :=
  match Scalar.exact x with
  | .finite q => some q
  | _ => none

/-- The exponential of a square matrix. It is undefined if an entry is no
rational. -/
def exponential (a : Matrix K) : Matrix K :=
  match a.mapM (List.mapM rational?) with
  | none => a.map fun row => row.map fun _ => Scalar.undefined?.getD 0
  | some entries =>
    let halvings := FixedMatrix.halvings entries
    let places := 200 + 2 * halvings
    let one := FixedMatrix.one places
    let small := entries.map fun row =>
      row.map fun q => q.num * one / (q.den * FixedMatrix.one halvings)
    let result := FixedMatrix.squarings places halvings
      (FixedMatrix.series places small (places / 4 + 10) 1)
    result.map fun row => row.map fun x => Scalar.nearest (mkRat x one.natAbs)

end Matrix
end ModeSchedule.Linear
