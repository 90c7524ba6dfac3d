/-
ModeSchedule.Decimal.Layout — how digits are laid out as text.

* `Layout` writes the shortest decimal of a double, positionally for moderate
  exponents and with an exponent for the others.
* `fixed` writes a double with a given number of places, rounding the exact
  value, a tie to the even neighbour.
* `general` writes six significant digits without trailing zeros.

A negative sign is kept also where everything after it is zero.
-/
import ModeSchedule.Decimal.Shortest

namespace ModeSchedule

/-- The decisions that distinguish one shortest layout from another. -/
structure Layout where
  /-- The least exponent of the leading digit that is written positionally. -/
  least : Int
  /-- The greatest one. -/
  greatest : Int
  /-- The least number of digits of a written exponent. -/
  exponentDigits : Nat
deriving Repr

namespace Layout

/-- As texts and messages show numbers. -/
def plain : Layout := { least := -4, greatest := 15, exponentDigits := 2 }

/-- As saved files hold numbers. -/
def compact : Layout := { least := -5, greatest := 15, exponentDigits := 1 }

end Layout

namespace Decimal

/-- Put blanks in front up to a width. -/
def padLeft (width : Nat) (cs : List Char) : List Char :=
  List.replicate (width - cs.length) ' ' ++ cs

/-- Put blanks behind up to a width. -/
def padRight (width : Nat) (cs : List Char) : List Char :=
  cs ++ List.replicate (width - cs.length) ' '

/-- Put zeros in front up to a width. -/
def padZeros (width : Nat) (cs : List Char) : List Char :=
  List.replicate (width - cs.length) '0' ++ cs

/-- An exponent with its sign and at least so many digits. -/
def exponentText (least : Nat) (e : Int) : List Char :=
  'e' :: (if e < 0 then '-' else '+') :: padZeros least (Nat.toDigits 10 e.natAbs)

/-- Digits with a point behind the first. -/
def scientific (digits : List Char) : List Char :=
  match digits with
  | [] => []
  | [d] => [d]
  | d :: rest => d :: '.' :: rest

/-- The digits of `d` with the point in its place and at least one digit on
both sides of it. -/
def positional (d : Decimal) : List Char :=
  let cs := d.text
  if 0 ≤ d.exponent then cs ++ List.replicate d.exponent.natAbs '0' ++ ['.', '0']
  else
    let places := d.exponent.natAbs
    let cs := padZeros (places + 1) cs
    cs.take (cs.length - places) ++ '.' :: cs.drop (cs.length - places)

/-- The shortest decimal of a magnitude in a layout. -/
def shortestText (layout : Layout) (x : Binary64) : List Char :=
  let d := shortest x
  if d.digits = 0 then ['0', '.', '0']
  else
    let cs := d.text
    let leading := d.exponent + (cs.length - 1 : Nat)
    if layout.least ≤ leading ∧ leading ≤ layout.greatest then positional d
    else scientific cs ++ exponentText layout.exponentDigits leading

/-- A natural number as so many digits with a point before the last `places`. -/
def withPlaces (places n : Nat) : List Char :=
  if places = 0 then Nat.toDigits 10 n
  else positional ⟨n, -(places : Int)⟩

/-- The magnitude rounded to so many places. -/
def roundedText (places : Nat) (x : Binary64) : List Char :=
  withPlaces places (nearestEven (x.magnitude * (10 : Rat) ^ places)).natAbs

/-- Without zeros at the end, and without a point that would end it. -/
def dropZeros (cs : List Char) : List Char :=
  if cs.contains '.' then
    ((cs.reverse.dropWhile (· == '0')).dropWhile (· == '.')).reverse
  else cs

/-- The magnitude with six significant digits: positionally where the leading
digit has an exponent from -4 to 5, with an exponent otherwise. -/
def sixDigits (x : Binary64) : List Char :=
  if x.mantissa = 0 then ['0']
  else
    let q := x.magnitude
    let k := magnitude q.num.natAbs q.den
    let power := (10 : Rat) ^ (k - 5).natAbs
    let n := (nearestEven (if 5 ≤ k then q / power else q * power)).natAbs
    let (n, k) := if n = 1000000 then (100000, k + 1) else (n, k)
    if -4 ≤ k ∧ k < 6 then dropZeros (withPlaces (5 - k).natAbs n)
    else dropZeros (scientific (Nat.toDigits 10 n)) ++ exponentText 2 k

/-- The sign and then the magnitude, or the word for what is not finite. -/
def written (magnitude : Binary64 → List Char) (x : Float) : List Char :=
  if x.isNaN then ['n', 'a', 'n']
  else
    let p := Binary64.parts x
    let size := if x.isInf then ['i', 'n', 'f'] else magnitude p
    if p.negative then '-' :: size else size

end Decimal

/-- A double in its shortest layout. -/
def Layout.text (layout : Layout) (x : Float) : String :=
  String.ofList (Decimal.written (Decimal.shortestText layout) x)

/-- A double with a number of places, right-aligned in a width. -/
def fixed (width places : Nat) (x : Float) : String :=
  String.ofList (Decimal.padLeft width (Decimal.written (Decimal.roundedText places) x))

/-- The double nearest to a double rounded to a number of places, a tie to the
even neighbour. Zero has no sign then. -/
def rounded (places : Nat) (x : Float) : Float :=
  match Binary64.exact x with
  | .finite q => Binary64.ofDecimal (nearestEven (q * (10 : Rat) ^ places)) (-(places : Int))
  | _ => x

/-- A double with six significant digits. -/
def general (x : Float) : String :=
  String.ofList (Decimal.written Decimal.sixDigits x)

/-- A natural number right-aligned in a width. -/
def aligned (width n : Nat) : String :=
  String.ofList (Decimal.padLeft width (Nat.toDigits 10 n))

/-- A text left-aligned in a width. -/
def leftAligned (width : Nat) (s : String) : String :=
  String.ofList (Decimal.padRight width s.toList)

end ModeSchedule
