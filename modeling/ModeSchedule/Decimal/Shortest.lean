/-
ModeSchedule.Decimal.Shortest — the fewest digits that read back.

A double is the only double in an interval of reals, those that round to it.
Its shortest decimal is the one with the fewest significant digits inside that
interval; among several of the same length it is the one nearest to the double,
and of two equally near ones the one with the even last digit.

All arithmetic is on natural numbers: the interval and the grid of decimals are
brought to one denominator.
-/
import ModeSchedule.Scalar

namespace ModeSchedule

/-- The number `digits · 10 ^ exponent`. -/
structure Decimal where
  digits : Nat
  exponent : Int
deriving Repr, DecidableEq

namespace Decimal

/-- The greatest `k` with `10 ^ k ≤ num / den`, for positive numbers. -/
def magnitude (num den : Nat) : Int :=
  let guess : Int := (Nat.toDigits 10 num).length - (Nat.toDigits 10 den).length
  let power := Nat.pow 10 guess.natAbs
  let reached := if 0 ≤ guess then power * den ≤ num else den ≤ num * power
  if reached then guess else guess - 1

/-- The reals that round to a positive double, and the double itself, as
numerators over one denominator. The ends belong to the interval where the
mantissa is even. -/
structure Interval where
  low : Nat
  value : Nat
  high : Nat
  den : Nat
  closed : Bool

/-- Half the distance to the neighbours on both sides; below a power of two the
neighbour is nearer. -/
def Interval.of (x : Binary64) : Interval :=
  let m := x.mantissa
  let gapBelow := if m = Nat.pow 2 52 ∧ -1074 < x.exponent then 1 else 2
  let e := x.exponent - 2
  let power := Nat.pow 2 e.natAbs
  let scale := if 0 ≤ e then power else 1
  { low := (4 * m - gapBelow) * scale
    value := 4 * m * scale
    high := (4 * m + 2) * scale
    den := if 0 ≤ e then 1 else power
    closed := m % 2 == 0 }

/-- The multiple of `10 ^ unit` nearest to the value among those inside. -/
def nearestInside? (i : Interval) (unit : Int) : Option Nat :=
  let power := Nat.pow 10 unit.natAbs
  let up := if 0 ≤ unit then 1 else power
  let den := if 0 ≤ unit then i.den * power else i.den
  let value := i.value * up
  let inside (d : Nat) : Bool :=
    if i.closed then i.low * up ≤ d * den && d * den ≤ i.high * up
    else i.low * up < d * den && d * den < i.high * up
  let below := value / den
  let rest := value % den
  let upper := 2 * rest > den || (2 * rest == den && below % 2 == 1)
  match inside below, inside (below + 1) with
  | true, true => some (if upper then below + 1 else below)
  | true, false => some below
  | false, true => some (below + 1)
  | false, false => none

/-- Try grids of more and more significant digits, at most as many as the first
argument says. -/
def search (i : Interval) (magnitude : Int) : Nat → Nat → Decimal
  | 0, count => ⟨i.value / i.den, magnitude - count⟩
  | fuel + 1, count =>
    let unit := magnitude - count
    match nearestInside? i unit with
    | some d => ⟨d, unit⟩
    | none => search i magnitude fuel (count + 1)

/-- Move trailing zeros of the digits into the exponent. -/
def trim : Nat → Decimal → Decimal
  | 0, d => d
  | fuel + 1, d =>
    if d.digits ≠ 0 ∧ d.digits % 10 = 0 then trim fuel ⟨d.digits / 10, d.exponent + 1⟩ else d

/-- The shortest decimal of a double's magnitude. Seventeen digits always
suffice. -/
def shortest (x : Binary64) : Decimal :=
  if x.mantissa = 0 then ⟨0, 0⟩
  else
    let i := Interval.of x
    trim 20 (search i (magnitude i.value i.den) 17 0)

/-- The digits in writing, leading digit first. -/
def text (d : Decimal) : List Char := Nat.toDigits 10 d.digits

end Decimal
end ModeSchedule
