/-
ModeSchedule.Scalar — the arithmetic that planning asks of its numbers.

Everything that plans, prunes or measures is written once, over a type `K`
with a `Scalar` instance, and runs at two instances:

* `Float`, IEEE double precision: what the program computes with. The order of
  the operations in every definition is therefore part of its meaning.
* `Rat`, exact arithmetic: what the laws of the library are stated over.

`Scalar.exact` reads a number as the rational it stands for; truncation, floor
and rounding to an integer are functions of that rational, so they need no
arithmetic of their own at each instance.
-/
import ModeSchedule.Word

namespace ModeSchedule

/-- What a number stands for: a rational, one of the two infinities, or no
number at all. -/
inductive Value where
  | finite (q : Rat)
  | infinite (negative : Bool)
  | undefined
deriving Repr, DecidableEq

/-- One number is less than another one; nothing compares with what is no number. -/
def Value.less : Value → Value → Bool
  | .finite p, .finite q => p < q
  | .finite _, .infinite negative => !negative
  | .infinite negative, .finite _ => negative
  | .infinite first, .infinite second => first && !second
  | _, _ => false

/-- Why a number has no integer near it. -/
inductive NoInteger where
  | infinite
  | undefined
deriving Repr, DecidableEq

/-- The operations planning uses. No law is assumed: at `Float` addition does
not associate, and a comparison with an undefined number is false. -/
class Scalar (K : Type) extends Add K, Sub K, Mul K, Div K, Neg K, LT K, LE K, BEq K where
  decLt : DecidableLT K
  decLe : DecidableLE K
  abs : K → K
  /-- The number of the type nearest to a natural number. -/
  ofNat : Nat → K
  /-- The number of the type nearest to `mantissa · 10 ^ exponent`. -/
  ofDecimal : (mantissa exponent : Int) → K
  /-- The number of the type nearest to a rational. -/
  nearest : Rat → K
  /-- What the number stands for. -/
  exact : K → Value
  /-- What is left of an integer that becomes a number of the type and then a
  word, where the type has words. -/
  asCount : Int → Int
  /-- It stands for a rational. -/
  isFinite : K → Bool
  /-- The numbers that stand for no rational, where the type has them. -/
  infinity? : Option K
  undefined? : Option K

namespace Scalar

variable {K : Type} [Scalar K]

instance : DecidableLT K := decLt
instance : DecidableLE K := decLe

instance (priority := low) (n : Nat) : OfNat K n := ⟨Scalar.ofNat n⟩

instance (priority := low) : Inhabited K := ⟨0⟩

/-- The larger of two numbers; the first one where they do not compare. -/
def larger (x y : K) : K := if x < y then y else x

/-- The integer that a rule picks near a number. -/
def toInteger (rule : Rat → Int) (x : K) : Except NoInteger Int :=
  match exact x with
  | .finite q => .ok (rule q)
  | .infinite _ => .error .infinite
  | .undefined => .error .undefined

/-- The integer part, towards zero. -/
def truncate : K → Except NoInteger Int := toInteger fun q => Int.tdiv q.num q.den

/-- The largest integer that is not above the number. -/
def floor : K → Except NoInteger Int := toInteger Rat.floor

end Scalar

/-- The integer nearest to a rational; halfway between two, the even one. -/
def nearestEven (q : Rat) : Int :=
  let below := q.floor
  let rest := q - below
  if rest < 1 / 2 then below
  else if 1 / 2 < rest then below + 1
  else if below % 2 = 0 then below else below + 1

/-- The integer nearest to a number; halfway between two, the even one. -/
def Scalar.round {K : Type} [Scalar K] : K → Except NoInteger Int :=
  Scalar.toInteger nearestEven

/-- The number of the type nearest to an integer. -/
def Scalar.ofInt {K : Type} [Scalar K] (n : Int) : K := Scalar.ofDecimal n 0

/-- The number of the type nearest to an integer, where that is finite. -/
def Scalar.ofInt? {K : Type} [Scalar K] (n : Int) : Option K :=
  let x : K := Scalar.ofInt n
  if Scalar.isFinite x then some x else none

/-- A quantity that may be infinite, which is written as `none`. -/
def Scalar.bounded? {K : Type} [Scalar K] (x : K) : Option K :=
  if Scalar.exact x = .infinite false then none else some x

/-! ## Exact arithmetic -/

instance : Scalar Rat where
  decLt := inferInstance
  decLe := inferInstance
  abs q := if q < 0 then -q else q
  ofNat n := (n : Rat)
  ofDecimal m e := if e < 0 then m / (10 : Rat) ^ e.natAbs else m * (10 : Rat) ^ e.natAbs
  nearest q := q
  exact := .finite
  asCount n := n
  isFinite _ := true
  infinity? := none
  undefined? := none

/-! ## Double precision -/

/-- A finite double taken apart: its sign, and the integers `m`, `e` for which
its magnitude is `m · 2 ^ e`. -/
structure Binary64 where
  negative : Bool
  mantissa : Nat
  exponent : Int
deriving Repr, DecidableEq

/-- The parts of a double. Field 0 marks the numbers whose leading bit is not
implied; field 2047 what is not finite, for which the parts mean nothing. -/
def Binary64.parts (x : Float) : Binary64 :=
  let bits := x.toBits.toNat
  let leading := Nat.pow 2 52
  let fraction := bits % leading
  let field := bits / leading % 2048
  { negative := bits / Nat.pow 2 63 == 1
    mantissa := if field = 0 then fraction else fraction + leading
    exponent := ((if field = 0 then 1 else field : Nat) : Int) - 1075 }

/-- The magnitude as a rational. -/
def Binary64.magnitude (p : Binary64) : Rat :=
  let power := Nat.pow 2 p.exponent.natAbs
  if 0 ≤ p.exponent then ((p.mantissa * power : Nat) : Rat) else mkRat p.mantissa power

def Binary64.toRat (p : Binary64) : Rat :=
  if p.negative then -p.magnitude else p.magnitude

/-- What a double stands for. Both zeros stand for zero. -/
def Binary64.exact (x : Float) : Value :=
  if x.isNaN then .undefined
  else if x.isInf then .infinite (x < 0)
  else .finite (Binary64.parts x).toRat

/-- The double nearest to `mantissa · 10 ^ exponent`. A magnitude of at least
`10 ^ 400` is infinite and one below `10 ^ (-400)` zero, whatever the digits,
so a huge exponent costs nothing. -/
def Binary64.ofDecimal (mantissa exponent : Int) : Float :=
  let places : Int := (Nat.toDigits 10 mantissa.natAbs).length
  let size : Float :=
    if mantissa = 0 ∨ exponent + places < -400 then 0.0
    else if 400 < exponent + places then 1.0 / 0.0
    else Float.ofScientific mantissa.natAbs (exponent < 0) exponent.natAbs
  if mantissa < 0 then -size else size

/-- The greatest `k` with `2 ^ k ≤ num / den`, for positive numbers. -/
def Binary64.magnitudeOf (num den : Nat) : Int :=
  let guess : Int := (Nat.log2 num : Int) - Nat.log2 den
  let power := Nat.pow 2 guess.natAbs
  let reached := if 0 ≤ guess then power * den ≤ num else den ≤ num * power
  if reached then guess else guess - 1

/-- The double nearest to a rational; halfway between two, the one with the even
mantissa. -/
def Binary64.nearest (q : Rat) : Float :=
  if q = 0 then 0.0
  else
    let size : Rat := if q < 0 then -q else q
    let exponent := max (Binary64.magnitudeOf size.num.natAbs size.den - 52) (-1074)
    let power : Rat := (Nat.pow 2 exponent.natAbs : Nat)
    let mantissa := nearestEven (if 0 ≤ exponent then size / power else size * power)
    let x := (Float.ofNat mantissa.natAbs).scaleB exponent
    if q < 0 then -x else x

/-- An integer rounded to a double and cut down to a word. -/
def Binary64.asCount (n : Int) : Int :=
  match Binary64.exact (Binary64.ofDecimal n 0) with
  | .finite q => if Word.signed q.floor then q.floor else Word.least
  | _ => Word.least

instance : Scalar Float where
  decLt := fun a b => Float.decLt a b
  decLe := fun a b => Float.decLe a b
  abs := Float.abs
  ofNat := Float.ofNat
  ofDecimal := Binary64.ofDecimal
  nearest := Binary64.nearest
  exact := Binary64.exact
  asCount := Binary64.asCount
  isFinite := Float.isFinite
  infinity? := some (1.0 / 0.0)
  undefined? := some (0.0 / 0.0)

end ModeSchedule
