/-
ModeSchedule.Decimal.Numeral — reading decimal numbers.

A numeral is read into its sign, its digits as one natural number, and the
exponent that puts the point in its place. The grammars share the parts:

* the strict one, without leading zeros and with digits on both sides of a
  point;
* the free one of typed-in numbers, which also allows a plus sign, a point at
  either end, the words for what is not finite, digits of any script, blanks
  around the number, and single underscores between digits;
* that of checked data, which allows plain digits only, and either blanks
  around the number or single underscores anywhere inside it.

Integers in checked data have a grammar of their own, since they may be of any
value, but not of any length.
-/
import ModeSchedule.Scalar
import ModeSchedule.Decimal.Digit

namespace ModeSchedule

/-- A number in writing: `± digits · 10 ^ exponent`. `whole` marks a numeral
with neither point nor exponent. -/
structure Numeral where
  negative : Bool
  digits : Nat
  exponent : Int
  whole : Bool
deriving Repr, DecidableEq

namespace Numeral

def toInt (n : Numeral) : Int := if n.negative then -(n.digits : Int) else n.digits

/-- The nearest number of a type. A negative zero keeps its sign where the type
has one. -/
def toScalar {K : Type} [Scalar K] (n : Numeral) : K :=
  let size : K := Scalar.ofDecimal n.digits n.exponent
  if n.negative then -size else size

def valueOf (digits : List Char) : Nat :=
  digits.foldl (fun n c => n * 10 + (c.toNat - '0'.toNat)) 0

/-- The digits at the front, and the rest. -/
def spanDigits (cs : List Char) : List Char × List Char := cs.span Char.isDigit

/-- The signed exponent that makes up a whole text, if any. -/
def exponent? : List Char → Option Int
  | '-' :: cs => (digits? cs).map fun n => -(n : Int)
  | '+' :: cs => (digits? cs).map Int.ofNat
  | cs => (digits? cs).map Int.ofNat
where
  digits? (cs : List Char) : Option Nat :=
    if !cs.isEmpty && cs.all Char.isDigit then some (valueOf cs) else none

/-- What follows the fraction: nothing, or an exponent. -/
def tail? : List Char → Option (Option Int)
  | [] => some none
  | c :: cs => if c == 'e' || c == 'E' then (exponent? cs).map some else none

/-- A numeral from its digits before and after the point and its exponent. -/
def assemble (negative : Bool) (front : List Char) (fraction : Option (List Char))
    (exponent : Option Int) : Numeral :=
  { negative
    digits := valueOf (front ++ fraction.getD [])
    exponent := exponent.getD 0 - (fraction.getD []).length
    whole := fraction.isNone && exponent.isNone }

/-- An unsigned numeral. `admit` decides on the digits before the point and
those after it, if there is a point. -/
def unsigned? (admits : List Char → Option (List Char) → Bool) (negative : Bool)
    (cs : List Char) : Option Numeral :=
  let (front, rest) := spanDigits cs
  let (fraction, rest) := match rest with
    | '.' :: more =>
      let (digits, rest) := spanDigits more
      (some digits, rest)
    | _ => (none, rest)
  if admits front fraction then (tail? rest).map (assemble negative front fraction) else none

/-- Digits in front, no leading zero, and digits behind a point. -/
def strictParts (front : List Char) (fraction : Option (List Char)) : Bool :=
  !front.isEmpty && (front.length == 1 || front.head? != some '0') && fraction != some []

/-- Digits on at least one side of the point. -/
def freeParts (front : List Char) (fraction : Option (List Char)) : Bool :=
  !front.isEmpty || (fraction.getD []) != []

/-- A numeral of the strict grammar. -/
def strict? : List Char → Option Numeral
  | '-' :: cs => unsigned? strictParts true cs
  | cs => unsigned? strictParts false cs

/-- Characters that count as blank around a typed-in number. -/
def isBlank (c : Char) : Bool :=
  let n := c.toNat
  (9 ≤ n && n ≤ 13) || n == 0x20 || n == 0x85 || n == 0xA0 || n == 0x1680 ||
    (0x2000 ≤ n && n ≤ 0x200A) || n == 0x2028 || n == 0x2029 || n == 0x202F ||
    n == 0x205F || n == 0x3000

/-- Without blanks at both ends. -/
def trimBlanks (cs : List Char) : List Char :=
  ((cs.dropWhile isBlank).reverse.dropWhile isBlank).reverse

/-- Without underscores, if each of them stands between two digits. -/
def dropUnderscores? : List Char → Option (List Char)
  | [] => some []
  | c :: '_' :: d :: cs =>
    if c.isDigit && d.isDigit then (dropUnderscores? (d :: cs)).map (c :: ·)
    else none
  | c :: cs => if c == '_' then none else (dropUnderscores? cs).map (c :: ·)

/-- A sign at the front, and the rest. -/
def splitSign : List Char → Bool × List Char
  | '-' :: cs => (true, cs)
  | '+' :: cs => (false, cs)
  | cs => (false, cs)

/-- What a free numeral says. -/
inductive Free where
  | number (n : Numeral)
  | infinite (negative : Bool)
  | undefined
deriving Repr, DecidableEq

/-- A number or a word for what is not finite, with nothing around it. -/
def bare? (cs : List Char) : Option Free :=
  let (negative, size) := splitSign cs
  let word := String.ofList (size.map Char.toLower)
  if word == "inf" || word == "infinity" then some (.infinite negative)
  else if word == "nan" then some .undefined
  else (unsigned? freeParts negative size).map .number

/-- A number as people type it. -/
def free? (s : String) : Option Free := do
  bare? (← dropUnderscores? (trimBlanks (s.toList.map Digit.plain)))

/-- The number that a free numeral says, if the type has it. -/
def Free.toScalar? {K : Type} [Scalar K] : Free → Option K
  | .number n => some n.toScalar
  | .infinite negative =>
    (Scalar.infinity? : Option K).map fun x => if negative then -x else x
  | .undefined => Scalar.undefined?

/-! ## Checked data -/

/-- Two underscores side by side. -/
def doubled : List Char → Bool
  | '_' :: '_' :: _ => true
  | _ :: cs => doubled cs
  | [] => false

/-- Without underscores, if none stands at an end or beside another. -/
def withoutUnderscores? (cs : List Char) : Option (List Char) :=
  if cs.head? == some '_' || cs.getLast? == some '_' || doubled cs then none
  else some (cs.filter (· != '_'))

/-- A number in checked data: without the blanks around it or, failing that,
without the underscores. -/
def checked? (s : String) : Option Free :=
  bare? (trimBlanks s.toList) <|> (withoutUnderscores? s.toList).bind bare?

/-- Why a text says no integer. -/
inductive NoNumeral where
  | text
  /-- Too many digits. -/
  | size
deriving Repr, DecidableEq

/-- The most characters an integer has, its sign included. -/
def longest : Nat := 4300

/-- An integer without leading zeros. One that is too long is refused as such,
whatever follows its digits. -/
def wholeInteger? (cs : List Char) : Except NoNumeral Int :=
  let (negative, size) := match cs with
    | '-' :: rest => (true, rest)
    | _ => (false, cs)
  let (digits, rest) := spanDigits size
  let complete := !digits.isEmpty && rest.isEmpty
  if digits.head? == some '0' then
    if digits.length == 1 && complete then .ok 0 else .error .text
  else if longest < digits.length + negative.toNat then .error .size
  else if !complete then .error .text
  else .ok (if negative then -(valueOf digits : Int) else valueOf digits)

/-- Skip zeros and the underscores among them; `last` is the character in front
of the list. It is kept where nothing or a point follows. -/
def skipZeros? (last : Char) : List Char → Option (List Char)
  | [] => some [last]
  | c :: cs =>
    if c == '0' || c == '_' then skipZeros? c cs
    else if c == '.' then some (last :: c :: cs)
    else if c.isDigit then some (c :: cs)
    else none

/-- Without zeros in front. They stay behind a minus sign. -/
def withoutZeros? : List Char → Option (List Char)
  | [] => none
  | c :: cs =>
    if c == '0' then skipZeros? c cs
    else if c.isDigit || c == '-' then some (c :: cs)
    else none

/-- Without a point that is followed by zeros, at least one, and nothing else. -/
def withoutFraction (cs : List Char) : List Char :=
  let (front, rest) := cs.span (· != '.')
  match rest.tail with
  | [] => cs
  | zeros => if zeros.all (· == '0') then front else cs

/-- The bare integer inside a text. -/
def tidied? (cs : List Char) : Option (List Char) := do
  let unsigned ← match trimBlanks cs with
    | '+' :: '-' :: _ => none
    | '+' :: rest => some rest
    | rest => some rest
  withoutUnderscores? (withoutFraction (← withoutZeros? unsigned))

/-- An integer in checked data: as it stands or, failing that, without blanks
around it, a plus sign, zeros in front, underscores, and a fraction of zeros. -/
def integer? (s : String) : Except NoNumeral Int :=
  match wholeInteger? s.toList with
  | .error .text =>
    match tidied? s.toList with
    | some cs => wholeInteger? cs
    | none => .error .text
  | r => r

end Numeral
end ModeSchedule
