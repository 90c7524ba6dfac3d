/-
ModeSchedule.Json.Writer — writing a value as text.

Either everything stands on one line without blanks, or each item and member on
a line of its own, indented by two blanks per level. In saved files a number
that is not finite is null, and integers outside 64 bits and values nested too
deep cannot be written; other texts need not be so narrow. An empty array never
nests too deep.
-/
import ModeSchedule.Word
import ModeSchedule.Json.Value
import ModeSchedule.Decimal.Layout

namespace ModeSchedule.Json

/-- Why a value cannot be written. -/
inductive Unwritable where
  | integerTooWide
  | nestedTooDeep
deriving Repr, DecidableEq

/-- What a writer does with the values that files cannot hold, and how it
breaks lines. -/
structure Style where
  /-- Put each item and member on a line of its own. -/
  indented : Bool
  /-- Write integers of any size. -/
  wideIntegers : Bool
  /-- Write a number that is not finite as the word for it, not as null. -/
  words : Bool
  /-- The deepest nesting of containers that is written. -/
  depth : Option Nat
deriving Repr

/-- Everything on one line, for files. -/
def Style.line : Style :=
  { indented := false, wideIntegers := false, words := false, depth := some 254 }

/-- Broken lines, for files. -/
def Style.lines : Style := { Style.line with indented := true }

/-- Numbers of any kind and containers of any depth on one line. -/
def Style.wide : Style :=
  { indented := false, wideIntegers := true, words := true, depth := none }

def hexText (n : Nat) : List Char := Decimal.padZeros 4 (Nat.toDigits 16 n)

/-- A character inside quotes. -/
def escape (c : Char) : List Char :=
  match c with
  | '"' => ['\\', '"']
  | '\\' => ['\\', '\\']
  | '\x08' => ['\\', 'b']
  | '\t' => ['\\', 't']
  | '\n' => ['\\', 'n']
  | '\x0c' => ['\\', 'f']
  | '\r' => ['\\', 'r']
  | c => if c.toNat < 0x20 then '\\' :: 'u' :: hexText c.toNat else [c]

def quoted (s : String) : String :=
  "\"" ++ String.ofList (s.toList.flatMap escape) ++ "\""

/-- A number; a word or null where it is not finite. -/
def numberText (style : Style) (x : Float) : String :=
  if x.isFinite then Layout.compact.text x
  else if style.words then quoted (Layout.compact.text x)
  else "null"

/-- The line break in front of something at a depth, if lines are broken. -/
def lineBreak (indented : Bool) (depth : Nat) : String :=
  if indented then "\n" ++ String.ofList (List.replicate (2 * depth) ' ') else ""

/-- Pieces between two brackets, separated by commas. -/
def enclosed (indented : Bool) (depth : Nat) (left right : String) : List String → String
  | [] => left ++ right
  | pieces =>
    let gap := lineBreak indented (depth + 1)
    left ++ gap ++ ("," ++ gap).intercalate pieces ++ lineBreak indented depth ++ right

mutual

/-- A value that stands inside `depth` containers. -/
def render (style : Style) (depth : Nat) : Json Float → Except Unwritable String
  | null => .ok "null"
  | bool b => .ok (if b then "true" else "false")
  | int n =>
    if style.wideIntegers || Word.fits n then .ok (toString n) else .error .integerTooWide
  | real x => .ok (numberText style x)
  | str s => .ok (quoted s)
  | arr [] => .ok "[]"
  | arr items =>
    if style.depth.any (· ≤ depth) then .error .nestedTooDeep
    else do
      let pieces ← renderItems style (depth + 1) items
      return enclosed style.indented depth "[" "]" pieces
  | obj members =>
    if style.depth.any (· ≤ depth) then .error .nestedTooDeep
    else do
      let pieces ← renderMembers style (depth + 1) members
      return enclosed style.indented depth "\x7b" "\x7d" pieces

def renderItems (style : Style) (depth : Nat) :
    List (Json Float) → Except Unwritable (List String)
  | [] => .ok []
  | v :: vs => do
    let piece ← render style depth v
    return piece :: (← renderItems style depth vs)

def renderMembers (style : Style) (depth : Nat) :
    List (String × Json Float) → Except Unwritable (List String)
  | [] => .ok []
  | (k, v) :: ms => do
    let piece ← render style depth v
    let colon := if style.indented then ": " else ":"
    return (quoted k ++ colon ++ piece) :: (← renderMembers style depth ms)

end

/-- The text of a value. -/
def write (style : Style) (v : Json Float) : Except Unwritable String :=
  render style 0 v

end ModeSchedule.Json
