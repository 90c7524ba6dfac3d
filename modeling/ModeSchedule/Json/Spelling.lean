/-
ModeSchedule.Json.Spelling — plain values as requests and messages take them.

In a message a value is spelled as a literal: words with a capital, real numbers
with a point, and the members of lists and objects in brackets. A text stands
bare by itself and in quotes inside brackets.
-/
import ModeSchedule.Given
import ModeSchedule.Json.Value
import ModeSchedule.Decimal.Layout

namespace ModeSchedule.Json

/-- A value in the place of a number. -/
def given : Json Float → Given Float
  | .int n => .whole n
  | .bool b => .truth b
  | .real x => .real x (Layout.plain.text x)
  | _ => .other

/-- A value in the place of a condition: nothing, zero and what is empty are
false. -/
def truthy : Json Float → Bool
  | .null => false
  | .bool b => b
  | .int n => n != 0
  | .real x => x != 0
  | .str s => !s.isEmpty
  | .arr items => !items.isEmpty
  | .obj members => !members.isEmpty

/-! ## Spelling -/

/-- A character inside quotes. -/
def spelledChar (quote c : Char) : List Char :=
  if c == quote || c == '\\' then ['\\', c]
  else if c == '\n' then ['\\', 'n']
  else if c == '\r' then ['\\', 'r']
  else if c == '\t' then ['\\', 't']
  else if c.toNat < 0x20 || (0x7f ≤ c.toNat && c.toNat ≤ 0xa0) || c.toNat == 0xad then
    '\\' :: 'x' :: Decimal.padZeros 2 (Nat.toDigits 16 c.toNat)
  else [c]

/-- A text in quotes: double ones if only single ones occur in it. -/
def spelledText (s : String) : String :=
  let quote := if s.toList.contains '\'' && !s.toList.contains '"' then '"' else '\''
  String.ofList (quote :: s.toList.flatMap (spelledChar quote) ++ [quote])

mutual

/-- A value inside brackets. -/
def literal : Json Float → String
  | .null => "None"
  | .bool b => if b then "True" else "False"
  | .int n => toString n
  | .real x => Layout.plain.text x
  | .str s => spelledText s
  | .arr items => "[" ++ ", ".intercalate (literalItems items) ++ "]"
  | .obj members => "\x7b" ++ ", ".intercalate (literalMembers members) ++ "\x7d"

def literalItems : List (Json Float) → List String
  | [] => []
  | v :: vs => literal v :: literalItems vs

def literalMembers : List (String × Json Float) → List String
  | [] => []
  | (k, v) :: ms => (spelledText k ++ ": " ++ literal v) :: literalMembers ms

end

/-- A value by itself. -/
def spelled : Json Float → String
  | .str s => s
  | v => literal v

end ModeSchedule.Json
