/-
ModeSchedule.Json.Reader — reading a text as a value.

A text is first cut into tokens, then the tokens are put together with a stack
of the containers that are still open. Both passes go through their input once.

Words are the longest stretches without punctuation, quotes and blanks; a word
is a literal or a number, or the text is refused. Of two members of one name
the later one counts.
-/
import ModeSchedule.Word
import ModeSchedule.Json.Value
import ModeSchedule.Decimal.Numeral

namespace ModeSchedule.Json

/-- What a reader does with numbers that doubles and 64-bit integers cannot
hold, and how deep it lets containers nest. -/
structure Dialect where
  /-- Keep integers of any size; otherwise those outside 64 bits become real
  numbers. -/
  wideIntegers : Bool
  /-- Accept real numbers that round to infinity. -/
  overflow : Bool
  depth : Option Nat
deriving Repr

/-- The dialect of saved files. -/
def Dialect.file : Dialect := { wideIntegers := false, overflow := false, depth := some 1024 }

/-- Numbers of any size and containers of any depth. -/
def Dialect.wide : Dialect := { wideIntegers := true, overflow := true, depth := none }

/-! ## Tokens -/

inductive Token where
  | openArray
  | closeArray
  | openObject
  | closeObject
  | comma
  | colon
  | word (cs : List Char)
  | text (s : String)
deriving Repr, DecidableEq

/-- Where in a token the lexer is. What has been read of the token is kept in
reverse. -/
inductive Place where
  | between
  | word (done : List Char)
  | text (done : List Char)
  | escape (done : List Char)
  /-- Inside the four digits of a code unit; `high` is the first half of a
  surrogate pair whose second half this is. -/
  | unit (done : List Char) (high : Option Nat) (value count : Nat)
  /-- Behind the first half of a surrogate pair. -/
  | afterHigh (done : List Char) (high : Nat)
  | afterHighEscape (done : List Char) (high : Nat)
deriving Repr

def punctuation? : Char → Option Token
  | '[' => some .openArray
  | ']' => some .closeArray
  | '\x7b' => some .openObject
  | '\x7d' => some .closeObject
  | ',' => some .comma
  | ':' => some .colon
  | _ => none

def isSpace (c : Char) : Bool := c == ' ' || c == '\t' || c == '\n' || c == '\r'

def escaped? : Char → Option Char
  | '"' => some '"'
  | '\\' => some '\\'
  | '/' => some '/'
  | 'b' => some '\x08'
  | 'f' => some '\x0c'
  | 'n' => some '\n'
  | 'r' => some '\r'
  | 't' => some '\t'
  | _ => none

def hexDigit? (c : Char) : Option Nat :=
  if c.isDigit then some (c.toNat - '0'.toNat)
  else if 'a' ≤ c ∧ c ≤ 'f' then some (c.toNat - 'a'.toNat + 10)
  else if 'A' ≤ c ∧ c ≤ 'F' then some (c.toNat - 'A'.toNat + 10)
  else none

/-- What a finished code unit makes of the text so far. -/
def placeUnit (done : List Char) (high : Option Nat) (unit : Nat) : Option Place :=
  let isHigh := 0xD800 ≤ unit && unit < 0xDC00
  let isLow := 0xDC00 ≤ unit && unit < 0xE000
  match high with
  | some h =>
    if isLow then
      some (.text (Char.ofNat (0x10000 + (h - 0xD800) * 0x400 + (unit - 0xDC00)) :: done))
    else none
  | none =>
    if isHigh then some (.afterHigh done unit)
    else if isLow then none
    else some (.text (Char.ofNat unit :: done))

/-- Read one character: the place after it, and the tokens it finishes. -/
def lexChar (place : Place) (c : Char) : Option (Place × List Token) :=
  match place with
  | .between =>
    if isSpace c then some (.between, [])
    else if c == '"' then some (.text [], [])
    else match punctuation? c with
      | some t => some (.between, [t])
      | none => some (.word [c], [])
  | .word done =>
    let finished := Token.word done.reverse
    if isSpace c then some (.between, [finished])
    else if c == '"' then some (.text [], [finished])
    else match punctuation? c with
      | some t => some (.between, [finished, t])
      | none => some (.word (c :: done), [])
  | .text done =>
    if c == '"' then some (.between, [.text (String.ofList done.reverse)])
    else if c == '\\' then some (.escape done, [])
    else if c.toNat < 0x20 then none
    else some (.text (c :: done), [])
  | .escape done =>
    if c == 'u' then some (.unit done none 0 0, [])
    else (escaped? c).map fun e => (.text (e :: done), [])
  | .unit done high value count => do
    let value := value * 16 + (← hexDigit? c)
    if count == 3 then return (← placeUnit done high value, [])
    else return (.unit done high value (count + 1), [])
  | .afterHigh done high => if c == '\\' then some (.afterHighEscape done high, []) else none
  | .afterHighEscape done high =>
    if c == 'u' then some (.unit done (some high) 0 0, []) else none

/-- Read one character into the place and the finished tokens, last first. -/
def lexStep (s : Place × List Token) (c : Char) : Option (Place × List Token) :=
  (lexChar s.1 c).map fun (place, finished) => (place, finished.reverse ++ s.2)

/-- The tokens of a text. -/
def tokens? (cs : List Char) : Option (List Token) := do
  let (place, done) ← cs.foldlM lexStep (.between, [])
  match place with
  | .between => some done.reverse
  | .word w => some (Token.word w.reverse :: done).reverse
  | _ => none

/-! ## Values -/

/-- A container that is still open: what it holds so far, in reverse, and in an
object the name of the member being read. -/
inductive Frame (K : Type) where
  | items (done : List (Json K))
  | members (done : List (String × Json K)) (key : String)

/-- What the next token has to be. -/
inductive Awaiting (K : Type) where
  /-- A value, or the end of an array that is still empty. -/
  | value (closable : Bool)
  /-- The name of a member, or the end of an object that is still empty. -/
  | key (done : List (String × Json K)) (closable : Bool)
  | colon (done : List (String × Json K)) (key : String)
  /-- A comma, or the end of the container. -/
  | more
  | nothing (result : Json K)

structure ReaderState (K : Type) where
  openFrames : List (Frame K)
  awaiting : Awaiting K

variable {K : Type} [Scalar K]

/-- The value of a word. -/
def ofWord? (dialect : Dialect) (word : List Char) : Option (Json K) :=
  if word == ['t', 'r', 'u', 'e'] then some (.bool true)
  else if word == ['f', 'a', 'l', 's', 'e'] then some (.bool false)
  else if word == ['n', 'u', 'l', 'l'] then some .null
  else do
    let n ← Numeral.strict? word
    let i := n.toInt
    if n.whole && (dialect.wideIntegers || Word.fits i) then return .int i
    else
      let x : K := n.toScalar
      if dialect.overflow || Scalar.isFinite x then return .real x else none

/-- Hand a finished value to the innermost open container. -/
def deliver (v : Json K) : List (Frame K) → ReaderState K
  | [] => ⟨[], .nothing v⟩
  | .items done :: openFrames => ⟨.items (v :: done) :: openFrames, .more⟩
  | .members done key :: openFrames => ⟨.members (setMember key v done) key :: openFrames, .more⟩

/-- Open a container, unless it would nest too deep. -/
def openFrame (dialect : Dialect) (s : ReaderState K) (next : ReaderState K) :
    Option (ReaderState K) :=
  if dialect.depth.all (s.openFrames.length < ·) then some next else none

/-- Read one token. -/
def feed (dialect : Dialect) (s : ReaderState K) (t : Token) : Option (ReaderState K) :=
  match s.awaiting, t with
  | .value _, .openArray =>
    openFrame dialect s ⟨.items [] :: s.openFrames, .value true⟩
  | .value _, .openObject => openFrame dialect s ⟨s.openFrames, .key [] true⟩
  | .value _, .word w => (ofWord? dialect w).map fun v => deliver v s.openFrames
  | .value _, .text x => some (deliver (.str x) s.openFrames)
  | .value true, .closeArray =>
    match s.openFrames with
    | .items done :: openFrames => some (deliver (.arr done.reverse) openFrames)
    | _ => none
  | .key done _, .text k => some ⟨s.openFrames, .colon done k⟩
  | .key done true, .closeObject => some (deliver (.obj done) s.openFrames)
  | .colon done k, .colon => some ⟨.members done k :: s.openFrames, .value false⟩
  | .more, .comma =>
    match s.openFrames with
    | .items done :: openFrames => some ⟨.items done :: openFrames, .value false⟩
    | .members done _ :: openFrames => some ⟨openFrames, .key done false⟩
    | [] => none
  | .more, .closeArray =>
    match s.openFrames with
    | .items done :: openFrames => some (deliver (.arr done.reverse) openFrames)
    | _ => none
  | .more, .closeObject =>
    match s.openFrames with
    | .members done _ :: openFrames => some (deliver (.obj done) openFrames)
    | _ => none
  | _, _ => none

/-- Read a text as one value. -/
def parse? (dialect : Dialect) (text : String) : Option (Json K) := do
  let ts ← tokens? text.toList
  let s ← ts.foldlM (feed dialect) ⟨[], .value false⟩
  match s.awaiting with
  | .nothing v => some v
  | _ => none

end ModeSchedule.Json
