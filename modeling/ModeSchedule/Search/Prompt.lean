/-
ModeSchedule.Search.Prompt — asking how to go on.

An interactive search pauses after each level and reads keys until one of them
is a command. Other keys are ignored. The empty key stands for the end of the
input and resumes the search without further pauses; once the script of keys is
used up, every further key is empty.

A `Script` also says how long each key takes to come, as the clock shows it.
-/

namespace ModeSchedule

/-- What the user may ask for while a search is paused. -/
inductive Command where
  /-- Go on, and pause again after the next level. -/
  | «continue»
  /-- Go on, and never pause again. -/
  | resume
  /-- Stop now. -/
  | quit
deriving Repr, DecidableEq

namespace Command

def ofKey? : String → Option Command
  | "c" => some .continue
  | "r" => some .resume
  | "q" => some .quit
  | _ => none

def name : Command → String
  | .continue => "CONTINUE"
  | .resume => "RESUME"
  | .quit => "QUIT"

end Command

/-- An answered prompt: the command, the keys read for it, the last of which
decided, and the keys that are left. -/
structure Answer where
  command : Command
  read : List String
  rest : List String
deriving Repr, DecidableEq

/-- What is typed into a search: the keys in turn, and what the reading of each,
counted from the first, adds to the clock. -/
structure Script (K : Type) where
  keys : List String
  waits : Nat → K

namespace Script

variable {K : Type}

/-- Keys that all take equally long. -/
def steady (keys : List String) (wait : K) : Script K :=
  { keys, waits := fun _ => wait }

/-- The clock after a number of keys. Waits are added one by one. -/
def pass [Add K] (s : Script K) (count : Nat) (clock : K) : K :=
  (List.range count).foldl (fun clock i => clock + s.waits i) clock

/-- What is left of a script after an answer. -/
def after (s : Script K) (a : Answer) : Script K :=
  { keys := a.rest, waits := fun i => s.waits (a.read.length + i) }

end Script

namespace Prompt

/-- Read keys up to the first that decides. -/
def answer : List String → Answer
  | [] => ⟨.resume, [""], []⟩
  | key :: keys =>
    match Command.ofKey? key with
    | some command => ⟨command, [key], keys⟩
    | none =>
      if key.isEmpty then ⟨.resume, [""], keys⟩
      else
        let later := answer keys
        { later with read := key :: later.read }

/-- The answers to a number of prompts in turn. -/
def answers : Nat → List String → List Answer
  | 0, _ => []
  | n + 1, keys =>
    let a := answer keys
    a :: answers n a.rest

/-- The keys that a text offers where no terminal is attached: the first
character of each of its lines. -/
def keysOfLine (atStart : Bool) : List Char → List String
  | [] => []
  | c :: cs =>
    if atStart then String.singleton c :: keysOfLine (c == '\n') cs
    else keysOfLine (c == '\n') cs

/-- The keys that a text offers where no terminal is attached. -/
def keysOfText (text : String) : List String :=
  keysOfLine true text.toList

end Prompt
end ModeSchedule
