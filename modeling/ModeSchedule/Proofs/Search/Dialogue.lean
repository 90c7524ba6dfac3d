/-
ModeSchedule.Proofs.Search.Dialogue — what a script of keys says to a search.

Only some keys answer a prompt, and where the script is used up, the empty key
does. `Prompt.verdict` counts the keys that answer, `Prompt.upTo` lists all keys
up to one of them. A prompt reads up to the first verdict and leaves the others
to the prompts after it (`answer_read`, `upTo_succ`, `verdict_rest`).

`Prompt.dialogue` lists the answers that a number of levels get from a script,
as long as nothing but an answer ends the search. How many levels that are, and
what has been read after them, depends on the first verdict that is no "c"
alone (`length_dialogue`, `read_dialogue`).
-/
import Mathlib
import ModeSchedule.Search.Prompt

namespace ModeSchedule.Prompt

/-- The key answers a prompt. -/
def decides (key : String) : Bool := ["c", "r", "q", ""].contains key

/-- The key that answers a prompt, counted from the first one. After the script
all keys are empty. -/
def verdict (keys : List String) (n : Nat) : String := (keys.filter decides)[n]?.getD ""

/-- The keys up to the one that answers the last of a number of prompts. -/
def upTo : Nat → List String → List String
  | n, [] => List.replicate n ""
  | 0, _ :: _ => []
  | n + 1, key :: keys => key :: if decides key then upTo n keys else upTo (n + 1) keys

/-- The first of a number of prompts that is not answered with "c", if there is
one. -/
def exit? (prompts : Nat) (keys : List String) : Option Nat :=
  (List.range prompts).find? fun n => verdict keys n ≠ "c"

/-- The answers that follow a number of levels, while a search still pauses and
once it does not. -/
def dialogue : Bool → Nat → List String → List (Option Answer)
  | _, 0, _ => []
  | false, n + 1, keys => none :: dialogue false n keys
  | true, n + 1, keys =>
    let a := answer keys
    some a :: match a.command with
      | .quit => []
      | .resume => dialogue false n a.rest
      | .continue => dialogue true n a.rest

/-- The keys read for some answers. -/
def read (answers : List (Option Answer)) : List String :=
  answers.flatMap fun a => (a.map Answer.read).getD []

/-! ## One prompt -/

theorem ofKey?_eq (key : String) : Command.ofKey? key =
    if key = "c" then some .continue else if key = "r" then some .resume
    else if key = "q" then some .quit else none := by
  unfold Command.ofKey?
  split <;> simp_all

/-- A key that answers a prompt is the only one read for it. -/
theorem answer_cons_of_decides {key : String} {keys : List String} (h : decides key = true) :
    answer (key :: keys) = ⟨(Command.ofKey? key).getD .resume, [key], keys⟩ := by
  simp only [decides, List.contains_eq_mem, List.mem_cons, List.not_mem_nil, or_false,
    decide_eq_true_eq] at h
  rcases h with rfl | rfl | rfl | rfl <;> rfl

/-- Another key is read and ignored. -/
theorem answer_cons_of_ignored {key : String} {keys : List String} (h : decides key = false) :
    answer (key :: keys) = { answer keys with read := key :: (answer keys).read } := by
  simp only [decides, List.contains_eq_mem, List.mem_cons, List.not_mem_nil, or_false,
    decide_eq_false_iff_not, not_or] at h
  obtain ⟨hc, hr, hq, hempty⟩ := h
  have hkey : Command.ofKey? key = none := by rw [ofKey?_eq, if_neg hc, if_neg hr, if_neg hq]
  simp only [answer, hkey, String.isEmpty_iff, hempty, if_false]

theorem upTo_zero (keys : List String) : upTo 0 keys = [] := by
  cases keys <;> rfl

/-- A prompt reads up to the first verdict, and leaves the keys after it. -/
theorem upTo_succ (n : Nat) (keys : List String) :
    upTo (n + 1) keys = (answer keys).read ++ upTo n (answer keys).rest := by
  induction keys with
  | nil => rfl
  | cons key keys ih =>
    cases hkey : decides key with
    | true => simp only [upTo, hkey, if_true, answer_cons_of_decides hkey, List.singleton_append]
    | false =>
      simp only [upTo, hkey, Bool.false_eq_true, if_false, answer_cons_of_ignored hkey, ih,
        List.cons_append]

theorem answer_read (keys : List String) : (answer keys).read = upTo 1 keys := by
  rw [upTo_succ, upTo_zero, List.append_nil]

section

variable {key : String} (keys : List String)

theorem verdict_cons_zero (h : decides key = true) : verdict (key :: keys) 0 = key := by
  simp only [verdict, List.filter_cons, h, if_true, List.getElem?_cons_zero, Option.getD_some]

theorem verdict_cons_succ (h : decides key = true) (n : Nat) :
    verdict (key :: keys) (n + 1) = verdict keys n := by
  simp only [verdict, List.filter_cons, h, if_true, List.getElem?_cons_succ]

theorem verdict_cons_of_ignored (h : decides key = false) (n : Nat) :
    verdict (key :: keys) n = verdict keys n := by
  simp only [verdict, List.filter_cons, h, Bool.false_eq_true, if_false]

end

/-- The verdicts after the first are left to the prompts after the first. -/
theorem verdict_rest (keys : List String) (n : Nat) :
    verdict (answer keys).rest n = verdict keys (n + 1) := by
  induction keys with
  | nil => rfl
  | cons key keys ih =>
    cases hkey : decides key with
    | true => rw [answer_cons_of_decides hkey, verdict_cons_succ keys hkey]
    | false =>
      rw [answer_cons_of_ignored hkey, verdict_cons_of_ignored keys hkey]
      exact ih

/-- The first verdict is the command. -/
theorem answer_command (keys : List String) : (answer keys).command =
    if verdict keys 0 = "c" then .continue else if verdict keys 0 = "q" then .quit
    else .resume := by
  induction keys with
  | nil => rfl
  | cons key keys ih =>
    cases hkey : decides key with
    | true =>
      rw [answer_cons_of_decides hkey, verdict_cons_zero keys hkey, ofKey?_eq]
      by_cases hc : key = "c"
      · rw [if_pos hc, if_pos hc, Option.getD_some]
      · rw [if_neg hc, if_neg hc]
        by_cases hr : key = "r"
        · rw [if_pos hr, hr]
          rfl
        · rw [if_neg hr]
          split <;> rfl
    | false =>
      rw [answer_cons_of_ignored hkey, verdict_cons_of_ignored keys hkey]
      exact ih

/-! ## All prompts -/

theorem exit?_succ (n : Nat) (keys : List String) : exit? (n + 1) keys =
    if verdict keys 0 = "c" then (exit? n (answer keys).rest).map (· + 1) else some 0 := by
  have hshift : (fun k => decide (verdict keys k ≠ "c")) ∘ Nat.succ =
      fun k => decide (verdict (answer keys).rest k ≠ "c") := by
    funext k
    simp only [Function.comp_apply, verdict_rest]
  unfold exit?
  rw [List.range_succ_eq_map, List.find?_cons, List.find?_map, hshift]
  by_cases hc : verdict keys 0 = "c" <;> simp [hc]

theorem dialogue_zero (pausing : Bool) (keys : List String) : dialogue pausing 0 keys = [] := by
  cases pausing <;> rfl

theorem dialogue_false (n : Nat) (keys : List String) :
    dialogue false n keys = List.replicate n none := by
  induction n with
  | zero => rfl
  | succ n ih => rw [dialogue, ih, List.replicate_succ]

/-- As many levels are performed as there are, but no more than up to the first
verdict that is no "c" if that is a "q". -/
theorem length_dialogue (n : Nat) (keys : List String) :
    (dialogue true n keys).length = (exit? n keys).elim n
      fun k => if verdict keys k = "q" then k + 1 else n := by
  induction n generalizing keys with
  | zero => rfl
  | succ n ih =>
    rw [dialogue, List.length_cons, exit?_succ, answer_command]
    by_cases hc : verdict keys 0 = "c"
    · simp only [hc, if_true, ih]
      cases exit? n (answer keys).rest with
      | none => rfl
      | some k =>
        simp only [Option.map_some, Option.elim_some, verdict_rest]
        split <;> rfl
    · by_cases hq : verdict keys 0 = "q"
      · simp [hq]
      · simp [hc, hq, dialogue_false]

/-- The keys are read up to the first verdict that is no "c", or up to the last
one that answers a prompt. -/
theorem read_dialogue (n : Nat) (keys : List String) :
    read (dialogue true n keys) = upTo ((exit? n keys).elim n (· + 1)) keys := by
  induction n generalizing keys with
  | zero => exact (upTo_zero keys).symm
  | succ n ih =>
    rw [dialogue, exit?_succ, answer_command, read, List.flatMap_cons]
    by_cases hc : verdict keys 0 = "c"
    · have hprompts : ((exit? n (answer keys).rest).map (· + 1)).elim (n + 1) (· + 1) =
          (exit? n (answer keys).rest).elim n (· + 1) + 1 := by
        cases exit? n (answer keys).rest <;> rfl
      rw [if_pos hc, if_pos hc, hprompts, upTo_succ, ← ih]
      rfl
    · rw [if_neg hc, if_neg hc, Option.elim_some, Nat.zero_add, ← answer_read]
      by_cases hq : verdict keys 0 = "q"
      · simp [hq]
      · simp [hq, dialogue_false]

end ModeSchedule.Prompt
