/-
ModeSchedule.Proofs.Steps — what appending does to the steps of a schedule.

* `steps_append`: one more step at the end, whatever the encoding was.
* `inRange_append`: no mode appears that was not there before or was appended.
-/
import Mathlib
import ModeSchedule.Schedule

namespace ModeSchedule.Schedule

@[simp] theorem steps_nil : steps [] = [] := rfl

@[simp] theorem steps_cons (e : Entry) (s : Schedule) :
    steps (e :: s) = List.replicate e.times e.mode ++ steps s := by
  simp [steps]

theorem steps_dropMarker (s : Schedule) : s.dropMarker.steps = s.steps := by
  induction s using dropMarker.induct with
  | case1 => rfl
  | case2 e h => simp [dropMarker, h]
  | case3 e h => simp [dropMarker, h]
  | case4 e f s ih =>
    rw [dropMarker, steps_cons, ih, ← steps_cons]

theorem steps_push (mode : Nat) (s : Schedule) : (push mode s).steps = s.steps ++ [mode] := by
  induction s using push.induct mode with
  | case1 => rfl
  | case2 e h =>
    simp [push, h, List.replicate_succ']
  | case3 e h => simp [push, h]
  | case4 e f s ih =>
    rw [push, steps_cons, ih]
    simp

/-- Appending adds one step, also where it replaces a marker. -/
@[simp] theorem steps_append (mode : Nat) (s : Schedule) :
    (append mode s).steps = s.steps ++ [mode] := by
  rw [append, steps_push, steps_dropMarker]

/-! ## Modes in range -/

/-- Every entry names one of `count` modes. -/
def InRange (count : Nat) (s : Schedule) : Prop :=
  ∀ e ∈ s, e.mode < count

theorem inRange_nil (count : Nat) : InRange count [] := by simp [InRange]

theorem inRange_cons {count : Nat} {e : Entry} {s : Schedule} :
    InRange count (e :: s) ↔ e.mode < count ∧ InRange count s := by
  simp [InRange]

theorem inRange_dropMarker {count : Nat} {s : Schedule} (h : InRange count s) :
    InRange count s.dropMarker := by
  induction s using dropMarker.induct with
  | case1 => exact h
  | case2 e he =>
    rw [dropMarker, if_pos he]
    exact inRange_nil count
  | case3 e he =>
    rw [dropMarker, if_neg he]
    exact h
  | case4 e f s ih =>
    rw [inRange_cons] at h
    rw [dropMarker, inRange_cons]
    exact ⟨h.1, ih h.2⟩

theorem inRange_push {count mode : Nat} {s : Schedule} (hm : mode < count)
    (h : InRange count s) : InRange count (push mode s) := by
  induction s using push.induct mode with
  | case1 => simp [push, InRange, hm]
  | case2 e he => simp [push, he, InRange, hm]
  | case3 e he =>
    rw [inRange_cons] at h
    simp [push, he, InRange, hm, h.1]
  | case4 e f s ih =>
    rw [inRange_cons] at h
    rw [push, inRange_cons]
    exact ⟨h.1, ih h.2⟩

theorem inRange_append {count mode : Nat} {s : Schedule} (hm : mode < count)
    (h : InRange count s) : InRange count (append mode s) :=
  inRange_push hm (inRange_dropMarker h)

/-- The steps of a schedule in range are modes in range. -/
theorem steps_inRange {count : Nat} {s : Schedule} (h : InRange count s) :
    ∀ i ∈ s.steps, i < count := by
  induction s with
  | nil => simp
  | cons e s ih =>
    rw [inRange_cons] at h
    intro i hi
    rw [steps_cons, List.mem_append] at hi
    rcases hi with hi | hi
    · rw [List.eq_of_mem_replicate hi]
      exact h.1
    · exact ih h.2 i hi

end ModeSchedule.Schedule
