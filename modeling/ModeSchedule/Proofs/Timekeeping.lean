/-
ModeSchedule.Proofs.Timekeeping — time that is waited away is not counted.

`Scalar.ExactSums` states what exact sums of clock readings keep; doubles do not
keep it, rationals do. Under it, a clock that is set forward stays ahead by as
much, however it ticks (`tick_later`).

`Stopwatch.Trails` relates two stopwatches, the clock of the second one being
ahead: read at the same moment, both show the same, so both have reached their
limit or neither has. To pause the second one while its clock advances keeps the
relation, and only puts its clock further ahead (`Stopwatch.Trails.pause`).
-/
import Mathlib
import ModeSchedule.Stopwatch

namespace ModeSchedule

namespace Scalar

/-- Sums and differences are exact: terms may be reordered and cancel. -/
class ExactSums (K : Type) [Scalar K] : Prop where
  add_comm (a b : K) : a + b = b + a
  add_assoc (a b c : K) : a + b + c = a + (b + c)
  add_sub_cancel (a b : K) : a + b - b = a
  sub_add_cancel (a b : K) : a - b + b = a

instance : ExactSums Rat where
  add_comm := fun a b => Rat.add_comm a b
  add_assoc := fun a b c => Rat.add_assoc a b c
  add_sub_cancel := fun _ _ => Rat.add_sub_cancel
  sub_add_cancel := fun _ _ => Rat.sub_add_cancel

namespace ExactSums

variable {K : Type} [Scalar K] [ExactSums K]

theorem add_right_comm (a b c : K) : a + b + c = a + c + b := by
  rw [add_assoc, add_comm b c, ← add_assoc]

theorem add_sub_assoc (a b c : K) : a + (b - c) = a + b - c := by
  calc a + (b - c) = a + (b - c) + c - c := (add_sub_cancel _ c).symm
    _ = a + b - c := by rw [add_assoc, sub_add_cancel]

theorem add_sub_self_left (a b : K) : a + (b - a) = b := by
  rw [add_comm, sub_add_cancel]

theorem add_sub_self (a b : K) : a + (b - b) = a := by
  rw [add_sub_assoc, add_sub_cancel]

/-- A difference does not change when both readings are later. -/
theorem add_sub_add_right (a b c : K) : a + c - (b + c) = a - b := by
  calc a + c - (b + c) = a - b + b + c - (b + c) := by rw [sub_add_cancel]
    _ = a - b := by rw [add_assoc, add_sub_cancel]

/-- Two intervals that follow each other add up. -/
theorem sub_add_sub (a b c : K) : (b - a) + (c - b) = c - a := by
  rw [add_comm, add_sub_assoc, sub_add_cancel]

/-- What passes from one reading to another is not seen from the later one. -/
theorem add_sub_sub (a b c : K) : a + (b - c) - b = a - c := by
  calc a + (b - c) - b
    _ = a - c + c + (b - c) - b := by rw [sub_add_cancel]
    _ = a - c + b - b := by rw [add_assoc, add_comm c, sub_add_cancel]
    _ = a - c := add_sub_cancel _ _

end ExactSums
end Scalar

open Scalar

variable {K : Type} [Scalar K] [ExactSums K]

/-- A clock that is ahead stays ahead by as much. -/
theorem tick_later (length : K) (n : Nat) (clock ahead : K) :
    tick length n (clock + ahead) = tick length n clock + ahead := by
  induction n generalizing clock with
  | zero => rfl
  | succ n ih => rw [tick, tick, ExactSums.add_right_comm, ih]

namespace Stopwatch

omit [ExactSums K] in
/-- Without a limit nothing is reached. -/
theorem expired_eq_false {w : Stopwatch K} {now : K} (h : w.limit = none) :
    w.expired now = false := by
  simp only [expired, h]

omit [ExactSums K] in
theorem elapsed_started (timeout : Option K) (clock now : K) :
    (started timeout clock).elapsed now = 0 + (now - clock) := rfl

/-- The second stopwatch, whose clock is ahead, shows what the first one shows. -/
structure Trails (ahead : K) (w w' : Stopwatch K) : Prop where
  limit : w'.limit = w.limit
  elapsed (now : K) : w'.elapsed (now + ahead) = w.elapsed now

theorem Trails.refl (w : Stopwatch K) (clock : K) : Trails (clock - clock) w w :=
  ⟨rfl, fun now => by rw [ExactSums.add_sub_self]⟩

omit [ExactSums K] in
theorem Trails.expired {ahead : K} {w w' : Stopwatch K} (h : Trails ahead w w') (now : K) :
    w'.expired (now + ahead) = w.expired now := by
  unfold Stopwatch.expired
  rw [h.limit]
  cases w.limit with
  | none => rfl
  | some limit => dsimp only; rw [h.elapsed]

/-- From any moment on, a running stopwatch counts what the clock shows. -/
theorem elapsed_of_running {w : Stopwatch K} (hw : w.running = true) (clock now : K) :
    w.elapsed now = w.elapsed clock + (now - clock) := by
  obtain ⟨t, ht⟩ := Option.isSome_iff_exists.mp hw
  simp only [elapsed, ht]
  rw [ExactSums.add_assoc, ExactSums.sub_add_sub]

omit [ExactSums K] in
/-- What was counted before a pause is kept, and the pause is not counted. -/
theorem elapsed_resumed (w : Stopwatch K) (stop later now : K) :
    ((w.pause stop).start later).elapsed now = w.elapsed stop + (now - later) := by
  unfold pause
  cases hw : w.startedAt with
  | none => simp only [start, elapsed, hw, Option.getD_none]
  | some t => simp only [start, elapsed, hw, Option.getD_none]

/-- A pause puts the clock of the second stopwatch further ahead, and the
stopwatches still show the same. -/
theorem Trails.pause {ahead : K} {w w' : Stopwatch K} (h : Trails ahead w w')
    (hw : w.running = true) (clock later : K) :
    Trails (later - clock) w ((w'.pause (clock + ahead)).start later) := by
  constructor
  case limit =>
    rw [← h.limit]
    simp only [start, Stopwatch.pause]
    split <;> rfl
  case elapsed =>
    intro now
    calc ((w'.pause (clock + ahead)).start later).elapsed (now + (later - clock))
      _ = w'.elapsed (clock + ahead) + (now + (later - clock) - later) := elapsed_resumed ..
      _ = w.elapsed clock + (now - clock) := by rw [h.elapsed, ExactSums.add_sub_sub]
      _ = w.elapsed now := (elapsed_of_running hw clock now).symm

end Stopwatch
end ModeSchedule
