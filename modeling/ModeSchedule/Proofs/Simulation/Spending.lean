/-
ModeSchedule.Proofs.Simulation.Spending — usage only grows along a run.

In the one-dimensional domain over exact numbers, no step gives anything back:
it adds to both resources, and a corrected end of a step is a point between its
start and its end. `walk_within` says so for a whole walk. This is what makes it
safe to drop a candidate that an accepted one dominates: whatever could still
grow from it is dominated as well.

Nor does a walk take more time than its steps last (`walk_time_le`).
-/
import ModeSchedule.Proofs.Dominance
import ModeSchedule.Proofs.Simulation.Walk
import ModeSchedule.Rate

namespace ModeSchedule

/-- A point of an interval, or behind it, uses no less than its start. -/
theorem Usage.blend_within {u v : Usage Rat} (h : Usage.within u v = true) {relative : Rat}
    (hrelative : 0 ≤ relative) : Usage.within u (Usage.blend u v relative) = true := by
  rw [within_rat] at h ⊢
  have hbetween : ∀ x y : Rat, x ≤ y → x ≤ x + relative * (y - x) := by
    intro x y hxy
    have := mul_nonneg hrelative (sub_nonneg.mpr hxy)
    linarith
  exact ⟨hbetween _ _ h.1, hbetween _ _ h.2⟩

namespace Overshoot

/-- An instant that is found does not lie before the first one that is tried. -/
theorem firstInstant?_le {accept : Rat → Bool} {last gap t first : Rat} {n : Nat}
    (hgap : 0 ≤ gap) (h : firstInstant? accept last gap n first = some t) : first ≤ t := by
  induction n generalizing first with
  | zero => simp [firstInstant?] at h
  | succ n ih =>
    simp only [firstInstant?] at h
    split at h
    · split at h
      · exact le_of_eq (Option.some.inj h)
      · have hlater : first + gap ≤ t := ih h
        linarith
    · cases h

/-- An instant that is found does not lie behind the last one. -/
theorem firstInstant?_le_last {accept : Rat → Bool} {last gap t first : Rat} {n : Nat}
    (h : firstInstant? accept last gap n first = some t) : t ≤ last := by
  induction n generalizing first with
  | zero => simp [firstInstant?] at h
  | succ n ih =>
    simp only [firstInstant?] at h
    split at h
    · next hle =>
      split at h
      · rwa [← Option.some.inj h]
      · exact ih h
    · cases h

/-- The increments of a scan do not go back. -/
theorem increment_nonneg {S R A : Type} {P : Problem Rat S R A} (hdelta : 0 < P.settings.timeDelta)
    (previous : Solution Rat S R) : 0 ≤ increment P previous := by
  have hrefinement : 1 ≤ refinement P previous := by
    unfold refinement Scalar.larger
    split
    · next h => exact le_of_lt h
    · exact le_refl (1 : Rat)
  have h10 : (0 : Rat) ≤ 10 * refinement P previous := by linarith
  exact div_nonneg hdelta.le h10

end Overshoot

namespace Rate

variable {settings : Settings Rat Rat} {modes : List (Mode Rat)}

theorem abs_nonneg (rate : Rat) : 0 ≤ Scalar.abs rate := by
  change 0 ≤ if rate < 0 then -rate else rate
  split <;> linarith

/-- A step adds to both resources. -/
theorem stepped_within (hdelta : 0 < settings.timeDelta) (rate : Rat) (i : Nat)
    (s : Candidate Rat) :
    Usage.within s.resources (Run.stepped (problem settings) rate i s).resources = true := by
  have henergy := mul_nonneg (abs_nonneg rate) hdelta.le
  refine Usage.within_rat.mpr ⟨?_, ?_⟩
  · change s.resources.energy ≤ s.resources.energy + Scalar.abs rate * settings.timeDelta
    linarith
  · change s.resources.time ≤ s.resources.time + settings.timeDelta
    linarith

/-- The corrected end of a step lies behind its start. -/
theorem settle_within (hdelta : 0 < settings.timeDelta) {previous current : Candidate Rat}
    (h : Usage.within previous.resources current.resources = true) :
    Usage.within previous.resources
      (Overshoot.settle (problem settings) previous current).resources = true := by
  unfold Overshoot.settle
  cases hfirst : Overshoot.firstComplete? (problem settings) previous current with
  | none => exact h
  | some point =>
    unfold Overshoot.firstComplete? at hfirst
    obtain ⟨t, ht, rfl⟩ := Option.map_eq_some_iff.mp hfirst
    have hincrement := Overshoot.increment_nonneg (P := problem settings) hdelta previous
    have ht0 : 0 ≤ t := Overshoot.firstInstant?_le hincrement ht
    exact Usage.blend_within h (div_nonneg ht0 hdelta.le)

theorem single_within (hdelta : 0 < settings.timeDelta) (rate : Rat) (i : Nat)
    (s : Candidate Rat) :
    Usage.within s.resources (Run.single (problem settings) rate i s).solution.resources =
      true := by
  have hstepped := stepped_within hdelta rate i s
  simp only [Run.single]
  split
  · exact settle_within hdelta hstepped
  · exact hstepped

/-- **Usage never shrinks.** Along any walk, both resources stay at least what
they were. -/
theorem walk_within (hdelta : 0 < settings.timeDelta) (word : List Nat) (s : Candidate Rat) :
    Usage.within s.resources
      (Run.walk (problem settings) modes word s).solution.resources = true := by
  induction word generalizing s with
  | nil => exact Usage.within_refl (Usage.isNumber_rat s.resources)
  | cons i word ih =>
    cases hm : modes[i]? with
    | none =>
      simp only [Run.walk, hm]
      exact Usage.within_refl (Usage.isNumber_rat s.resources)
    | some m =>
      have hsingle := single_within hdelta m.dynamics i s
      rw [Run.walk_cons hm]
      cases hc : (Run.single (problem settings) m.dynamics i s).completed with
      | true => rwa [Run.andThen_of_completed hc]
      | false =>
        rw [Run.andThen_of_not_completed hc]
        exact Usage.within_trans hsingle (ih _)

/-! ## Time -/

/-- The corrected end of a step is not later than its end. -/
theorem settle_time_le (hdelta : 0 < settings.timeDelta) {previous current : Candidate Rat}
    (h : previous.resources.time ≤ current.resources.time) :
    (Overshoot.settle (problem settings) previous current).resources.time ≤
      current.resources.time := by
  unfold Overshoot.settle
  cases hfirst : Overshoot.firstComplete? (problem settings) previous current with
  | none => exact le_refl current.resources.time
  | some point =>
    unfold Overshoot.firstComplete? at hfirst
    obtain ⟨t, ht, rfl⟩ := Option.map_eq_some_iff.mp hfirst
    have hrelative : t / settings.timeDelta ≤ 1 :=
      (div_le_one hdelta).mpr (Overshoot.firstInstant?_le_last ht)
    have hpart := mul_le_mul_of_nonneg_right hrelative (sub_nonneg.mpr h)
    change previous.resources.time + t / settings.timeDelta *
      (current.resources.time - previous.resources.time) ≤ current.resources.time
    linarith

theorem single_time_le (hdelta : 0 < settings.timeDelta) (rate : Rat) (i : Nat)
    (s : Candidate Rat) :
    (Run.single (problem settings) rate i s).solution.resources.time ≤
      s.resources.time + settings.timeDelta := by
  have hstepped : (Run.stepped (problem settings) rate i s).resources.time =
      s.resources.time + settings.timeDelta := rfl
  simp only [Run.single]
  split
  · rw [← hstepped]
    refine settle_time_le hdelta ?_
    rw [hstepped]
    linarith
  · exact hstepped.le

/-- Along a walk, no step takes longer than a step lasts. -/
theorem walk_time_le (hdelta : 0 < settings.timeDelta) (word : List Nat) (s : Candidate Rat) :
    (Run.walk (problem settings) modes word s).solution.resources.time ≤
      s.resources.time + (Run.walk (problem settings) modes word s).steps * settings.timeDelta := by
  induction word generalizing s with
  | nil => simp
  | cons i word ih =>
    cases hm : modes[i]? with
    | none => simp [Run.walk, hm]
    | some m =>
      have hsingle := single_time_le hdelta m.dynamics i s
      rw [Run.walk_cons hm]
      cases hc : (Run.single (problem settings) m.dynamics i s).completed with
      | true =>
        rw [Run.andThen_of_completed hc, Run.single_steps]
        simpa using hsingle
      | false =>
        have hrest := ih (Run.single (problem settings) m.dynamics i s).solution
        rw [Run.andThen_of_not_completed hc]
        simp only [Run.single_steps]
        push_cast
        linarith

end Rate
end ModeSchedule
