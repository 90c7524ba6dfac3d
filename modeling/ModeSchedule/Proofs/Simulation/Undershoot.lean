/-
ModeSchedule.Proofs.Simulation.Undershoot — how far past the threshold a corrected step ends.

In the one-dimensional domain over exact numbers, the distance falls evenly along a step
(`Rate.distance_pointAt`), by `Rate.gap` from one point of the scan to the next. The point
before the first complete one has not reached the threshold yet, so the first complete one
is at most a gap behind it (`Rate.Crossing.found_bounds`). Where no point is complete, the
last of them is less than an increment away from the end of the step, and the end is less
than a gap behind the threshold (`Rate.Crossing.end_bounds`).

`correction_near_threshold` is the statement for the correction. A whole gap is lost only
where a point lies exactly at the threshold, since what is there is not complete
(`whole_gap_lost`).
-/
import ModeSchedule.Proofs.Simulation.Scan
import ModeSchedule.Proofs.Simulation.Spending

namespace ModeSchedule

/-! ## Between the ends of a step -/

/-- A point of an interval, or before it, uses no more than its end. -/
theorem Usage.blend_within_end {u v : Usage Rat} (h : Usage.within u v = true) {relative : Rat}
    (hrelative : relative ≤ 1) : Usage.within (Usage.blend u v relative) v = true := by
  rw [within_rat] at h ⊢
  have hbetween : ∀ x y : Rat, x ≤ y → x + relative * (y - x) ≤ y := by
    intro x y hxy
    have := mul_le_mul_of_nonneg_right hrelative (sub_nonneg.mpr hxy)
    linarith
  exact ⟨hbetween _ _ h.1, hbetween _ _ h.2⟩

theorem Usage.blend_one (u v : Usage Rat) : Usage.blend u v 1 = v := by
  simp [Usage.blend]

namespace Rate

open Overshoot

variable {settings : Settings Rat Rat} {previous current : Candidate Rat} {k : Nat}

/-- A step that goes past the threshold: it starts with a candidate that is not complete and
carries its distance, or none, and it ends with one that is complete and has used no less. -/
structure Crossing (settings : Settings Rat Rat) (previous current : Candidate Rat) : Prop where
  delta_pos : 0 < settings.timeDelta
  threshold_pos : 0 < settings.threshold
  start : settings.threshold ≤ distance settings previous
  carried : previous.distance = none ∨ previous.distance = some (distance settings previous)
  ending : distance settings current < settings.threshold
  spends : Usage.within previous.resources current.resources = true

/-- What one increment of the scan takes off the distance. -/
def gap (settings : Settings Rat Rat) (previous current : Candidate Rat) : Rat :=
  (distance settings previous - distance settings current) * settings.threshold /
    (10 * distance settings previous)

theorem complete_iff {s : Candidate Rat} :
    (problem settings).complete s = true ↔ distance settings s < settings.threshold :=
  decide_eq_true_iff

theorem complete_eq_false_iff {s : Candidate Rat} :
    (problem settings).complete s = false ↔ settings.threshold ≤ distance settings s :=
  decide_eq_false_iff_not.trans not_lt

/-- The distance falls evenly along a step. -/
theorem distance_pointAt (settings : Settings Rat Rat) (previous current : Candidate Rat)
    (relative : Rat) :
    distance settings (pointAt (problem settings) previous current relative) =
      distance settings previous -
        relative * (distance settings previous - distance settings current) := by
  change settings.targetState - (previous.state + relative * (current.state - previous.state)) =
    settings.targetState - previous.state -
      relative * ((settings.targetState - previous.state) - (settings.targetState - current.state))
  ring

namespace Crossing

variable (h : Crossing settings previous current)

include h

theorem start_pos : 0 < distance settings previous := h.threshold_pos.trans_le h.start

theorem falls : distance settings current < distance settings previous :=
  h.ending.trans_le h.start

theorem gap_pos : 0 < gap settings previous current := by
  have hfall := sub_pos.mpr h.falls
  have hstart := h.start_pos
  have hthreshold := h.threshold_pos
  unfold gap
  positivity

/-- There are ten increments for each threshold that the start is away. -/
theorem parts_eq : parts (problem settings) previous =
    10 * distance settings previous / settings.threshold := by
  have hdistance :
      previous.distance.getD ((problem settings).distance previous) =
        distance settings previous := by
    rcases h.carried with hnone | hsome
    · rw [hnone]
      rfl
    · rw [hsome, Option.getD_some]
  have hone : 1 ≤ distance settings previous / settings.threshold :=
    (one_le_div h.threshold_pos).mpr h.start
  have hrefinement :
      refinement (problem settings) previous = distance settings previous / settings.threshold := by
    rw [refinement_rat, hdistance, abs_of_pos h.start_pos]
    exact max_eq_right hone
  rw [parts, hrefinement, mul_div_assoc]

/-- Of the fall of the whole step, an increment has its part. -/
theorem gap_eq : gap settings previous current =
    (distance settings previous - distance settings current) /
      parts (problem settings) previous := by
  have hstart := h.start_pos.ne'
  have hthreshold := h.threshold_pos.ne'
  rw [h.parts_eq, gap]
  field_simp

/-- A gap is a tenth of the threshold, less what the end of the step has left of it. -/
theorem gap_eq_tenth : gap settings previous current =
    settings.threshold / 10 -
      distance settings current * settings.threshold / (10 * distance settings previous) := by
  have hstart := h.start_pos.ne'
  rw [gap]
  field_simp

theorem distance_gridPoint (k : Nat) :
    distance settings (gridPoint (problem settings) previous current k) =
      distance settings previous - k * gap settings previous current := by
  rw [gridPoint, distance_pointAt, h.gap_eq]
  ring

/-- The first complete point is behind the threshold, but the point before it is not. -/
theorem found_bounds (hfirst : FirstAt (problem settings) previous current k) :
    (distance settings previous - k * gap settings previous current < settings.threshold) ∧
      ∃ j : Nat,
        settings.threshold ≤ distance settings previous - j * gap settings previous current ∧
        distance settings previous - k * gap settings previous current =
          distance settings previous - j * gap settings previous current -
            gap settings previous current := by
  have hcomplete := complete_iff.mp hfirst.complete
  rw [h.distance_gridPoint] at hcomplete
  refine ⟨hcomplete, ?_⟩
  cases k with
  | zero =>
    rw [Nat.cast_zero, zero_mul, sub_zero] at hcomplete
    exact absurd h.start (not_le.mpr hcomplete)
  | succ j =>
    have hbefore := complete_eq_false_iff.mp (hfirst.first j (Nat.lt_succ_self j))
    rw [h.distance_gridPoint] at hbefore
    refine ⟨j, hbefore, ?_⟩
    push_cast
    ring

/-- If no point is complete, the end of the step is less than a gap behind the threshold. -/
theorem end_bounds
    (hnone : ∀ k : Nat, k ≤ parts (problem settings) previous →
      (problem settings).complete (gridPoint (problem settings) previous current k) = false) :
    settings.threshold - gap settings previous current < distance settings current := by
  have hparts := parts_pos (problem settings) previous
  have hlast := complete_eq_false_iff.mp (hnone _ (Nat.floor_le hparts.le))
  rw [h.distance_gridPoint] at hlast
  have hrest := mul_lt_mul_of_pos_right
    (Nat.lt_floor_add_one (parts (problem settings) previous)) h.gap_pos
  have hwhole : parts (problem settings) previous * gap settings previous current =
      distance settings previous - distance settings current := by
    rw [h.gap_eq, mul_div_cancel₀ _ hparts.ne']
  linarith

/-- The correction is less than a gap behind the threshold, or it is a whole gap behind and a
point lies at the threshold. -/
theorem settle_bounds :
    distance settings (settle (problem settings) previous current) < settings.threshold ∧
      (settings.threshold - gap settings previous current <
          distance settings (settle (problem settings) previous current) ∨
        (∃ k : Nat, distance settings previous - k * gap settings previous current =
            settings.threshold) ∧
          distance settings (settle (problem settings) previous current) =
            settings.threshold - gap settings previous current) := by
  rcases settle_cases (P := problem settings) h.delta_pos previous current with
    ⟨k, hfirst, hsettle⟩ | ⟨hnone, hsettle⟩
  · obtain ⟨hbehind, j, hbefore, hnext⟩ := h.found_bounds hfirst
    have hdistance : distance settings (settle (problem settings) previous current) =
        distance settings previous - k * gap settings previous current := by
      rw [hsettle]
      exact h.distance_gridPoint k
    rw [hdistance]
    refine ⟨hbehind, ?_⟩
    rw [hnext]
    rcases hbefore.lt_or_eq with hlt | heq
    · exact Or.inl (sub_lt_sub_right hlt _)
    · exact Or.inr ⟨⟨j, heq.symm⟩, by rw [← heq]⟩
  · rw [hsettle]
    exact ⟨h.ending, Or.inl (h.end_bounds hnone)⟩

/-- The correction lies between the ends of the step. -/
theorem settle_between :
    ∃ relative : Rat, 0 ≤ relative ∧ relative ≤ 1 ∧
      (settle (problem settings) previous current).state =
        previous.state + relative * (current.state - previous.state) ∧
      (settle (problem settings) previous current).resources =
        Usage.blend previous.resources current.resources relative := by
  have hparts := parts_pos (problem settings) previous
  rcases settle_cases (P := problem settings) h.delta_pos previous current with
    ⟨k, hfirst, hsettle⟩ | ⟨-, hsettle⟩
  · rw [hsettle]
    exact ⟨k / parts (problem settings) previous, by positivity, (div_le_one hparts).mpr hfirst.le,
      rfl, rfl⟩
  · rw [hsettle]
    exact ⟨1, zero_le_one, le_rfl, by ring, (Usage.blend_one _ _).symm⟩

theorem settle_state :
    previous.state ≤ (settle (problem settings) previous current).state ∧
      (settle (problem settings) previous current).state ≤ current.state := by
  obtain ⟨relative, hzero, hone, hstate, -⟩ := h.settle_between
  have hends : previous.state ≤ current.state := by
    have hfalls : settings.targetState - current.state < settings.targetState - previous.state :=
      h.falls
    linarith
  have hlow := mul_nonneg hzero (sub_nonneg.mpr hends)
  have hhigh := mul_le_mul_of_nonneg_right hone (sub_nonneg.mpr hends)
  rw [hstate]
  constructor <;> linarith

theorem settle_resources :
    Usage.within previous.resources (settle (problem settings) previous current).resources = true ∧
      Usage.within (settle (problem settings) previous current).resources current.resources =
        true := by
  obtain ⟨relative, hzero, hone, -, hresources⟩ := h.settle_between
  rw [hresources]
  exact ⟨Usage.blend_within h.spends hzero, Usage.blend_within_end h.spends hone⟩

end Crossing
end Rate

/-- **A corrected step ends near the threshold.** In the one-dimensional domain over exact
numbers, let a step lead from a distance `d₀` that is at least the threshold, which its start
carries unless it carries none, to a distance `d₁` below the threshold, and let it give nothing
back. A request for the correction is granted, and the corrected end is complete. Its distance
falls below the threshold by at most `(d₀ - d₁) * threshold / (10 * d₀)`, and by less unless a
point of the scan lies exactly at the threshold; so by at most a tenth of the threshold where
`d₁` is not negative, and by less where it is positive. State, energy and time lie between those
of the two ends. -/
theorem correction_near_threshold {settings : Settings Rat Rat}
    {previous current : Rate.Candidate Rat}
    (h : Rate.Crossing settings previous current) :
    let corrected := Overshoot.settle (Rate.problem settings) previous current
    let d₀ := Rate.distance settings previous
    let d₁ := Rate.distance settings current
    let gap := (d₀ - d₁) * settings.threshold / (10 * d₀)
    (∃ stands, Overshoot.correct? (some (Rate.problem settings)) previous current =
      .ok (corrected, stands)) ∧
    (Rate.problem settings).complete corrected = true ∧
    Rate.distance settings corrected < settings.threshold ∧
    (settings.threshold - gap < Rate.distance settings corrected ∨
      (∃ k : Nat, d₀ - k * gap = settings.threshold) ∧
        Rate.distance settings corrected = settings.threshold - gap) ∧
    (0 ≤ d₁ → settings.threshold - Rate.distance settings corrected ≤ settings.threshold / 10) ∧
    (0 < d₁ → settings.threshold - Rate.distance settings corrected < settings.threshold / 10) ∧
    (previous.state ≤ corrected.state ∧ corrected.state ≤ current.state) ∧
    Usage.within previous.resources corrected.resources = true ∧
    Usage.within corrected.resources current.resources = true := by
  intro corrected d₀ d₁ gap
  obtain ⟨hbehind, hnear⟩ := h.settle_bounds
  have hle : settings.threshold - gap ≤ Rate.distance settings corrected := by
    rcases hnear with hlt | ⟨-, heq⟩
    · exact hlt.le
    · exact heq.ge
  have hstart : 0 < d₀ := h.start_pos
  have hthreshold := h.threshold_pos
  have hgap : gap = settings.threshold / 10 - d₁ * settings.threshold / (10 * d₀) := h.gap_eq_tenth
  refine ⟨⟨_, Overshoot.correct?_eq_ok rfl rfl⟩, Rate.complete_iff.mpr hbehind, hbehind, hnear,
    fun hend => ?_, fun hend => ?_, h.settle_state, h.settle_resources⟩
  · have hleft : 0 ≤ d₁ * settings.threshold / (10 * d₀) := by positivity
    linarith
  · have hleft : 0 < d₁ * settings.threshold / (10 * d₀) := by positivity
    linarith

/-- The step from one and three quarters to three quarters goes past a threshold of one. -/
theorem correction_near_threshold_sample :
    Rate.Crossing Rate.sampleSettings Overshoot.sampleStart Overshoot.sampleEnd ∧
      Rate.distance Rate.sampleSettings (Overshoot.settle (Rate.problem Rate.sampleSettings)
        Overshoot.sampleStart Overshoot.sampleEnd) < 1 ∧
      1 - Rate.distance Rate.sampleSettings (Overshoot.settle (Rate.problem Rate.sampleSettings)
        Overshoot.sampleStart Overshoot.sampleEnd) < 1 / 10 := by
  have h : Rate.Crossing Rate.sampleSettings Overshoot.sampleStart Overshoot.sampleEnd :=
    { delta_pos := by decide +kernel
      threshold_pos := by decide +kernel
      start := by decide +kernel
      carried := Or.inl rfl
      ending := by decide +kernel
      spends := by decide +kernel }
  obtain ⟨-, -, hbehind, -, -, htenth, -⟩ := correction_near_threshold h
  exact ⟨h, hbehind, htenth (by decide +kernel)⟩

/-- Eight units from the target, with a threshold of five. -/
def atThresholdSettings : Settings Rat Rat :=
  { initialState := 0, targetState := 8, timeDelta := 1, timeMax := 20, threshold := 5 }

def atThresholdStart : Rate.Candidate Rat :=
  { schedule := [⟨0, 1⟩], state := 0, resources := ⟨0, 0⟩, distance := some 8 }

/-- At the target, after one step. -/
def atThresholdEnd : Rate.Candidate Rat :=
  { schedule := [⟨0, 2⟩], state := 8, resources := ⟨8, 1⟩, distance := some 0 }

/-- There are sixteen increments of a half. The sixth leads to the threshold, where a candidate
is not complete, so the correction is after the seventh: a whole gap, which is a tenth of the
threshold, behind. -/
theorem whole_gap_lost :
    let corrected := Overshoot.settle (Rate.problem atThresholdSettings) atThresholdStart
      atThresholdEnd
    let d₀ := Rate.distance atThresholdSettings atThresholdStart
    let d₁ := Rate.distance atThresholdSettings atThresholdEnd
    let threshold := atThresholdSettings.threshold
    Rate.Crossing atThresholdSettings atThresholdStart atThresholdEnd ∧ 0 ≤ d₁ ∧
      ¬ threshold - (d₀ - d₁) * threshold / (10 * d₀) <
        Rate.distance atThresholdSettings corrected ∧
      ¬ threshold - Rate.distance atThresholdSettings corrected < threshold / 10 := by
  refine ⟨⟨?_, ?_, ?_, Or.inr ?_, ?_, ?_⟩, ?_, ?_, ?_⟩ <;> decide +kernel

end ModeSchedule
