/-
ModeSchedule.Proofs.Simulation.Scan — the scan of a completing step ends.

`Overshoot.Scans` is the scan as a loop, with no bound on the points it tests: it goes on
until a point is complete or the step is over. A loop that ends within the bound of the
definition finds what the definition finds (`Scans.firstComplete?_eq`).

Over exact numbers it does end. The points lie at the multiples of one tenth of a
relative position, refined by the distance of the start (`position_mem`), so there are
no more of them than fit into the step and its start, and the bound leaves two to spare. The
scan tests those before the first complete one (`scans_before`), and `scan_finds_first`
says what it returns.
-/
import ModeSchedule.Proofs.Requests
import ModeSchedule.Proofs.Search.Replay
import ModeSchedule.Proofs.Tolerance

namespace ModeSchedule.Overshoot

/-! ## The scan as a loop -/

section

variable {K S R A : Type} [Scalar K] {P : Problem K S R A} {previous current : Solution K S R}

/-- A point that carries its own distance. -/
def measured (P : Problem K S R A) (point : Solution K S R) : Solution K S R :=
  { point with distance := some (P.distance point) }

/-- The scan from an instant on: the relative positions it tests, in order, and the
complete point it finds, if it finds one. -/
inductive Scans (P : Problem K S R A) (previous current : Solution K S R) :
    K → List K → Option (Solution K S R) → Prop
  | ended {t : K} : ¬t ≤ P.settings.timeDelta → Scans P previous current t [] none
  | found {t : K} : t ≤ P.settings.timeDelta →
      P.complete (pointAt P previous current (t / P.settings.timeDelta)) = true →
        Scans P previous current t [t / P.settings.timeDelta]
          (some (measured P (pointAt P previous current (t / P.settings.timeDelta))))
  | next {t : K} {tested : List K} {found : Option (Solution K S R)} : t ≤ P.settings.timeDelta →
      P.complete (pointAt P previous current (t / P.settings.timeDelta)) = false →
        Scans P previous current (t + increment P previous) tested found →
          Scans P previous current t (t / P.settings.timeDelta :: tested) found

namespace Scans

variable {t : K} {tested tested' : List K} {found found' : Option (Solution K S R)}

/-- A scan can go only one way. -/
theorem unique (h : Scans P previous current t tested found)
    (h' : Scans P previous current t tested' found') : tested = tested' ∧ found = found' := by
  induction h generalizing tested' found' with
  | ended hover =>
    cases h' with
    | ended => exact ⟨rfl, rfl⟩
    | found hle => exact absurd hle hover
    | next hle => exact absurd hle hover
  | found hle hcomplete =>
    cases h' with
    | ended hover => exact absurd hle hover
    | found => exact ⟨rfl, rfl⟩
    | next _ hincomplete =>
      rw [hcomplete] at hincomplete
      cases hincomplete
  | next hle hincomplete _ ih =>
    cases h' with
    | ended hover => exact absurd hle hover
    | found _ hcomplete =>
      rw [hcomplete] at hincomplete
      cases hincomplete
    | next _ _ hrest =>
      obtain ⟨htested, hfound⟩ := ih hrest
      exact ⟨by rw [htested], hfound⟩

/-- A bound that is above the number of points tested changes nothing. -/
theorem firstInstant?_eq (h : Scans P previous current t tested found) {n : Nat}
    (hn : tested.length < n) :
    (firstInstant? (fun t => P.complete (pointAt P previous current (t / P.settings.timeDelta)))
      P.settings.timeDelta (increment P previous) n t).map
        (fun t => measured P (pointAt P previous current (t / P.settings.timeDelta))) = found := by
  induction h generalizing n with
  | ended hover =>
    cases n with
    | zero => rfl
    | succ n => simp [firstInstant?, hover]
  | found hle hcomplete =>
    cases n with
    | zero => exact absurd hn (Nat.not_lt_zero _)
    | succ n => simp [firstInstant?, hle, hcomplete]
  | next hle hincomplete _ ih =>
    cases n with
    | zero => exact absurd hn (Nat.not_lt_zero _)
    | succ n =>
      have hrest := ih (Nat.lt_of_succ_lt_succ hn)
      simpa [firstInstant?, hle, hincomplete] using hrest

theorem firstComplete?_eq (h : Scans P previous current 0 tested found)
    (hbound : tested.length < pointBound P previous) :
    firstComplete? P previous current = found :=
  h.firstInstant?_eq hbound

end Scans

/-- A request for a correction is granted if the states it asks about can be measured. -/
theorem correct?_eq_ok (hprevious : P.misfit? previous.state = none)
    (hzero : P.misfit? (pointAt P previous current 0).state = none) :
    correct? (some P) previous current =
      .ok (settle P previous current, (firstComplete? P previous current).isNone) := by
  have hstart := requireMeasured_eq_ok.mpr (List.forall_mem_singleton.mpr hprevious)
  have hpoint := requireMeasured_eq_ok.mpr (List.forall_mem_singleton.mpr hzero)
  show (if (carriedDistance? previous).isNone then requireMeasured P [previous] >>= fun _ => _
    else _) = _
  rw [hstart, hpoint]
  split <;> rfl

end

/-! ## Exact numbers -/

variable {S R A : Type} {P : Problem Rat S R A} {previous current : Solution Rat S R}

theorem refinement_rat (P : Problem Rat S R A) (previous : Solution Rat S R) :
    refinement P previous =
      max 1 (|previous.distance.getD (P.distance previous)| / P.settings.threshold) := by
  have hstart : startDistance P previous = previous.distance.getD (P.distance previous) := by
    unfold startDistance carriedDistance?
    cases previous.distance <;> rfl
  unfold refinement Scalar.larger
  rw [hstart, Scalar.abs_rat]
  by_cases hlt : 1 < |previous.distance.getD (P.distance previous)| / P.settings.threshold
  · rw [max_eq_right hlt.le]
    exact if_pos hlt
  · rw [max_eq_left (not_lt.mp hlt)]
    exact if_neg hlt

/-- The number of increments of the scan, which need not be whole. -/
def parts (P : Problem Rat S R A) (previous : Solution Rat S R) : Rat := 10 * refinement P previous

theorem one_le_refinement (P : Problem Rat S R A) (previous : Solution Rat S R) :
    1 ≤ refinement P previous := by
  rw [refinement_rat]
  exact le_max_left _ _

theorem parts_pos (P : Problem Rat S R A) (previous : Solution Rat S R) : 0 < parts P previous := by
  have hone := one_le_refinement P previous
  unfold parts
  linarith

/-- The point of the scan after a number of increments. -/
def gridPoint (P : Problem Rat S R A) (previous current : Solution Rat S R) (k : Nat) :
    Solution Rat S R :=
  pointAt P previous current (k / parts P previous)

/-- The relative positions of the first points. -/
def positions (P : Problem Rat S R A) (previous : Solution Rat S R) (n : Nat) : List Rat :=
  (List.range n).map fun k : Nat => (k : Rat) / parts P previous

theorem length_positions (P : Problem Rat S R A) (previous : Solution Rat S R) (n : Nat) :
    (positions P previous n).length = n := by simp [positions]

/-- No point of the scan lies outside the step. -/
theorem position_mem {n : Nat} (hn : n ≤ ⌊parts P previous⌋₊ + 1) :
    ∀ relative ∈ positions P previous n, 0 ≤ relative ∧ relative ≤ 1 := by
  intro relative hrelative
  have hparts := parts_pos P previous
  obtain ⟨k, hk, rfl⟩ := List.mem_map.mp hrelative
  have hfloor : k ≤ ⌊parts P previous⌋₊ := by
    have hlt := List.mem_range.mp hk
    omega
  exact ⟨by positivity, (div_le_one hparts).mpr ((Nat.le_floor_iff hparts.le).mp hfloor)⟩

/-- The first complete point of the scan comes after `k` increments. -/
structure FirstAt (P : Problem Rat S R A) (previous current : Solution Rat S R) (k : Nat) :
    Prop where
  le : (k : Rat) ≤ parts P previous
  complete : P.complete (gridPoint P previous current k) = true
  first : ∀ j < k, P.complete (gridPoint P previous current j) = false

theorem FirstAt.le_floor {k : Nat} (h : FirstAt P previous current k) :
    k ≤ ⌊parts P previous⌋₊ :=
  (Nat.le_floor_iff (parts_pos P previous).le).mpr h.le

/-- Some point of the scan is the first complete one, or none is complete. -/
theorem exists_firstAt (P : Problem Rat S R A) (previous current : Solution Rat S R) :
    (∃ k, FirstAt P previous current k) ∨
      ∀ k : Nat, k ≤ parts P previous → P.complete (gridPoint P previous current k) = false := by
  by_cases hsome : ∃ k : Nat,
      (k : Rat) ≤ parts P previous ∧ P.complete (gridPoint P previous current k) = true
  · obtain ⟨hle, hcomplete⟩ := Nat.find_spec hsome
    refine Or.inl ⟨Nat.find hsome, hle, hcomplete, fun j hj => ?_⟩
    have hjk : (j : Rat) ≤ Nat.find hsome := by exact_mod_cast hj.le
    have hmin := Nat.find_min hsome hj
    rw [← Bool.not_eq_true]
    exact fun hjc => hmin ⟨hjk.trans hle, hjc⟩
  · refine Or.inr fun k hk => ?_
    rw [← Bool.not_eq_true]
    exact fun hkc => hsome ⟨k, hk, hkc⟩

section

variable (hdelta : 0 < P.settings.timeDelta)

include hdelta

/-- The increments lie evenly between the ends of the step. -/
theorem instant_div (previous : Solution Rat S R) (k : Nat) :
    k * increment P previous / P.settings.timeDelta = k / parts P previous := by
  have hparts := (parts_pos P previous).ne'
  have hlength := hdelta.ne'
  change k * (P.settings.timeDelta / parts P previous) / P.settings.timeDelta = _
  field_simp

theorem instant_le_iff (previous : Solution Rat S R) (k : Nat) :
    k * increment P previous ≤ P.settings.timeDelta ↔ k ≤ parts P previous := by
  rw [← div_le_one hdelta, instant_div hdelta, div_le_one (parts_pos P previous)]

/-- A scan whose first points are not complete goes on behind them. -/
theorem scans_before {n : Nat} {tested : List Rat} {found : Option (Solution Rat S R)}
    (hbefore : ∀ j < n, (j : Rat) ≤ parts P previous ∧
      P.complete (gridPoint P previous current j) = false)
    (hrest : Scans P previous current (n * increment P previous) tested found) :
    Scans P previous current 0 (positions P previous n ++ tested) found := by
  induction n generalizing tested with
  | zero => simpa [positions] using hrest
  | succ n ih =>
    obtain ⟨hle, hincomplete⟩ := hbefore n (Nat.lt_succ_self n)
    have hnext : Scans P previous current (n * increment P previous)
        (n / parts P previous :: tested) found := by
      rw [← instant_div hdelta]
      refine .next ((instant_le_iff hdelta previous n).mpr hle) ?_ ?_
      · rwa [instant_div hdelta]
      · rwa [Nat.cast_succ, add_one_mul] at hrest
    have hlonger := ih (fun j hj => hbefore j (Nat.lt_succ_of_lt hj)) hnext
    simpa [positions, List.range_succ] using hlonger

/-- The scan ends at the first complete point, if there is one. -/
theorem scans_found {k : Nat} (h : FirstAt P previous current k) :
    Scans P previous current 0 (positions P previous (k + 1))
      (some (measured P (gridPoint P previous current k))) := by
  have hlast : Scans P previous current (k * increment P previous) [k / parts P previous]
      (some (measured P (gridPoint P previous current k))) := by
    have hcomplete := h.complete
    unfold gridPoint at hcomplete ⊢
    rw [← instant_div hdelta] at hcomplete ⊢
    exact .found ((instant_le_iff hdelta previous k).mpr h.le) hcomplete
  have hbefore : ∀ j < k, (j : Rat) ≤ parts P previous ∧
      P.complete (gridPoint P previous current j) = false := by
    intro j hj
    have hjk : (j : Rat) ≤ k := by exact_mod_cast hj.le
    exact ⟨hjk.trans h.le, h.first j hj⟩
  have hscan := scans_before hdelta hbefore hlast
  simpa [positions, List.range_succ] using hscan

/-- Where no point is complete, the scan tests all of them. -/
theorem scans_none
    (hnone : ∀ k : Nat, k ≤ parts P previous →
      P.complete (gridPoint P previous current k) = false) :
    Scans P previous current 0 (positions P previous (⌊parts P previous⌋₊ + 1)) none := by
  have hlast : Scans P previous current ((⌊parts P previous⌋₊ + 1 : Nat) * increment P previous) []
      none := by
    refine .ended ?_
    rw [instant_le_iff hdelta, not_le, Nat.cast_succ]
    exact Nat.lt_floor_add_one _
  have hbefore : ∀ j < ⌊parts P previous⌋₊ + 1, (j : Rat) ≤ parts P previous ∧
      P.complete (gridPoint P previous current j) = false := by
    intro j hj
    have hle : (j : Rat) ≤ parts P previous :=
      (Nat.le_floor_iff (parts_pos P previous).le).mp (Nat.le_of_lt_succ hj)
    exact ⟨hle, hnone j hle⟩
  have hscan := scans_before hdelta hbefore hlast
  rwa [List.append_nil] at hscan

/-! ## What is found -/

/-- The bound of the definition is two above the number of points there are. -/
theorem pointBound_rat (previous : Solution Rat S R) :
    pointBound P previous = ⌊parts P previous⌋₊ + 3 := by
  have hparts := (parts_pos P previous).ne'
  have hlength := hdelta.ne'
  have hquotient : P.settings.timeDelta / increment P previous = parts P previous := by
    change P.settings.timeDelta / (P.settings.timeDelta / parts P previous) = _
    field_simp
  have hfloor := Scalar.truncate_rat (parts P previous)
  unfold pointBound
  rw [hquotient]
  cases htruncate : Scalar.truncate (parts P previous) with
  | error cause => simp [htruncate, Except.map] at hfloor
  | ok n =>
    rw [htruncate] at hfloor
    dsimp only
    rw [Except.ok.inj hfloor]

/-- A scan of no more points than there are finds what the definition finds. -/
theorem firstComplete?_of_scans {n : Nat} {found : Option (Solution Rat S R)}
    (h : Scans P previous current 0 (positions P previous n) found)
    (hn : n ≤ ⌊parts P previous⌋₊ + 1) : firstComplete? P previous current = found := by
  refine h.firstComplete?_eq ?_
  rw [pointBound_rat hdelta, length_positions]
  omega

theorem firstComplete?_found {k : Nat} (h : FirstAt P previous current k) :
    firstComplete? P previous current = some (measured P (gridPoint P previous current k)) :=
  firstComplete?_of_scans hdelta (scans_found hdelta h) (Nat.succ_le_succ h.le_floor)

theorem firstComplete?_none
    (hnone : ∀ k : Nat, k ≤ parts P previous →
      P.complete (gridPoint P previous current k) = false) :
    firstComplete? P previous current = none :=
  firstComplete?_of_scans hdelta (scans_none hdelta hnone) le_rfl

/-- The correction is the first complete point, or the end of the step. -/
theorem settle_cases (previous current : Solution Rat S R) :
    (∃ k, FirstAt P previous current k ∧
        settle P previous current = measured P (gridPoint P previous current k)) ∨
      (∀ k : Nat, k ≤ parts P previous → P.complete (gridPoint P previous current k) = false) ∧
        settle P previous current = current := by
  rcases exists_firstAt P previous current with ⟨k, hfirst⟩ | hnone
  · refine Or.inl ⟨k, hfirst, ?_⟩
    rw [settle, firstComplete?_found hdelta hfirst, Option.getD_some]
  · refine Or.inr ⟨hnone, ?_⟩
    rw [settle, firstComplete?_none hdelta hnone, Option.getD_none]

/-- The scan ends, with what the definition finds, and it leaves the step nowhere. -/
theorem exists_scans (previous current : Solution Rat S R) :
    ∃ n ≤ ⌊parts P previous⌋₊ + 1, Scans P previous current 0 (positions P previous n)
      (firstComplete? P previous current) := by
  rcases exists_firstAt P previous current with ⟨k, hfirst⟩ | hnone
  · refine ⟨k + 1, Nat.succ_le_succ hfirst.le_floor, ?_⟩
    rw [firstComplete?_found hdelta hfirst]
    exact scans_found hdelta hfirst
  · refine ⟨_, le_rfl, ?_⟩
    rw [firstComplete?_none hdelta hnone]
    exact scans_none hdelta hnone

end

/-- **The scan ends, and finds the first complete point.** Over exact numbers, let `d` be the
distance that the start of a step carries, or else the one it has, and `f` that distance in
thresholds, but at least one. The scan tests at most as many points as there are multiples of
`1 / (10 * f)` from zero to one, and all of them lie inside the step. What it finds is the
point at the first multiple that is complete, with its own distance, and it finds nothing if
none is; then the end of the step stands. The schedule is that of the end of the step.

A request for the correction of states that can be measured is granted, and tells whether the
end of the step stands. -/
theorem scan_finds_first (P : Problem Rat S R A) (hdelta : 0 < P.settings.timeDelta)
    (previous current : Solution Rat S R) :
    let f := max 1 (|previous.distance.getD (P.distance previous)| / P.settings.threshold)
    let point (k : Nat) := pointAt P previous current (k / (10 * f))
    ∃ tested found, Scans P previous current 0 tested found ∧
      (∀ tested' found', Scans P previous current 0 tested' found' →
        tested' = tested ∧ found' = found) ∧
      tested.length ≤ ⌊10 * f⌋₊ + 1 ∧
      (∀ relative ∈ tested, 0 ≤ relative ∧ relative ≤ 1) ∧
      (∀ k : Nat, k ≤ 10 * f → P.complete (point k) = true →
        (∀ j < k, P.complete (point j) = false) →
          found = some { point k with distance := some (P.distance (point k)) }) ∧
      ((∀ k : Nat, k ≤ 10 * f → P.complete (point k) = false) → found = none) ∧
      settle P previous current = found.getD current ∧
      (settle P previous current).schedule = current.schedule ∧
      (P.misfit? previous.state = none → P.misfit? (pointAt P previous current 0).state = none →
        correct? (some P) previous current = .ok (found.getD current, found.isNone)) := by
  intro f point
  have hparts : parts P previous = 10 * f := congrArg (10 * ·) (refinement_rat P previous)
  have hpoint : gridPoint P previous current = point := by
    funext k
    rw [gridPoint, hparts]
  rw [← hparts, ← hpoint]
  obtain ⟨n, hn, hscans⟩ := exists_scans hdelta previous current
  refine ⟨_, _, hscans, fun _ _ h => h.unique hscans, ?_, position_mem hn, ?_, ?_, rfl,
    settle_schedule P previous current, ?_⟩
  · rwa [length_positions]
  · intro k hk hcomplete hfirst
    exact firstComplete?_found hdelta ⟨hk, hcomplete, hfirst⟩
  · exact firstComplete?_none hdelta
  · intro hprevious hzero
    exact correct?_eq_ok hprevious hzero

/-- A quarter of a unit from the start, one and three quarters from the target. -/
def sampleStart : Rate.Candidate Rat :=
  { schedule := [⟨0, 1⟩], state := 1 / 4, resources := ⟨1 / 4, 1⟩, distance := none }

/-- One unit further on. -/
def sampleEnd : Rate.Candidate Rat :=
  { schedule := [⟨0, 2⟩], state := 5 / 4, resources := ⟨5 / 4, 2⟩, distance := some (3 / 4) }

/-- After four fifths of the step. -/
def samplePoint : Rate.Candidate Rat :=
  { schedule := [⟨0, 2⟩], state := 21 / 20, resources := ⟨21 / 20, 9 / 5⟩
    distance := some (19 / 20) }

/-- There are seventeen and a half increments, and the fourteenth leads to the first complete
point. -/
theorem scan_finds_first_sample : 0 < Rate.sampleSettings.timeDelta ∧
    ∃ tested, Scans (Rate.problem Rate.sampleSettings) sampleStart sampleEnd 0 tested
        (some samplePoint) ∧
      tested.length ≤ 18 ∧
      correct? (some (Rate.problem Rate.sampleSettings)) sampleStart sampleEnd =
        .ok (samplePoint, false) := by
  have hdelta : 0 < Rate.sampleSettings.timeDelta := by decide +kernel
  obtain ⟨tested, found, hscans, -, hlength, -, hfound, -, -, -, hrequest⟩ :=
    scan_finds_first (Rate.problem Rate.sampleSettings) hdelta sampleStart sampleEnd
  have hpoint : found = some samplePoint := by
    rw [hfound 14 (by decide +kernel) (by decide +kernel) (by decide +kernel), Option.some_inj,
      samplePoint, Solution.mk.injEq]
    exact ⟨rfl, by decide +kernel, by decide +kernel, by decide +kernel⟩
  subst hpoint
  have hparts : 10 * max 1 (|sampleStart.distance.getD
      ((Rate.problem Rate.sampleSettings).distance sampleStart)| /
        (Rate.problem Rate.sampleSettings).settings.threshold) = 35 / 2 := by decide +kernel
  refine ⟨hdelta, tested, hscans, hlength.trans ?_, hrequest rfl rfl⟩
  rw [hparts]
  norm_num

end ModeSchedule.Overshoot
