/-
ModeSchedule.Proofs.Simulation.Pieces — a mode applied in one go or in pieces.

`Run.after` says where a number of steps of a mode leads, whether or not one of them
completes the candidate. A run takes all of its steps if none does (`advance_of_incomplete`);
otherwise it ends with the first one that does, corrected (`advance_of_completing`).

So the steps of a run may be cut anywhere before the one that completes it, and what is asked
for beyond that one does not matter (`simulation_in_pieces`). Nothing is asked of the domain
but that it measures what it does not call complete. What the tapping machine cannot measure,
it calls complete (`Tapping.machine_measured`).
-/
import ModeSchedule.Proofs.Simulation.Locality
import ModeSchedule.Proofs.Search.Survival

namespace ModeSchedule

variable {K S R A : Type} [Scalar K] {P : Problem K S R A} {dynamics : A} {mode : Nat}
  {s : Solution K S R} {a b k n : Nat}

/-! ## Where steps lead -/

namespace Run

/-- A run of several steps is a run of the first ones and then, from where that ends, of the
others. -/
theorem advance_add (P : Problem K S R A) (dynamics : A) (mode a b : Nat) (s : Solution K S R) :
    advance P dynamics mode (a + b) s =
      (advance P dynamics mode a s).andThen (advance P dynamics mode b) := by
  induction a generalizing s with
  | zero => rw [Nat.zero_add, advance, start_andThen]
  | succ a ih => rw [Nat.succ_add, advance_succ, advance_succ, andThen_assoc, funext ih]

/-- The candidate after a number of steps, whether or not one of them completes it. -/
def after (P : Problem K S R A) (dynamics : A) (mode n : Nat) (s : Solution K S R) :
    Solution K S R :=
  (stepped P dynamics mode)^[n] s

/-- None of a number of steps completes the candidate. -/
def Incomplete (P : Problem K S R A) (dynamics : A) (mode n : Nat) (s : Solution K S R) : Prop :=
  ∀ j, 0 < j → j ≤ n → P.complete (after P dynamics mode j s) = false

/-- A run of several steps is over after `k` of them: they are the steps up to the first that
completes the candidate, or all if none does. -/
structure EndsAt (P : Problem K S R A) (dynamics : A) (mode n : Nat) (s : Solution K S R)
    (k : Nat) : Prop where
  pos : 0 < k
  le : k ≤ n
  incomplete : Incomplete P dynamics mode (k - 1) s
  complete : k < n → P.complete (after P dynamics mode k s) = true

omit [Scalar K] in
theorem Incomplete.mono (h : Incomplete P dynamics mode n s) (hkn : k ≤ n) :
    Incomplete P dynamics mode k s :=
  fun j hpos hj => h j hpos (hj.trans hkn)

omit [Scalar K] in
/-- If one of the steps completes the candidate, one is the first to. -/
theorem exists_completing (h : ¬Incomplete P dynamics mode n s) :
    ∃ k, EndsAt P dynamics mode n s k ∧ P.complete (after P dynamics mode k s) = true := by
  have hsome : ∃ j, 0 < j ∧ j ≤ n ∧ P.complete (after P dynamics mode j s) = true := by
    simpa [Incomplete] using h
  obtain ⟨hpos, hle, hcomplete⟩ := Nat.find_spec hsome
  refine ⟨Nat.find hsome, ⟨hpos, hle, fun j hj hjk => ?_, fun _ => hcomplete⟩, hcomplete⟩
  have hmin := Nat.find_min hsome (show j < Nat.find hsome by omega)
  rw [← Bool.not_eq_true]
  exact fun hjc => hmin ⟨hj, by omega, hjc⟩

/-! ## Where runs end -/

theorem advance_of_incomplete (h : Incomplete P dynamics mode n s) :
    advance P dynamics mode n s = ⟨after P dynamics mode n s, n, false⟩ := by
  induction n generalizing s with
  | zero => rfl
  | succ n ih =>
    have hfirst : P.complete (stepped P dynamics mode s) = false := h 1 Nat.one_pos (by omega)
    have hrest : Incomplete P dynamics mode n (stepped P dynamics mode s) :=
      fun j _ hj => h (j + 1) (Nat.succ_pos j) (Nat.succ_le_succ hj)
    simp only [advance, hfirst, Bool.false_eq_true, if_false, ih hrest]
    rfl

/-- The step that completes the candidate is the last one, and it is corrected. -/
theorem advance_of_completing (h : EndsAt P dynamics mode n s k)
    (hcomplete : P.complete (after P dynamics mode k s) = true) :
    advance P dynamics mode n s =
      ⟨Overshoot.settle P (after P dynamics mode (k - 1) s) (after P dynamics mode k s), k,
        true⟩ := by
  obtain ⟨j, rfl⟩ : ∃ j, k = j + 1 := ⟨k - 1, by have := h.pos; omega⟩
  obtain ⟨rest, rfl⟩ : ∃ rest, n = j + (rest + 1) := ⟨n - j - 1, by have := h.le; omega⟩
  have hlast : after P dynamics mode (j + 1) s =
      stepped P dynamics mode (after P dynamics mode j s) :=
    Function.iterate_succ_apply' _ _ _
  have hfirst : Incomplete P dynamics mode j s := h.incomplete
  rw [Nat.add_sub_cancel, advance_add, advance_of_incomplete hfirst,
    andThen_of_not_completed rfl, hlast]
  rw [hlast] at hcomplete
  simp [advance, hcomplete]

theorem advance_endsAt (hn : 0 < n) :
    EndsAt P dynamics mode n s (advance P dynamics mode n s).steps := by
  by_cases h : Incomplete P dynamics mode n s
  · rw [advance_of_incomplete h]
    exact ⟨hn, le_rfl, h.mono (Nat.sub_le n 1), fun hlt => absurd hlt (lt_irrefl n)⟩
  · obtain ⟨k, hends, hcomplete⟩ := exists_completing h
    rwa [advance_of_completing hends hcomplete]

end Run

/-! ## Requests -/

/-- A request for some steps is refused only if the end cannot be measured. -/
theorem Simulation.applyMode_whole (P : Problem K S R A) (dynamics : A) (mode : Nat) (hn : 0 < n)
    (s : Solution K S R) : applyMode (some P) dynamics mode (.whole n) s =
      (requireMeasured P [(Run.advance P dynamics mode n s).solution]).map
        fun _ => Run.advance P dynamics mode n s := by
  have hpositive : requirePositive .steps (.whole n : Given K) = .ok () :=
    requirePositive_whole.mpr (Int.natCast_pos.mpr hn)
  show (requirePositive .steps (.whole n : Given K) >>= fun _ => _) = _
  rw [hpositive]
  rfl

/-- **A mode can be simulated in one go or in pieces.**

Let what is not complete be measured. If none of `a` steps completes a candidate, `a + b`
steps of it are what `b` steps are of the candidate that `a` steps lead to. If one does,
asking for `a + b` steps is asking for `a`.

The steps taken are those up to the first that completes the candidate, or all if none does.
As often the mode is appended to the schedule, if a step leaves that to the planner. -/
theorem simulation_in_pieces (P : Problem K S R A) (dynamics : A) (mode : Nat)
    (s : Solution K S R) (ha : 0 < a) (hb : 0 < b)
    (hmeasured : ∀ t, P.complete t = false → P.misfit? t.state = none) :
    (Run.Incomplete P dynamics mode a s → ∃ run,
      Simulation.applyMode (some P) dynamics mode (.whole a) s = .ok run ∧
      Simulation.applyMode (some P) dynamics mode (.whole (a + b : Nat)) s =
        (Simulation.applyMode (some P) dynamics mode (.whole b) run.solution).map
          fun rest => { rest with steps := run.steps + rest.steps }) ∧
    (¬Run.Incomplete P dynamics mode a s →
      Simulation.applyMode (some P) dynamics mode (.whole (a + b : Nat)) s =
        Simulation.applyMode (some P) dynamics mode (.whole a) s) ∧
    ∃ run, Run.EndsAt P dynamics mode a s run.steps ∧
      Simulation.applyMode (some P) dynamics mode (.whole a) s =
        (requireMeasured P [run.solution]).map (fun _ => run) ∧
      ((∀ t, (P.step dynamics t).schedule = t.schedule) →
        run.solution.schedule = (Schedule.append mode)^[run.steps] s.schedule) := by
  have hsum : 0 < a + b := Nat.add_pos_left ha b
  refine ⟨fun h => ?_, fun h => ?_, ?_⟩
  · have hrun := Run.advance_of_incomplete h
    have hend : P.misfit? (Run.after P dynamics mode a s).state = none :=
      hmeasured _ (h a ha le_rfl)
    refine ⟨⟨Run.after P dynamics mode a s, a, false⟩, ?_, ?_⟩
    · rw [Simulation.applyMode_whole P dynamics mode ha, hrun,
        requireMeasured_eq_ok.mpr (by simpa using hend)]
      rfl
    · rw [Simulation.applyMode_whole P dynamics mode hsum,
        Simulation.applyMode_whole P dynamics mode hb, Run.advance_add, hrun,
        Run.andThen_of_not_completed rfl]
      cases requireMeasured P [(Run.advance P dynamics mode b
        (Run.after P dynamics mode a s)).solution] <;> rfl
  · obtain ⟨k, hends, hcomplete⟩ := Run.exists_completing h
    have hlonger : Run.EndsAt P dynamics mode (a + b) s k :=
      { hends with le := Nat.le_add_right_of_le hends.le, complete := fun _ => hcomplete }
    rw [Simulation.applyMode_whole P dynamics mode hsum,
      Simulation.applyMode_whole P dynamics mode ha, Run.advance_of_completing hends hcomplete,
      Run.advance_of_completing hlonger hcomplete]
  · exact ⟨_, Run.advance_endsAt ha, Simulation.applyMode_whole P dynamics mode ha s,
      fun hschedule => Run.advance_schedule hschedule mode a s⟩

namespace Tapping

theorem machine_measured {setup : Setup K} {move : Linear.Drive K → K → State K → State K}
    (t : Candidate K) (h : (machine setup move).complete t = false) :
    (machine setup move).misfit? t.state = none := by
  have hnone : t.state.misfit?.isSome = false := (Bool.or_eq_false_iff.mp h).1
  exact Option.not_isSome_iff_eq_none.mp ((Bool.not_eq_true _).mpr hnone)

/-- A candidate that has not begun, with the marker of a drive. -/
def sampleSeed : Candidate Rat := (discrete sampleSetup).seed 0

/-- A request for some steps of that drive. -/
def sampleRequest (n : Nat) (s : Candidate Rat) :
    Except PlanError (Run Rat (State Rat) (Usage Rat)) :=
  Simulation.applyMode (some (discrete sampleSetup)) (sampleDrive 1) 0 (.whole n) s

/-- The second step is the last one, and the marker is gone. -/
theorem sample_request : ∃ run, sampleRequest 3 sampleSeed = .ok run ∧
    (run.steps, run.solution.schedule) = (2, [⟨0, 2⟩]) := by
  refine Granted.map.mp ?_
  cbv

end Tapping

theorem simulation_in_pieces_sample :
    (∃ first, Tapping.sampleRequest 1 Tapping.sampleSeed = .ok first ∧
      Tapping.sampleRequest 3 Tapping.sampleSeed =
        (Tapping.sampleRequest 2 first.solution).map
          fun rest => { rest with steps := first.steps + rest.steps }) ∧
    ∃ run, Tapping.sampleRequest 2 Tapping.sampleSeed = .ok run ∧
      (run.steps, run.solution.schedule) = (2, [⟨0, 2⟩]) ∧
      Run.EndsAt (Tapping.discrete Tapping.sampleSetup) (Tapping.sampleDrive 1) 0 2
        Tapping.sampleSeed run.steps ∧
      run.solution.schedule = (Schedule.append 0)^[run.steps] Tapping.sampleSeed.schedule := by
  have hopen : Run.Incomplete (Tapping.discrete Tapping.sampleSetup) (Tapping.sampleDrive 1) 0 1
      Tapping.sampleSeed := by
    intro j hpos hj
    obtain rfl : j = 1 := by omega
    decide +kernel
  have hclosed : ¬Run.Incomplete (Tapping.discrete Tapping.sampleSetup) (Tapping.sampleDrive 1) 0 2
      Tapping.sampleSeed := by
    intro h
    have hsecond := h 2 Nat.two_pos le_rfl
    revert hsecond
    decide +kernel
  obtain ⟨run, hrun, hfacts⟩ := Tapping.sample_request
  obtain ⟨hcut, -, -⟩ := simulation_in_pieces (Tapping.discrete Tapping.sampleSetup)
    (Tapping.sampleDrive 1) 0 Tapping.sampleSeed Nat.one_pos Nat.two_pos Tapping.machine_measured
  obtain ⟨-, hlonger, ended, hends, hrequest, hschedule⟩ :=
    simulation_in_pieces (Tapping.discrete Tapping.sampleSetup) (Tapping.sampleDrive 1) 0
      Tapping.sampleSeed Nat.two_pos Nat.one_pos Tapping.machine_measured
  have hgranted : Tapping.sampleRequest 2 Tapping.sampleSeed = .ok run :=
    (hlonger hclosed).symm.trans hrun
  obtain ⟨_, -, rfl⟩ := Granted.map.mp (hrequest.symm.trans hgranted)
  exact ⟨hcut hopen, ended, hgranted, hfacts, hends,
    hschedule ((Tapping.machine_orderly _ _).step_schedule _)⟩

end ModeSchedule
