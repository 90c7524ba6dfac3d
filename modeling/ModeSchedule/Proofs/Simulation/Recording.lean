/-
ModeSchedule.Proofs.Simulation.Recording — the record of a mode and its replay.

A record of a mode keeps every candidate on the way, with the overshoot uncorrected and no step
noted in a schedule; it asks whether a candidate is complete before it goes on. A replay keeps the
end only, notes each step, and asks after it. A local domain does not look at schedules, so both
come by the same candidates (`after_eq`).

Both are over after the same number of steps, that is `EndsAt`: the record goes on as long as
candidates are incomplete (`trajectory_add`), and so it has one candidate for each step of the
replay (`exists_record`). `record_agrees_with_replay` is the statement for requests.
-/
import ModeSchedule.Proofs.Simulation.Normalization
import ModeSchedule.Proofs.Simulation.Pieces

namespace ModeSchedule

variable {K S R A : Type} {P : Problem K S R A} {dynamics : A} {mode k n : Nat}
  {s : Solution K S R}

theorem Schedule.totalSteps_appendTimes (mode n : Nat) (q : Schedule) :
    ((append mode)^[n] q).totalSteps = q.totalSteps + n := by
  induction n with
  | zero => rfl
  | succ n ih => rw [Function.iterate_succ_apply', totalSteps_append, ih, Nat.add_assoc]

namespace Run

/-! ## Steps that are not noted -/

/-- The candidate after a number of steps that are not noted in its schedule. -/
def recorded (P : Problem K S R A) (dynamics : A) (n : Nat) (s : Solution K S R) :
    Solution K S R :=
  (P.step dynamics)^[n] s

theorem recorded_succ (P : Problem K S R A) (dynamics : A) (n : Nat) (s : Solution K S R) :
    recorded P dynamics (n + 1) s = P.step dynamics (recorded P dynamics n s) :=
  Function.iterate_succ_apply' _ _ _

/-- Steps lead to the same candidate whether or not they are noted, but for its schedule. -/
theorem after_eq (hP : P.Local) (mode n : Nat) (s : Solution K S R) :
    after P dynamics mode n s =
      (recorded P dynamics n s).withSchedule ((Schedule.append mode)^[n] s.schedule) := by
  induction n with
  | zero => rfl
  | succ n ih =>
    have hlast : after P dynamics mode (n + 1) s =
        stepped P dynamics mode (after P dynamics mode n s) := Function.iterate_succ_apply' _ _ _
    rw [hlast, ih, recorded_succ, Function.iterate_succ_apply']
    simp only [stepped, hP.step_withSchedule]
    rfl

theorem complete_after (hP : P.Local) (mode n : Nat) (s : Solution K S R) :
    P.complete (after P dynamics mode n s) = P.complete (recorded P dynamics n s) := by
  rw [after_eq hP, hP.complete_withSchedule]

/-! ## Records -/

theorem trajectory_of_complete (h : P.complete s = true) : trajectory P dynamics n s = [] := by
  cases n <;> simp [trajectory, h]

/-- A record goes on as long as candidates are incomplete. -/
theorem trajectory_add (h : ∀ j < k, P.complete (recorded P dynamics j s) = false) (n : Nat) :
    trajectory P dynamics (k + n) s =
      ((List.range k).map fun j => recorded P dynamics (j + 1) s) ++
        trajectory P dynamics n (recorded P dynamics k s) := by
  induction k generalizing s with
  | zero => rw [Nat.zero_add, List.range_zero, List.map_nil, List.nil_append]; rfl
  | succ k ih =>
    have hfirst : P.complete s = false := h 0 (Nat.succ_pos k)
    have hrest := ih (s := P.step dynamics s) fun j hj => h (j + 1) (Nat.succ_lt_succ hj)
    rw [Nat.succ_add, List.range_succ_eq_map, List.map_cons, List.map_map]
    simp only [trajectory, hfirst, Bool.false_eq_true, if_false, hrest]
    rfl

/-- A record that begins with an incomplete candidate has one candidate for each step of a run: all
but the last are incomplete, and the last but one, or else the start, is where the last step
begins. -/
theorem exists_record (hP : P.Local) (hs : P.complete s = false)
    (hends : EndsAt P dynamics mode n s k) :
    ∃ early, trajectory P dynamics n s = early ++ [recorded P dynamics k s] ∧
      early.length + 1 = k ∧ (∀ t ∈ early, P.complete t = false) ∧
      early.getLast?.getD s = recorded P dynamics (k - 1) s := by
  have hincomplete : ∀ j < k, P.complete (recorded P dynamics j s) = false := by
    intro j hj
    cases j with
    | zero => exact hs
    | succ j =>
      rw [← complete_after hP mode]
      exact hends.incomplete (j + 1) (Nat.succ_pos j) (Nat.le_sub_one_of_lt hj)
  obtain ⟨rest, rfl⟩ := Nat.exists_eq_add_of_le hends.le
  have hrest : trajectory P dynamics rest (recorded P dynamics k s) = [] := by
    cases rest with
    | zero => rfl
    | succ rest =>
      refine trajectory_of_complete ?_
      rw [← complete_after hP mode]
      exact hends.complete (Nat.lt_add_of_pos_right (Nat.succ_pos rest))
  obtain ⟨j, rfl⟩ : ∃ j, k = j + 1 := ⟨k - 1, by have := hends.pos; omega⟩
  refine ⟨(List.range j).map fun j => recorded P dynamics (j + 1) s, ?_, by simp, ?_, ?_⟩
  · rw [trajectory_add hincomplete, hrest, List.append_nil, List.range_succ, List.map_append]
    rfl
  · intro t ht
    obtain ⟨l, hl, rfl⟩ := List.mem_map.mp ht
    exact hincomplete (l + 1) (Nat.succ_lt_succ (List.mem_range.mp hl))
  · cases j with
    | zero => rfl
    | succ j => simp [List.range_succ]

end Run

variable [Scalar K] {modes : List (Mode A)} {i N : Nat} {m : Mode A}

/-! ## One mode on its own -/

/-- A schedule of a single entry is followed by a run of its mode. -/
theorem Run.follow_single (hm : modes[i]? = some m) (N : Nat) (s : Solution K S R) :
    follow P modes [⟨i, N⟩] s = advance P m.dynamics i N s := by
  rw [follow_cons hm]
  exact andThen_stay _

/-- A request for a record is refused only if a candidate on the way cannot be measured. -/
theorem Simulation.trajectory_whole (P : Problem K S R A) (dynamics : A) (hn : 0 < n) :
    trajectory (some P) dynamics (.whole n) =
      (requireMeasured P (Run.trajectory P dynamics n P.start)).map
        fun _ => Run.trajectory P dynamics n P.start := by
  have hpositive : requirePositive .steps (.whole n : Given K) = .ok () :=
    requirePositive_whole.mpr (Int.natCast_pos.mpr hn)
  show (requirePositive .steps (.whole n : Given K) >>= fun _ => _) = _
  rw [hpositive]
  rfl

/-- **A record and a replay agree.** Let the domain be local and the initial candidate incomplete,
and take one mode for a positive number of steps. A request for its record, and one for its replay,
are refused only if what they answer cannot be measured.

The record is not empty. It has as many candidates as the schedule of the replayed one has steps,
and all but the last are incomplete. The last is complete exactly if a step of the replay completes
its candidate. In that case the replay ends, schedule aside, with the correction of the last step
recorded: from the candidate before, or from the initial one if there is only one. Otherwise the
record has all steps, and its last candidate is the end of the replay, schedule aside. -/
theorem record_agrees_with_replay (P : Problem K S R A) (hP : P.Local)
    (hstart : P.complete P.start = false) (modes : List (Mode A)) (hm : modes[i]? = some m)
    (hN : 0 < N) :
    ∃ (early : List (Solution K S R)) (last : Solution K S R) (run : Run K S R),
      Simulation.trajectory (some P) m.dynamics (.whole N) =
        (requireMeasured P (early ++ [last])).map (fun _ => early ++ [last]) ∧
      Simulation.replay (some P) modes [⟨i, N⟩] =
        (requireMeasured P [run.solution]).map (fun _ => run) ∧
      (early ++ [last]).length = run.solution.schedule.totalSteps ∧
      (∀ s ∈ early, P.complete s = false) ∧
      (P.complete last = true ↔ run.completed = true) ∧
      (run.completed = true ↔ ¬Run.Incomplete P m.dynamics i N P.start) ∧
      (run.completed = true → run.solution =
        { Overshoot.settle P (early.getLast?.getD P.start) last with
          schedule := run.solution.schedule }) ∧
      (run.completed = false → (early ++ [last]).length = N ∧
        run.solution = { last with schedule := run.solution.schedule }) := by
  have hrange : Schedule.InRange modes.length [⟨i, N⟩] := by
    simpa [Schedule.InRange] using (List.getElem?_eq_some_iff.mp hm).1
  have htrace := Simulation.trajectory_whole P m.dynamics hN
  have hreplay := Simulation.replay_eq (P := P) hrange
  rw [Run.follow_single hm] at hreplay
  by_cases h : Run.Incomplete P m.dynamics i N P.start
  · -- All steps are taken, and the record has them all.
    have hends : Run.EndsAt P m.dynamics i N P.start N :=
      ⟨hN, le_rfl, h.mono (Nat.sub_le N 1), fun hlt => absurd hlt (lt_irrefl N)⟩
    obtain ⟨early, hrecord, hlength, hearly, -⟩ := Run.exists_record hP hstart hends
    rw [hrecord] at htrace
    rw [Run.advance_of_incomplete h, Run.after_eq hP] at hreplay
    have hlast := h N hN le_rfl
    rw [Run.complete_after hP] at hlast
    refine ⟨early, _, _, htrace, hreplay, ?_, hearly, ?_, ?_, ?_, ?_⟩
    · simp [Solution.withSchedule, Schedule.totalSteps_appendTimes, Problem.start,
        Schedule.totalSteps, hlength]
    · simp [hlast]
    · simp [h]
    · simp
    · exact fun _ => ⟨by simp [hlength], rfl⟩
  · -- Both stop at the first step that completes the candidate.
    obtain ⟨k, hends, hcomplete⟩ := Run.exists_completing h
    obtain ⟨early, hrecord, hlength, hearly, hprevious⟩ := Run.exists_record hP hstart hends
    rw [hrecord] at htrace
    rw [Run.advance_of_completing hends hcomplete, Run.after_eq hP, Run.after_eq hP,
      Overshoot.settle_withSchedule hP] at hreplay
    rw [Run.complete_after hP] at hcomplete
    refine ⟨early, _, _, htrace, hreplay, ?_, hearly, ?_, ?_, ?_, ?_⟩
    · simp [Solution.withSchedule, Schedule.totalSteps_appendTimes, Problem.start,
        Schedule.totalSteps, hlength]
    · simp [hcomplete]
    · simp [h]
    · intro _
      rw [hprevious]
      rfl
    · simp

/-- Five steps of half a unit are asked for, and the third one goes past the target. -/
theorem Rate.sample_record :
    (∃ trace, Simulation.trajectory (some (Rate.problem Rate.sampleSettings)) (1 / 2) (.whole 5) =
        .ok trace ∧ trace.map Solution.state = [1 / 2, 1, 3 / 2]) ∧
    ∃ run, Simulation.replay (some (Rate.problem Rate.sampleSettings)) Rate.sampleModes [⟨1, 5⟩] =
        .ok run ∧ (run.completed, run.solution.schedule) = (true, [⟨1, 3⟩]) := by
  refine ⟨Granted.map.mp ?_, Granted.map.mp ?_⟩ <;> cbv

theorem record_agrees_with_replay_sample :
    (Rate.problem Rate.sampleSettings).complete (Rate.problem Rate.sampleSettings).start = false ∧
    ∃ early last run,
      Simulation.trajectory (some (Rate.problem Rate.sampleSettings)) (1 / 2) (.whole 5) =
        .ok (early ++ [last]) ∧
      (early ++ [last]).map Solution.state = [1 / 2, 1, 3 / 2] ∧
      Simulation.replay (some (Rate.problem Rate.sampleSettings)) Rate.sampleModes [⟨1, 5⟩] =
        .ok run ∧
      run.solution.schedule = [⟨1, 3⟩] ∧
      (Rate.problem Rate.sampleSettings).complete last = true ∧
      run.solution = { Overshoot.settle (Rate.problem Rate.sampleSettings)
        (early.getLast?.getD (Rate.problem Rate.sampleSettings).start) last with
          schedule := [⟨1, 3⟩] } := by
  have hstart : (Rate.problem Rate.sampleSettings).complete
      (Rate.problem Rate.sampleSettings).start = false := by decide +kernel
  have hmeasured : ∀ xs, requireMeasured (Rate.problem Rate.sampleSettings) xs = .ok () :=
    fun _ => requireMeasured_eq_ok.mpr fun _ _ => rfl
  obtain ⟨early, last, run, htrace, hreplay, -, -, hlast, -, hsettled, -⟩ :=
    record_agrees_with_replay (Rate.problem Rate.sampleSettings) (Rate.problem_local _) hstart
      Rate.sampleModes (i := 1) (m := ⟨1, 1 / 2⟩) rfl (N := 5) (by decide)
  rw [hmeasured] at htrace hreplay
  obtain ⟨⟨trace, hrecorded, hstates⟩, run', hrun, hseen⟩ := Rate.sample_record
  obtain rfl := Except.ok.inj (htrace.symm.trans hrecorded)
  obtain rfl := Except.ok.inj (hreplay.symm.trans hrun)
  obtain ⟨hcompleted, hschedule⟩ := Prod.mk.inj hseen
  have hend := hsettled hcompleted
  rw [hschedule] at hend
  exact ⟨hstart, early, last, run, hrecorded, hstates, hrun, hschedule, hlast.mpr hcompleted, hend⟩

end ModeSchedule
