/-
ModeSchedule.Proofs.Simulation.Normalization — a replay depends on the steps of a schedule alone.

A schedule may be written in many ways: with markers between its entries, and with one run of a
mode cut into several. A replay walks its steps, so the way it is written does not matter, and
what the replay notes is the shortest way to write the steps it has taken
(`walk_schedule_canonical`). Those are a prefix of the steps of the given schedule, and cut short
only where the candidate is complete. To replay what was noted is to take the same steps again
(`follow_noted`).

A mode that is out of range is refused before any step is taken (`checkModes_unknown`), so it does
not matter where it stands. `replay_normalizes` is the statement for requests.
-/
import ModeSchedule.Proofs.Canonical
import ModeSchedule.Proofs.Requests
import ModeSchedule.Proofs.Search.Replay

namespace ModeSchedule

variable {K S R A : Type} [Scalar K] {P : Problem K S R A} {modes : List (Mode A)}

namespace Run

/-! ## What a replay notes -/

theorem walk_schedule_canonical (hP : P.Orderly) (word : List Nat) {s : Solution K S R}
    (h : s.schedule.Canonical) : (walk P modes word s).solution.schedule.Canonical := by
  induction word generalizing s with
  | nil => exact h
  | cons i word ih =>
    cases hm : modes[i]? with
    | none => simpa [walk, hm] using h
    | some m =>
      have hsingle : (single P m.dynamics i s).solution.schedule.Canonical := by
        rw [single_schedule (hP.step_schedule _)]
        exact Schedule.canonical_append i h
      rw [walk_cons hm]
      cases hc : (single P m.dynamics i s).completed with
      | true => rwa [andThen_of_completed hc]
      | false =>
        rw [andThen_of_not_completed hc]
        exact ih hsingle

variable {q : Schedule}

/-- What a replay notes is canonical, whatever was replayed. -/
theorem follow_canonical (hP : P.Orderly) (hq : q.InRange modes.length) :
    (follow P modes q P.start).solution.schedule.Canonical := by
  rw [follow_eq_walk hq]
  exact walk_schedule_canonical hP q.steps ⟨by simp [Problem.start], trivial⟩

/-- A replay notes the steps that it takes. -/
theorem follow_steps (hP : P.Orderly) (hq : q.InRange modes.length) :
    (follow P modes q P.start).solution.schedule.steps =
      q.steps.take (follow P modes q P.start).steps := by
  rw [follow_eq_walk hq, walk_schedule_steps hP]
  rfl

/-- A replay that does not take all steps ends with a complete candidate. -/
theorem follow_complete (hP : P.Orderly) (hq : q.InRange modes.length)
    (h : (follow P modes q P.start).solution.schedule.steps ≠ q.steps) :
    P.complete (follow P modes q P.start).solution = true := by
  have hrange := Schedule.steps_inRange hq
  rw [follow_steps hP hq] at h
  rw [follow_eq_walk hq] at h ⊢
  cases hc : (walk P modes q.steps P.start).completed with
  | true =>
    have hne : q.steps ≠ [] := fun hnone => h (by rw [hnone, List.take_nil])
    rw [walk_complete hP hne hrange, hc]
  | false =>
    rw [walk_steps_of_not_completed hrange hc, List.take_length] at h
    exact absurd rfl h

theorem follow_inRange (hP : P.Orderly) (hq : q.InRange modes.length) :
    (follow P modes q P.start).solution.schedule.InRange modes.length := by
  rw [follow_eq_walk hq]
  exact walk_schedule_inRange hP q.steps (Schedule.inRange_nil _)

/-- To follow what a replay has noted is to take the same steps again. -/
theorem follow_noted (hP : P.Orderly) (hq : q.InRange modes.length) :
    follow P modes (follow P modes q P.start).solution.schedule P.start =
      follow P modes q P.start := by
  rw [follow_eq_walk (follow_inRange hP hq), follow_steps hP hq, follow_eq_walk hq,
    walk_take_steps (Schedule.steps_inRange hq)]

/-! ## Modes out of range -/

/-- The first mode that is out of range is refused. -/
theorem checkModes_unknown {early late : Schedule} {e : Entry}
    (hearly : early.InRange modes.length) (he : modes.length ≤ e.mode) :
    checkModes modes (early ++ e :: late) = .error (.unknownMode e.mode modes.length) := by
  have hnone : early.find? (fun e => decide (modes.length ≤ e.mode)) = none :=
    List.find?_eq_none.mpr fun f hf => by simpa using hearly f hf
  have hfind : (early ++ e :: late).find? (fun e => decide (modes.length ≤ e.mode)) = some e := by
    rw [List.find?_append, hnone, Option.none_or, List.find?_cons_of_pos (by simpa using he)]
  simp only [checkModes, hfind]

end Run

/-! ## Requests -/

namespace Simulation

variable {q : Schedule}

/-- A request for a replay in range is refused only if its end cannot be measured. -/
theorem replay_eq (hq : q.InRange modes.length) :
    replay (some P) modes q = (requireMeasured P [(Run.follow P modes q P.start).solution]).map
      fun _ => Run.follow P modes q P.start := by
  have hrun : Run.replay P modes q = .ok (Run.follow P modes q P.start) :=
    Run.replay_eq_ok.mpr ⟨hq, rfl⟩
  show (Run.replay P modes q >>= fun _ => _) = _
  rw [hrun]
  rfl

/-- A schedule with a mode out of range has a first one, and it is refused for that one. -/
theorem replay_unknown {e : Entry} (he : e ∈ q) (hmode : modes.length ≤ e.mode) :
    ∃ (early late : Schedule) (first : Entry), q = early ++ first :: late ∧
      early.InRange modes.length ∧ modes.length ≤ first.mode ∧
      replay (some P) modes q = .error (.unknownMode first.mode modes.length) := by
  have hsome : (q.find? fun e => decide (modes.length ≤ e.mode)).isSome = true :=
    List.find?_isSome.mpr ⟨e, he, by simpa using hmode⟩
  obtain ⟨first, hfirst⟩ := Option.isSome_iff_exists.mp hsome
  obtain ⟨hunknown, early, late, rfl, hearly⟩ := List.find?_eq_some_iff_append.mp hfirst
  have hrange : Schedule.InRange modes.length early := fun f hf => by simpa using hearly f hf
  have hmode : modes.length ≤ first.mode := by simpa using hunknown
  refine ⟨early, late, first, rfl, hrange, hmode, ?_⟩
  show (Run.checkModes modes (early ++ first :: late) >>= fun _ => _) >>= (fun _ => _) = _
  rw [Run.checkModes_unknown hrange hmode]
  rfl

end Simulation

/-- **A replay depends on the steps alone, and writes them in the shortest way.** Let completion
depend on state and resources only, and let a step leave the schedule to the planner.

* Two schedules in range with the same steps have the same replay, however they are written.
* The replay of a schedule in range is refused only if its end cannot be measured. The candidate it
  ends with has a canonical schedule, whose steps are a prefix of the given ones, and all of them
  unless that candidate is complete. The replay of that schedule is the replay of the given one.
* A schedule with a mode out of range, wherever it stands, is refused for the first such mode. -/
theorem replay_normalizes (P : Problem K S R A) (hP : P.Orderly) (modes : List (Mode A)) :
    (∀ p q : Schedule, p.InRange modes.length → q.InRange modes.length → p.steps = q.steps →
      Simulation.replay (some P) modes p = Simulation.replay (some P) modes q) ∧
    (∀ p : Schedule, p.InRange modes.length → ∃ run,
      Simulation.replay (some P) modes p =
        (requireMeasured P [run.solution]).map (fun _ => run) ∧
      run.solution.schedule.Canonical ∧ run.solution.schedule.steps <+: p.steps ∧
      (run.solution.schedule.steps ≠ p.steps → P.complete run.solution = true) ∧
      Simulation.replay (some P) modes run.solution.schedule =
        Simulation.replay (some P) modes p) ∧
    ∀ p : Schedule, ∀ e ∈ p, modes.length ≤ e.mode → ∃ (early late : Schedule) (first : Entry),
      p = early ++ first :: late ∧ early.InRange modes.length ∧ modes.length ≤ first.mode ∧
      Simulation.replay (some P) modes p = .error (.unknownMode first.mode modes.length) ∧
      (PlanError.unknownMode first.mode modes.length).kind = .precondition := by
  refine ⟨fun p q hp hq hsteps => ?_, fun p hp => ?_, fun p e he hmode => ?_⟩
  · rw [Simulation.replay_eq hp, Simulation.replay_eq hq, Run.follow_eq_walk hp,
      Run.follow_eq_walk hq, hsteps]
  · refine ⟨Run.follow P modes p P.start, Simulation.replay_eq hp, Run.follow_canonical hP hp, ?_,
      Run.follow_complete hP hp, ?_⟩
    · rw [Run.follow_steps hP hp]
      exact List.take_prefix _ _
    · rw [Simulation.replay_eq (Run.follow_inRange hP hp), Run.follow_noted hP hp,
        Simulation.replay_eq hp]
  · obtain ⟨early, late, first, hsplit, hearly, hfirst, hrefused⟩ :=
      Simulation.replay_unknown (P := P) he hmode
    exact ⟨early, late, first, hsplit, hearly, hfirst, hrefused, rfl⟩

/-- Two steps of half a unit, cut apart by a marker, and three of a unit. -/
def Rate.looseSchedule : Schedule := [⟨1, 1⟩, ⟨0, 0⟩, ⟨1, 1⟩, ⟨0, 3⟩]

/-- The first step of a unit completes the candidate. -/
theorem Rate.loose_replay : ∃ run, Simulation.replay (some (Rate.problem Rate.sampleSettings))
      Rate.sampleModes Rate.looseSchedule = .ok run ∧ run.solution.schedule = [⟨1, 2⟩, ⟨0, 1⟩] := by
  refine Granted.map.mp ?_
  cbv

/-- The schedule is noted without the marker, in two entries, and replays the same from them. A
third mode behind the completing step is refused. -/
theorem replay_normalizes_sample :
    Simulation.replay (some (Rate.problem Rate.sampleSettings)) Rate.sampleModes
        Rate.looseSchedule =
      Simulation.replay (some (Rate.problem Rate.sampleSettings)) Rate.sampleModes
        [⟨1, 2⟩, ⟨0, 3⟩] ∧
    (∃ run, Simulation.replay (some (Rate.problem Rate.sampleSettings)) Rate.sampleModes
        Rate.looseSchedule = .ok run ∧
      run.solution.schedule = [⟨1, 2⟩, ⟨0, 1⟩] ∧
      (Rate.problem Rate.sampleSettings).complete run.solution = true ∧
      Simulation.replay (some (Rate.problem Rate.sampleSettings)) Rate.sampleModes
        [⟨1, 2⟩, ⟨0, 1⟩] = .ok run) ∧
    Simulation.replay (some (Rate.problem Rate.sampleSettings)) Rate.sampleModes
      [⟨0, 3⟩, ⟨2, 0⟩] = .error (.unknownMode 2 2) := by
  obtain ⟨hsame, hnoted, hunknown⟩ := replay_normalizes (Rate.problem Rate.sampleSettings)
    (Rate.problem_local _).orderly Rate.sampleModes
  have hrange : Rate.looseSchedule.InRange Rate.sampleModes.length := by
    simp [Rate.looseSchedule, Schedule.InRange, Rate.sampleModes]
  have hshort : Schedule.InRange Rate.sampleModes.length [⟨1, 2⟩, ⟨0, 3⟩] := by
    simp [Schedule.InRange, Rate.sampleModes]
  refine ⟨hsame _ _ hrange hshort (by decide), ?_, ?_⟩
  · obtain ⟨run, hrun, hschedule⟩ := Rate.loose_replay
    obtain ⟨noted, hequal, -, -, hcut, hagain⟩ := hnoted Rate.looseSchedule hrange
    obtain ⟨_, -, rfl⟩ := Granted.map.mp (hequal.symm.trans hrun)
    rw [hschedule, hrun] at hagain
    refine ⟨noted, hrun, hschedule, hcut ?_, hagain⟩
    rw [hschedule]
    decide
  · obtain ⟨early, late, first, hsplit, hearly, hfirst, hrefused, -⟩ :=
      hunknown [⟨0, 3⟩, ⟨2, 0⟩] ⟨2, 0⟩ (by simp) (by simp [Rate.sampleModes])
    have hmember : first ∈ ([⟨0, 3⟩, ⟨2, 0⟩] : Schedule) := by rw [hsplit]; simp
    simp only [List.mem_cons, List.not_mem_nil, or_false] at hmember
    rcases hmember with rfl | rfl
    · simp [Rate.sampleModes] at hfirst
    · exact hrefused

end ModeSchedule
