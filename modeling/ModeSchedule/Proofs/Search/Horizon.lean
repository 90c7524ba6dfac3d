/-
ModeSchedule.Proofs.Search.Horizon — schedules stay canonical and inside the horizon.

`Frontier.LaidOut` is what holds after a number of rounds: the schedules of the
candidates to extend fill exactly the blocks laid so far, and those of accepted
candidates, unless they were accepted before the level, reach into these blocks.
A round passes it on whatever becomes of it (`LaidOut.round`), also where the
stopwatch cuts it short; and because a laid out candidate can always go on, no
round fails (`LaidOut.round_succeeds`).

The number of blocks is that of the horizon, so over exact numbers the steps of
every front fit into the horizon, and in the one-dimensional domain the time
used does (`schedules_within_horizon`).
-/
import ModeSchedule.Proofs.Canonical
import ModeSchedule.Proofs.Search.Replay
import ModeSchedule.Proofs.Simulation.Spending

namespace ModeSchedule

open Schedule

variable {K S R A : Type} [Scalar K]

/-! ## One block -/

/-- A block of steps makes a canonical schedule of one that is ready for it; only
a completed block may be shorter than the others. -/
theorem Run.advance_ready {P : Problem K S R A} (hP : P.Orderly) {modes : List (Mode A)}
    {total stride : Nat} (hstride : 0 < stride) {s : Solution K S R}
    (h : s.schedule.Ready modes.length total) {i : Nat} {m : Mode A} (hm : modes[i]? = some m) :
    (advance P m.dynamics i stride s).solution.schedule.Fits modes.length (total + stride) ∧
      (P.complete (advance P m.dynamics i stride s).solution = false →
        (advance P m.dynamics i stride s).solution.schedule.Ready modes.length
          (total + stride)) := by
  have hi : i < modes.length := (List.getElem?_eq_some_iff.mp hm).1
  have hpos : 0 < (advance P m.dynamics i stride s).steps := advance_steps_pos hm hstride s
  have hle : (advance P m.dynamics i stride s).steps ≤ stride := advance_steps_le hm stride s
  obtain ⟨hcanonical, hready⟩ := h.appendTimes hi hpos
  rw [← advance_schedule (hP.step_schedule _)] at hcanonical hready
  have htotal := hready.total
  refine ⟨⟨hcanonical, hready.inRange, by omega, by omega⟩, fun hcomplete => ?_⟩
  rw [advance_complete hP hm hstride] at hcomplete
  rwa [advance_steps_of_not_completed hm hcomplete] at hready

/-! ## Rounds -/

/-- What `k` rounds of blocks of a stride have laid out that began with the accepted
candidates `earlier`. -/
structure Frontier.LaidOut (w : Workspace K S R A) (earlier : List (Solution K S R))
    (stride k : Nat) (f : Frontier K S R) : Prop where
  ready : ∀ p ∈ f.partials, p.schedule.Ready w.modes.length (k * stride)
  /-- Only the seeds have markers. -/
  extended : 0 < k → ∀ p ∈ f.partials, p.schedule.Canonical ∧ w.problem.complete p = false
  accepted : ∀ s ∈ f.accepted, s ∈ earlier ∨ s.schedule.Fits w.modes.length (k * stride)

variable {w : Workspace K S R A} {algorithm : Algorithm} {earlier : List (Solution K S R)}
  {stride k : Nat} {f : Frontier K S R} {watch : Option (Stopwatch K)} {clock : K}

omit [Scalar K] in
theorem Level.startFrontier_laidOut : (startFrontier w earlier).LaidOut w earlier stride 0 where
  ready := by
    intro p hp
    obtain ⟨i, hi, rfl⟩ := List.mem_map.mp hp
    rw [Nat.zero_mul]
    exact ready_marker (List.mem_range.mp hi)
  extended := fun h => absurd h (Nat.lt_irrefl 0)
  accepted := fun _ hs => Or.inl hs

namespace Frontier.LaidOut

/-- Every candidate laid out may go on, so no round fails. -/
theorem round_succeeds (hf : f.LaidOut w earlier stride k) :
    (Round.perform w algorithm stride watch f clock).failure? = none := by
  have hgoes : ∀ p ∈ f.partials,
      ∃ js, algorithm.switching.candidates w.modes.length p.schedule = .ok js := by
    intro p hp
    obtain ⟨js, hjs, -⟩ := algorithm.switching.exists_candidates (hf.ready p hp).nonempty
      (hf.ready p hp).inRange
    exact ⟨js, hjs⟩
  unfold Round.failure?
  rw [Round.perform_extension]
  split
  · next cause hending => exact absurd hending (Extension.grow_ending_ne_failed hgoes cause)
  · rfl

/-- A child reaches into the block laid last, and fills it unless it is complete. -/
theorem child (hP : w.problem.Orderly) (hstride : 0 < stride) (hf : f.LaidOut w earlier stride k)
    {c : Solution K S R}
    (hc : c ∈ (Round.perform w algorithm stride watch f clock).extension.children) :
    c.schedule.Fits w.modes.length ((k + 1) * stride) ∧
      (w.problem.complete c = false → c.schedule.Ready w.modes.length ((k + 1) * stride)) := by
  rw [Round.perform_extension] at hc
  obtain ⟨p, hp, i, m, hm, rfl⟩ := Extension.exists_parent hc
  rw [Nat.succ_mul]
  exact Run.advance_ready hP hstride (hf.ready p hp) hm

/-- A round lays out one block more. -/
theorem round (hP : w.problem.Orderly) (hstride : 0 < stride) (hf : f.LaidOut w earlier stride k) :
    (Round.perform w algorithm stride watch f clock).after.LaidOut w earlier stride (k + 1) := by
  have hsuccess : (Round.perform w algorithm stride watch f clock).failure? = none :=
    hf.round_succeeds
  rcases Round.perform_cases w algorithm stride watch f clock with
    ⟨_, hfailure, -⟩ | ⟨-, hproceeds⟩
  · rw [hsuccess] at hfailure
    cases hfailure
  constructor
  case ready =>
    intro p hp
    obtain ⟨hchild, hincomplete⟩ := hproceeds.mem_partials hp
    exact (hf.child hP hstride hchild).2 hincomplete
  case extended =>
    intro _ p hp
    obtain ⟨hchild, hincomplete⟩ := hproceeds.mem_partials hp
    exact ⟨(hf.child hP hstride hchild).1.canonical, hincomplete⟩
  case accepted =>
    intro s hs
    rcases hproceeds.mem_accepted hs with hs | ⟨hchild, -⟩
    · have hblocks : k * stride ≤ (k + 1) * stride := Nat.mul_le_mul_right stride (Nat.le_succ k)
      exact (hf.accepted s hs).imp_right fun hfits => hfits.mono hblocks
    · exact Or.inr (hf.child hP hstride hchild).1

end Frontier.LaidOut

/-! ## Levels -/

namespace Level

variable {resolution : Resolution K} {watch : Stopwatch K}

/-- Before each round of a level, the blocks of the rounds before it are laid out. -/
theorem rounds_laidOut (hP : w.problem.Orderly) (hstride : 0 < resolution.stride) {i : Nat}
    {r : Round K S R}
    (hr : (perform w algorithm resolution watch earlier clock).rounds[i]? = some r) :
    r.before.LaidOut w earlier resolution.stride i := by
  rw [← Nat.zero_add i]
  exact runRounds_before (fun k f => f.LaidOut w earlier resolution.stride k)
    (fun _ _ _ hf => hf.round hP hstride) _ startFrontier_laidOut i r hr

/-- After each round of a level, the block of that round is laid out, too. -/
theorem rounds_after (hP : w.problem.Orderly) (hstride : 0 < resolution.stride) {i : Nat}
    {r : Round K S R}
    (hr : (perform w algorithm resolution watch earlier clock).rounds[i]? = some r) :
    r.after.LaidOut w earlier resolution.stride (i + 1) := by
  obtain ⟨-, now, hperform⟩ := mem_runRounds (List.mem_of_getElem? hr)
  have hbefore := rounds_laidOut hP hstride hr
  rw [hperform]
  exact hbefore.round hP hstride

/-- No round of a level fails. -/
theorem round_succeeds (hP : w.problem.Orderly) (hstride : 0 < resolution.stride) :
    ∀ r ∈ (perform w algorithm resolution watch earlier clock).rounds, r.failure? = none := by
  intro r hr
  obtain ⟨i, hi⟩ := List.mem_iff_getElem?.mp hr
  obtain ⟨-, now, hperform⟩ := mem_runRounds hr
  rw [hperform]
  exact (rounds_laidOut hP hstride hi).round_succeeds

/-- No level fails. -/
theorem succeeds (hP : w.problem.Orderly) (hstride : 0 < resolution.stride) :
    (perform w algorithm resolution watch earlier clock).failure? = none := by
  unfold failure?
  cases hlast : (perform w algorithm resolution watch earlier clock).rounds.getLast? with
  | none => rfl
  | some r => exact round_succeeds hP hstride r (List.mem_of_getLast? hlast)

/-- The extensions of a level without a limit are not cut short. -/
theorem rounds_done (hP : w.problem.Orderly) (hstride : 0 < resolution.stride)
    (hwatch : watch.limit = none) :
    ∀ r ∈ (perform w algorithm resolution watch earlier clock).rounds,
      r.extension.ending = .done := by
  intro r hr
  have hexpired := unhurried_of_unlimited hwatch r hr
  have hfailure := round_succeeds hP hstride r hr
  unfold Round.failure? at hfailure
  cases hending : r.extension.ending with
  | done => rfl
  | expired => exact absurd hending hexpired
  | failed cause => simp [hending] at hfailure

/-- What a level accepts that it did not begin with lies within its blocks. -/
theorem final_within (hP : w.problem.Orderly) (hstride : 0 < resolution.stride) :
    ∀ s ∈ (perform w algorithm resolution watch earlier clock).final.accepted, s ∈ earlier ∨
      s.schedule.Fits w.modes.length (resolution.blocks * resolution.stride) := by
  have h : (perform w algorithm resolution watch earlier clock).final.LaidOut w earlier
      resolution.stride (perform w algorithm resolution watch earlier clock).rounds.length := by
    refine perform_invariant (fun k f => f.LaidOut w earlier resolution.stride k)
      startFrontier_laidOut ?_
    intro r _ k now hperform hbefore
    rw [hperform]
    exact hbefore.round hP hstride
  intro s hs
  refine (h.accepted s hs).imp_right fun hfits => hfits.mono (Nat.mul_le_mul_right _ ?_)
  exact length_runRounds_le _ _ _

end Level

/-! ## The horizon -/

/-- Steps that fit into the blocks of a resolution fit into the horizon. -/
theorem Resolution.within_horizon {P : Problem Rat S R A} (hdelta : 0 < P.settings.timeDelta)
    {resolution : Resolution Rat} (hof : ofStride P resolution.stride = .ok resolution)
    {total : Nat} (hpos : 0 < total) (h : total ≤ resolution.blocks * resolution.stride) :
    total * P.settings.timeDelta ≤ P.settings.timeMax := by
  obtain ⟨count, blocks, hcount, hblocks, heq⟩ := ofStride_eq_ok.mp hof
  rw [Scalar.ofInt_rat, Option.some.injEq] at hcount
  rw [P.blocksWithin_rat, Except.ok.injEq] at hblocks
  have hfloor : resolution.blocks =
      ⌊P.settings.timeMax / (P.settings.timeDelta * resolution.stride)⌋₊ := by
    rw [heq, ← hblocks, ← hcount]
    rfl
  have hstride : 0 < resolution.stride := by
    refine Nat.pos_of_ne_zero fun hzero => ?_
    rw [hzero, Nat.mul_zero] at h
    omega
  have hlength : 0 < P.settings.timeDelta * resolution.stride :=
    mul_pos hdelta (by exact_mod_cast hstride)
  have hquotient : 0 ≤ P.settings.timeMax / (P.settings.timeDelta * resolution.stride) := by
    by_contra hneg
    rw [Nat.floor_of_nonpos (not_le.mp hneg).le] at hfloor
    rw [hfloor, Nat.zero_mul] at h
    omega
  have hblocks : (resolution.blocks : Rat) * (P.settings.timeDelta * resolution.stride) ≤
      P.settings.timeMax := by
    rw [← le_div_iff₀ hlength, hfloor]
    exact Nat.floor_le hquotient
  have htotal : (total : Rat) ≤ resolution.blocks * resolution.stride := by exact_mod_cast h
  calc (total : Rat) * P.settings.timeDelta
      ≤ resolution.blocks * resolution.stride * P.settings.timeDelta :=
        mul_le_mul_of_nonneg_right htotal hdelta.le
    _ = resolution.blocks * (P.settings.timeDelta * resolution.stride) := by ring
    _ ≤ P.settings.timeMax := hblocks

namespace Search

/-- The levels of a granted search have the blocks of their strides. -/
theorem ofStride_stage {P : Problem K S R A} {modes : List (Mode A)} {stepCost : K}
    {levels : Given K} {script : Script K} {sweep : Sweep K S R}
    (h : scriptedSweep (some P) modes stepCost algorithm levels script clock = .ok sweep) :
    ∀ stage ∈ sweep.stages,
      0 < stage.level.resolution.stride ∧
        Resolution.ofStride P stage.level.resolution.stride = .ok stage.level.resolution := by
  obtain ⟨_, plan, hplanned, rfl, -, -⟩ := scriptedSweep_eq_ok.mp h
  intro stage hstage
  have hmem : stage.level.resolution ∈ plan :=
    Sweep.runStages_initial.subset (List.mem_map_of_mem hstage)
  obtain ⟨k, -, hof⟩ := Granted.exists_of_mapM hplanned.blocks hmem
  obtain ⟨_, _, -, -, heq⟩ := ofStride_eq_ok.mp hof
  have hstride : stage.level.resolution.stride = k := by rw [heq]
  exact ⟨hplanned.stride_pos _ hmem, by rwa [hstride]⟩

variable {P : Problem Rat S R A} {modes : List (Mode A)} {stepCost clock : Rat}
  {levels : Given Rat} {script : Script Rat} {sweep : Sweep Rat S R}

/-- The steps of what a search accepts fit into the horizon. -/
theorem accepted_within_horizon (hP : P.Orderly) (hdelta : 0 < P.settings.timeDelta)
    (h : scriptedSweep (some P) modes stepCost algorithm levels script clock = .ok sweep) :
    ∀ stage ∈ sweep.stages, ∀ s ∈ stage.level.final.accepted,
      s.schedule.totalSteps * P.settings.timeDelta ≤ P.settings.timeMax := by
  have hblocks := ofStride_stage h
  obtain ⟨plan, hplan, rfl, -, -⟩ := exists_plan_of_sweep h
  refine Sweep.perform_invariant
    (fun accepted => ∀ s ∈ accepted,
      s.schedule.totalSteps * P.settings.timeDelta ≤ P.settings.timeMax) hplan (by simp) ?_
  intro stage hstage before watch now hstride hlevel hbefore s hs
  rw [hlevel] at hs
  rcases Level.final_within (w := ⟨P, modes, stepCost⟩) hP hstride s hs with hearlier | hfits
  · exact hbefore s hearlier
  · exact Resolution.within_horizon hdelta (hblocks stage hstage).2 hfits.pos hfits.within

end Search

/-- The time that a candidate has used is at most that of its steps. -/
theorem Rate.time_le_of_replays {settings : Settings Rat Rat} (hdelta : 0 < settings.timeDelta)
    {modes : List (Mode Rat)} {s : Candidate Rat} (h : Replays (problem settings) modes s) :
    s.resources.time ≤ s.schedule.totalSteps * settings.timeDelta := by
  have hwalk : (Run.walk (problem settings) modes s.schedule.steps
      (problem settings).start).solution = s := by
    rw [← Run.follow_eq_walk h.1]
    exact h.2
  have htime : (Run.walk (problem settings) modes s.schedule.steps
      (problem settings).start).solution.resources.time ≤
        0 + (Run.walk (problem settings) modes s.schedule.steps (problem settings).start).steps *
          settings.timeDelta := walk_time_le hdelta s.schedule.steps (problem settings).start
  have hsteps : (Run.walk (problem settings) modes s.schedule.steps
      (problem settings).start).steps ≤ s.schedule.totalSteps := by
    rw [Schedule.totalSteps_eq_length]
    exact Run.walk_steps_le _ _
  have hcast : ((Run.walk (problem settings) modes s.schedule.steps
      (problem settings).start).steps : Rat) ≤ s.schedule.totalSteps := by exact_mod_cast hsteps
  calc s.resources.time
      ≤ 0 + (Run.walk (problem settings) modes s.schedule.steps (problem settings).start).steps *
          settings.timeDelta := by rwa [hwalk] at htime
    _ ≤ s.schedule.totalSteps * settings.timeDelta := by
        rw [zero_add]
        exact mul_le_mul_of_nonneg_right hcast hdelta.le

/-- **Schedules are canonical and inside the horizon.** After the `r`-th round of any
level, counted from zero, the candidates to extend have canonical schedules of
exactly `r + 1` blocks and are not complete; the accepted ones were accepted at an
earlier level, or have canonical schedules of at least one step and no more than the
blocks of the level hold. All modes are in range. Over exact numbers, the steps of
every candidate of every front therefore fit into the horizon, and in the
one-dimensional domain the time that it has used does, too. -/
theorem schedules_within_horizon :
    (∀ {K S R A : Type} [Scalar K] (P : Problem K S R A) (_ : P.Orderly) (modes : List (Mode A))
      (stepCost : K) (algorithm : Algorithm) (levels : Given K) (script : Script K) (clock : K)
      (sweep : Sweep K S R)
      (_ : Search.scriptedSweep (some P) modes stepCost algorithm levels script clock = .ok sweep),
      ∀ (i : Nat) (stage : Stage K S R), sweep.stages[i]? = some stage →
        Resolution.ofStride P stage.level.resolution.stride = .ok stage.level.resolution ∧
        ∀ (r : Nat) (round : Round K S R), stage.level.rounds[r]? = some round →
          (∀ p ∈ round.after.partials, p.schedule.Canonical ∧ p.schedule.InRange modes.length ∧
            p.schedule.totalSteps = (r + 1) * stage.level.resolution.stride ∧
            P.complete p = false) ∧
          ∀ s ∈ round.after.accepted,
            (∃ j < i, ∃ earlier : Stage K S R, sweep.stages[j]? = some earlier ∧
              s ∈ earlier.level.front.solutions) ∨
            s.schedule.Canonical ∧ s.schedule.InRange modes.length ∧ 1 ≤ s.schedule.totalSteps ∧
              s.schedule.totalSteps ≤
                stage.level.resolution.blocks * stage.level.resolution.stride) ∧
    (∀ {S R A : Type} (P : Problem Rat S R A) (_ : P.Orderly) (_ : 0 < P.settings.timeDelta)
      (modes : List (Mode A)) (stepCost : Rat) (algorithm : Algorithm) (levels : Given Rat)
      (script : Script Rat) (clock : Rat) (sweep : Sweep Rat S R)
      (_ : Search.scriptedSweep (some P) modes stepCost algorithm levels script clock = .ok sweep),
      ∀ front ∈ sweep.outcome, ∀ s ∈ front.solutions,
        s.schedule.totalSteps * P.settings.timeDelta ≤ P.settings.timeMax) ∧
    ∀ (settings : Settings Rat Rat) (_ : 0 < settings.timeDelta) (modes : List (Mode Rat))
      (stepCost : Rat) (algorithm : Algorithm) (levels : Given Rat) (script : Script Rat)
      (clock : Rat) (sweep : Sweep Rat Rat (Usage Rat))
      (_ : Search.scriptedSweep (some (Rate.problem settings)) modes stepCost algorithm levels
        script clock = .ok sweep),
      ∀ front ∈ sweep.outcome, ∀ s ∈ front.solutions, s.resources.time ≤ settings.timeMax := by
  refine ⟨?_, ?_, ?_⟩
  · intro K S R A _ P hP modes stepCost algorithm levels script clock sweep h i stage hstage
    obtain ⟨hstride, hblocks⟩ := Search.ofStride_stage h stage (List.mem_of_getElem? hstage)
    obtain ⟨plan, -, rfl, -, -⟩ := Search.exists_plan_of_sweep h
    obtain ⟨before, watch, now, hlevel, hearlier⟩ := Sweep.exists_before hstage
    refine ⟨hblocks, fun r round hround => ?_⟩
    rw [hlevel] at hround
    have hafter := Level.rounds_after hP hstride hround
    have hr : (r + 1) * stage.level.resolution.stride ≤
        stage.level.resolution.blocks * stage.level.resolution.stride := by
      have hlt : r < _ := (List.getElem?_eq_some_iff.mp hround).1
      exact Nat.mul_le_mul_right _ (hlt.trans_le (Level.length_runRounds_le _ _ _))
    constructor
    · intro p hp
      obtain ⟨hcanonical, hincomplete⟩ := hafter.extended (Nat.succ_pos r) p hp
      exact ⟨hcanonical, (hafter.ready p hp).inRange, (hafter.ready p hp).total, hincomplete⟩
    · intro s hs
      rcases hafter.accepted s hs with hold | hfits
      · exact Or.inl (hearlier s hold)
      · exact Or.inr ⟨hfits.canonical, hfits.inRange, hfits.pos, hfits.within.trans hr⟩
  · intro S R A P hP hdelta modes stepCost algorithm levels script clock sweep h front hfront s hs
    obtain ⟨stage, hstage, -, hsolutions⟩ := Sweep.exists_stage_of_outcome hfront
    rw [hsolutions] at hs
    exact Search.accepted_within_horizon hP hdelta h stage hstage s hs
  · intro settings hdelta modes stepCost algorithm levels script clock sweep h front hfront s hs
    have hlocal := Rate.problem_local settings
    obtain ⟨stage, hstage, -, hsolutions⟩ := Sweep.exists_stage_of_outcome hfront
    rw [hsolutions] at hs
    calc s.resources.time ≤ s.schedule.totalSteps * settings.timeDelta :=
          Rate.time_le_of_replays hdelta (Search.accepted_replay hlocal h stage hstage s hs).1
      _ ≤ settings.timeMax :=
          Search.accepted_within_horizon hlocal.orderly hdelta h stage hstage s hs

theorem schedules_within_horizon_sample : ∃ sweep,
    Search.sweep (some (Rate.problem Rate.sampleSettings)) Rate.sampleModes 0 0 .exhaustive
      (.whole 2) [] 0 = .ok sweep ∧
    (sweep.outcome.map fun front => front.solutions.map Solution.schedule) =
      [[[⟨0, 2⟩]], [[⟨1, 1⟩, ⟨0, 1⟩], [⟨0, 1⟩, ⟨1, 1⟩]]] ∧
    (∀ (i : Nat) (stage : Stage Rat Rat (Usage Rat)), sweep.stages[i]? = some stage →
      ∀ (r : Nat) (round : Round Rat Rat (Usage Rat)), stage.level.rounds[r]? = some round →
        ∀ p ∈ round.after.partials,
          p.schedule.totalSteps = (r + 1) * stage.level.resolution.stride) ∧
    ∀ front ∈ sweep.outcome, ∀ s ∈ front.solutions,
      s.schedule.totalSteps * (1 : Rat) ≤ 2 ∧ s.resources.time ≤ 2 := by
  have hlocal := Rate.problem_local Rate.sampleSettings
  obtain ⟨sweep, hsweep, hfronts⟩ := Rate.sample_sweep
  refine ⟨sweep, hsweep, hfronts, ?_, fun front hfront s hs => ⟨?_, ?_⟩⟩
  · intro i stage hstage r round hround p hp
    have hrounds := (schedules_within_horizon.1 (Rate.problem Rate.sampleSettings) hlocal.orderly
      Rate.sampleModes 0 .exhaustive (.whole 2) (.steady [] 0) 0 sweep hsweep i stage hstage).2
    exact ((hrounds r round hround).1 p hp).2.2.1
  · exact schedules_within_horizon.2.1 (Rate.problem Rate.sampleSettings) hlocal.orderly
      (by decide) Rate.sampleModes 0 .exhaustive (.whole 2) (.steady [] 0) 0 sweep hsweep front
      hfront s hs
  · exact schedules_within_horizon.2.2 Rate.sampleSettings (by decide) Rate.sampleModes 0
      .exhaustive (.whole 2) (.steady [] 0) 0 sweep hsweep front hfront s hs

end ModeSchedule
