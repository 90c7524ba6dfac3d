/-
ModeSchedule.Proofs.Search.SingleMachine — without switching, a search replays.

A search for a single machine runs all modes side by side, one step a round, and
drops some of them on the way. `Run.solo` is one mode run on its own from its
seed. `Alone` says what a number of rounds have left of them: a candidate that
waits is where its mode is on its own, an accepted one is where its mode ended,
and every mode is covered by what is accepted or waits.

Usage only grows along a run, so a mode that is covered is covered at its end as
well, and the level ends with a front of ends that covers all of them. Such a
front has exactly the minimal usages (`pairs_minimal`). `single_machine_replays`
is the statement for a request.
-/
import ModeSchedule.Proofs.Search.Horizon
import ModeSchedule.Proofs.Search.Refinement

namespace ModeSchedule

/-! ## One mode on its own -/

namespace Run

section

variable {K S R A : Type} [Scalar K]

/-- A mode run on its own from its seed, for a number of steps. -/
def solo (P : Problem K S R A) (modes : List (Mode A)) (i k : Nat) : Run K S R :=
  walk P modes (List.replicate k i) (P.seed i)

variable {P : Problem K S R A} {modes : List (Mode A)} {i k l : Nat}

theorem replicate_inRange (hi : i < modes.length) : ∀ j ∈ List.replicate k i, j < modes.length := by
  intro j hj
  rwa [List.eq_of_mem_replicate hj]

/-- More steps go on from where fewer have led. -/
theorem solo_add (hi : i < modes.length) (k l : Nat) :
    solo P modes i (k + l) =
      (solo P modes i k).andThen (walk P modes (List.replicate l i)) := by
  unfold solo
  rw [List.replicate_add, walk_append (replicate_inRange hi)]

/-- A mode that has completed its candidate stays where it is. -/
theorem solo_of_completed (hi : i < modes.length) (hkl : k ≤ l)
    (h : (solo P modes i k).completed = true) : solo P modes i l = solo P modes i k := by
  obtain ⟨d, rfl⟩ := Nat.exists_eq_add_of_le hkl
  rw [solo_add hi, andThen_of_completed h]

/-- The next step of a mode that has not completed its candidate is a block of one. -/
theorem solo_succ {m : Mode A} (hm : modes[i]? = some m)
    (h : (solo P modes i k).completed = false) :
    (solo P modes i (k + 1)).solution =
      (advance P m.dynamics i 1 (solo P modes i k).solution).solution := by
  have hi : i < modes.length := (List.getElem?_eq_some_iff.mp hm).1
  rw [solo_add hi, andThen_of_not_completed h, advance_eq_walk hm]

theorem solo_complete (hP : P.Orderly) (hi : i < modes.length) (hk : 0 < k) :
    P.complete (solo P modes i k).solution = (solo P modes i k).completed := by
  have hne : List.replicate k i ≠ [] := by simp [Nat.pos_iff_ne_zero.mp hk]
  exact walk_complete hP hne (replicate_inRange hi) _

/-- The mode that is running is the one of the seed. -/
theorem solo_active (hP : P.Orderly) (hi : i < modes.length) (k : Nat) :
    (solo P modes i k).solution.schedule.active? = some i := by
  obtain ⟨m, hm⟩ := exists_mode hi
  unfold solo
  rw [← advance_eq_walk hm, advance_schedule (hP.step_schedule _)]
  generalize (advance P m.dynamics i k (P.seed i)).steps = n
  cases n with
  | zero => rfl
  | succ n => rw [Function.iterate_succ_apply', Schedule.active?_append]

/-- Without switching, the mode of the seed is the only one to go on with. -/
theorem solo_candidates (hP : P.Orderly) (hi : i < modes.length) (k : Nat) :
    Switching.none.candidates modes.length (solo P modes i k).solution.schedule = .ok [i] := by
  simp [Switching.candidates, solo_active hP hi, hi]

/-- A schedule of a single entry replays as its mode does on its own. -/
theorem follow_entry (hP : P.Local) (hi : i < modes.length) (hk : 0 < k) :
    follow P modes [⟨i, k⟩] P.start = solo P modes i k := by
  have hne : List.replicate k i ≠ [] := by simp [Nat.pos_iff_ne_zero.mp hk]
  have hrange : Schedule.InRange modes.length [⟨i, k⟩] := by simpa [Schedule.InRange] using hi
  rw [follow_eq_walk hrange, Schedule.steps_cons, Schedule.steps_nil, List.append_nil]
  exact (walk_seed hP hne i (replicate_inRange hi)).symm

end

/-- The candidates that a list of runs has completed. -/
def finished {K S R A : Type} (P : Problem K S R A) (runs : List (Run K S R)) :
    List (Solution K S R) :=
  (runs.map Run.solution).filter P.complete

/-- The complete ends of modes that are run on their own. -/
theorem mem_finished_solo {K S R A : Type} [Scalar K] {P : Problem K S R A} (hP : P.Orderly)
    {modes : List (Mode A)} {k : Nat} (hk : 0 < k) {s : Solution K S R} :
    s ∈ finished P ((List.range modes.length).map fun i => solo P modes i k) ↔
      ∃ i < modes.length, (solo P modes i k).completed = true ∧
        (solo P modes i k).solution = s := by
  simp only [finished, List.mem_filter, List.mem_map, List.mem_range, exists_exists_and_eq_and]
  constructor
  · rintro ⟨⟨i, hi, rfl⟩, hcomplete⟩
    exact ⟨i, hi, by rwa [solo_complete hP hi hk] at hcomplete, rfl⟩
  · rintro ⟨i, hi, hcompleted, rfl⟩
    exact ⟨⟨i, hi, rfl⟩, by rwa [solo_complete hP hi hk]⟩

end Run

/-! ## Minimal usages -/

/-- The usages of a list of candidates, as pairs in componentwise order. -/
def pairs {K S : Type} (xs : List (Solution K S (Usage K))) : Set (K × K) :=
  {p | ∃ s ∈ xs, (s.resources.energy, s.resources.time) = p}

namespace Rate

variable {settings : Settings Rat Rat} {modes : List (Mode Rat)} {stepCost : Rat} {k : Nat}
  {f : Frontier Rat Rat (Usage Rat)}

/-- A front that comes from a list and covers it has the minimal usages of the list. -/
theorem pairs_minimal {xs ys : List (Candidate Rat)} (hfront : IsFront (problem settings) xs)
    (hreplays : ∀ s ∈ xs, Replays (problem settings) modes s) (hsub : xs ⊆ ys)
    (hcovers : ∀ s ∈ ys, Covered xs s.resources) :
    pairs xs = {p | Minimal (· ∈ pairs ys) p} := by
  ext p
  constructor
  · rintro ⟨s, hs, rfl⟩
    refine ⟨⟨s, hsub hs, rfl⟩, ?_⟩
    rintro _ ⟨t, ht, rfl⟩ hts
    obtain ⟨a, ha, hat⟩ := hcovers t ht
    have hwithin : Usage.within t.resources s.resources = true :=
      Usage.within_rat.mpr (Prod.mk_le_mk.mp hts)
    -- The candidate below both of them uses what the first one does.
    have hsame := eq_of_within_isFront hfront hreplays ha hs (Usage.within_trans hat hwithin)
    rw [hsame] at hat
    exact Prod.mk_le_mk.mpr (Usage.within_rat.mp hat)
  · rintro ⟨⟨s, hs, rfl⟩, hleast⟩
    obtain ⟨a, ha, has⟩ := hcovers s hs
    have hle := Prod.mk_le_mk.mpr (Usage.within_rat.mp has)
    exact ⟨a, ha, le_antisymm hle (hleast ⟨a, hsub ha, rfl⟩ hle)⟩

/-! ## Rounds -/

/-- What `k` rounds of single steps leave of the modes, each run on its own. -/
structure Alone (settings : Settings Rat Rat) (modes : List (Mode Rat)) (k : Nat)
    (f : Frontier Rat Rat (Usage Rat)) : Prop where
  pending : ∀ p ∈ f.partials, ∃ i < modes.length,
    (Run.solo (problem settings) modes i k).completed = false ∧
      (Run.solo (problem settings) modes i k).solution = p
  finished : ∀ s ∈ f.accepted, ∃ i < modes.length, ∃ l ≤ k,
    (Run.solo (problem settings) modes i l).completed = true ∧
      (Run.solo (problem settings) modes i l).solution = s
  accounted : ∀ i < modes.length,
    Covered f.accepted (Run.solo (problem settings) modes i k).solution.resources ∨
      (Run.solo (problem settings) modes i k).completed = false ∧
        (Run.solo (problem settings) modes i k).solution ∈ f.partials

theorem start_alone : Alone settings modes 0
    (Level.startFrontier (workspace settings modes stepCost) []) where
  pending := by
    intro p hp
    obtain ⟨i, hi, rfl⟩ := List.mem_map.mp hp
    exact ⟨i, List.mem_range.mp hi, rfl, rfl⟩
  finished := by simp [Level.startFrontier]
  accounted := fun i hi => Or.inr ⟨rfl, List.mem_map.mpr ⟨i, List.mem_range.mpr hi, rfl⟩⟩

/-- Usage only grows while a mode goes on. -/
theorem solo_within (hdelta : 0 < settings.timeDelta) {i : Nat} (hi : i < modes.length) {l : Nat}
    (hkl : k ≤ l) : Usage.within (Run.solo (problem settings) modes i k).solution.resources
      (Run.solo (problem settings) modes i l).solution.resources = true := by
  obtain ⟨d, rfl⟩ := Nat.exists_eq_add_of_le hkl
  rw [Run.solo_add hi]
  cases hc : (Run.solo (problem settings) modes i k).completed with
  | true =>
    rw [Run.andThen_of_completed hc]
    exact Usage.within_refl (Usage.isNumber_rat _)
  | false =>
    rw [Run.andThen_of_not_completed hc]
    exact walk_within hdelta _ _

/-- A child is a waiting mode one step further. -/
theorem Alone.child (hf : Alone settings modes k f) {watch : Option (Stopwatch Rat)} {now : Rat}
    {c : Candidate Rat} (hc : c ∈ (Extension.grow (workspace settings modes stepCost) .none 1 watch
      f.partials now).children) :
    ∃ i < modes.length, (Run.solo (problem settings) modes i (k + 1)).solution = c := by
  obtain ⟨p, hp, js, hjs, j, hj, m, hm, rfl⟩ := Extension.exists_candidate hc
  obtain ⟨i, hi, hopen, rfl⟩ := hf.pending p hp
  rw [Run.solo_candidates (problem_local settings).orderly hi, Except.ok.injEq] at hjs
  rw [← hjs, List.mem_singleton] at hj
  subst hj
  exact ⟨j, hi, Run.solo_succ hm hopen⟩

/-- A round that is not cut short takes every waiting mode one step further. -/
theorem Alone.round (hdelta : 0 < settings.timeDelta) (hf : Alone settings modes k f)
    (htraced : f.Traced (workspace settings modes stepCost)) {watch : Option (Stopwatch Rat)}
    {now : Rat} {r : Round Rat Rat (Usage Rat)}
    (hr : r = Round.perform (workspace settings modes stepCost) .singleMachine 1 watch f now)
    (hdone : r.extension.ending = .done) : Alone settings modes (k + 1) r.after := by
  have hlocal := problem_local settings
  have hproceeds : Round.Proceeds (problem settings) .singleMachine f r := by
    rw [hr] at hdone ⊢
    exact Round.proceeds_of_done hdone
  have hextension : r.extension = Extension.grow (workspace settings modes stepCost) .none 1 watch
      f.partials now := by
    rw [hr, Round.perform_extension]
    rfl
  have hcovers : ∀ s ∈ f.accepted ++ r.complete, Covered r.after.accepted s.resources :=
    round_covers hproceeds (round_determined Nat.one_pos hr hproceeds
      (fun s _ => Usage.isNumber_rat s.resources) htraced)
  have hchild : ∀ c ∈ r.extension.children, ∃ i < modes.length,
      (Run.solo (problem settings) modes i (k + 1)).solution = c := by
    rw [hextension]
    exact fun c hc => hf.child hc
  constructor
  case pending =>
    intro p hp
    obtain ⟨hmem, hincomplete⟩ := hproceeds.mem_partials hp
    obtain ⟨i, hi, rfl⟩ := hchild p hmem
    rw [Run.solo_complete hlocal.orderly hi (Nat.succ_pos k)] at hincomplete
    exact ⟨i, hi, hincomplete, rfl⟩
  case finished =>
    intro s hs
    rcases hproceeds.mem_accepted hs with hs | ⟨hmem, hcomplete⟩
    · obtain ⟨i, hi, l, hl, hend⟩ := hf.finished s hs
      exact ⟨i, hi, l, Nat.le_succ_of_le hl, hend⟩
    · obtain ⟨i, hi, rfl⟩ := hchild s hmem
      rw [Run.solo_complete hlocal.orderly hi (Nat.succ_pos k)] at hcomplete
      exact ⟨i, hi, k + 1, Nat.le_refl _, hcomplete, rfl⟩
  case accounted =>
    intro i hi
    rcases hf.accounted i hi with hcovered | ⟨hopen, hwaits⟩
    · have hstill := hcovered.trans fun s hs => hcovers s (List.mem_append_left _ hs)
      exact Or.inl (hstill.mono (solo_within hdelta hi (Nat.le_succ k)))
    · obtain ⟨m, hm⟩ := Run.exists_mode hi
      have hmem :
          (Run.solo (problem settings) modes i (k + 1)).solution ∈ r.extension.children := by
        rw [Run.solo_succ hm hopen]
        rw [hextension] at hdone ⊢
        exact Extension.child_mem hdone hwaits (Run.solo_candidates hlocal.orderly hi k)
          (List.mem_singleton_self i) hm
      rw [← Run.solo_complete hlocal.orderly hi (Nat.succ_pos k)]
      exact child_accounted hproceeds hcovers (by decide) hmem

/-! ## The level -/

/-- A level of single steps without switching and without a limit accepts ends of
modes that are run on their own up to the horizon, and covers all such ends. -/
theorem level_alone_ends (hdelta : 0 < settings.timeDelta) {resolution : Resolution Rat}
    (hstride : resolution.stride = 1) {l : Level Rat Rat (Usage Rat)} {watch : Stopwatch Rat}
    {clock : Rat} (hl : l = Level.perform (workspace settings modes stepCost) .singleMachine
      resolution watch [] clock) (hwatch : watch.limit = none) :
    (∀ s ∈ l.final.accepted, ∃ i < modes.length,
      (Run.solo (problem settings) modes i resolution.blocks).completed = true ∧
        (Run.solo (problem settings) modes i resolution.blocks).solution = s) ∧
    ∀ i < modes.length, (Run.solo (problem settings) modes i resolution.blocks).completed = true →
      Covered l.final.accepted
        (Run.solo (problem settings) modes i resolution.blocks).solution.resources := by
  have hlocal := problem_local settings
  have hpos : 0 < resolution.stride := by omega
  have hdone : ∀ r ∈ l.rounds, r.extension.ending = .done := by
    rw [hl]
    exact Level.rounds_done hlocal.orderly hpos hwatch
  have hlength : l.rounds.length ≤ resolution.blocks := by
    rw [hl]
    exact Level.length_runRounds_le _ _ _
  have hexhausted : l.rounds.length = resolution.blocks ∨ l.final.partials = [] := by
    rw [hl] at hdone ⊢
    exact Level.perform_exhausted hdone
  have halone : Alone settings modes l.rounds.length l.final := by
    subst hl
    refine (Level.perform_invariant (fun k f =>
      f.Traced (workspace settings modes stepCost) ∧ Alone settings modes k f)
      ⟨Level.startFrontier_traced (by simp), start_alone⟩ ?_).2
    intro r hr k now hperform hbefore
    have hround := hperform
    rw [hstride] at hround
    refine ⟨?_, hbefore.2.round hdelta hbefore.1 hround (hdone r hr)⟩
    rw [hround]
    exact Round.perform_traced hlocal Nat.one_pos hbefore.1
  constructor
  · intro s hs
    obtain ⟨i, hi, k, hk, hcompleted, rfl⟩ := halone.finished s hs
    have hstays := Run.solo_of_completed hi (hk.trans hlength) hcompleted
    exact ⟨i, hi, by rw [hstays, hcompleted], by rw [hstays]⟩
  · intro i hi hcompleted
    rcases halone.accounted i hi with hcovered | ⟨hopen, hwaits⟩
    · exact hcovered.mono (solo_within hdelta hi hlength)
    · rcases hexhausted with hall | hnone
      · rw [hall, hcompleted] at hopen
        cases hopen
      · rw [hnone] at hwaits
        cases hwaits

/-! ## Requests -/

/-- The replay of every mode for a number of steps is granted. -/
theorem replays_solo (settings : Settings Rat Rat) (modes : List (Mode Rat)) (hk : 0 < k) :
    (List.range modes.length).mapM
        (fun i => Simulation.replay (some (problem settings)) modes [⟨i, k⟩]) =
      .ok ((List.range modes.length).map fun i => Run.solo (problem settings) modes i k) := by
  rw [Granted.mapM, List.forall₂_map_right_iff, List.forall₂_same]
  intro i hi
  have hi : i < modes.length := List.mem_range.mp hi
  have hrange : Schedule.InRange modes.length [⟨i, k⟩] := by simpa [Schedule.InRange] using hi
  have hreplay : Run.replay (problem settings) modes [⟨i, k⟩] =
      .ok (Run.solo (problem settings) modes i k) :=
    Run.replay_eq_ok.mpr ⟨hrange, Run.follow_entry (problem_local settings) hi hk⟩
  exact Granted.bind.mpr ⟨problem settings, rfl, Granted.bind.mpr ⟨_, hreplay,
    Granted.bind.mpr ⟨(), requireMeasured_eq_ok.mpr fun _ _ => rfl, rfl⟩⟩⟩

/-- A request for a single machine is granted and performs one level, of single
steps and on nothing. -/
theorem single_machine_granted (settings : Settings Rat Rat) (hmodes : modes ≠ [])
    (hids : Search.checkIds modes = .ok ()) (stepCost : Rat) {n : Nat} (hn : 0 < n)
    (script : Script Rat) (clock : Rat) :
    ∃ sweep stage, Search.scriptedSweep (some (problem settings)) modes stepCost .singleMachine
        (.whole n) script clock = .ok sweep ∧ sweep.stages = [stage] ∧
      stage.level = Level.perform (workspace settings modes stepCost) .singleMachine
        (resolutionOf settings 1) (Stopwatch.started settings.timeout clock) [] clock := by
  obtain ⟨stage, later, hcons, hstage, hlater⟩ :=
    Sweep.runStages_cons (workspace settings modes stepCost) .singleMachine
      (resolutionOf settings 1) [] [] settings.interactive script
      (Stopwatch.started settings.timeout clock) clock
  have hnone : later = [] := by
    rcases hlater with ⟨-, hlater⟩ | ⟨-, hlater⟩
    · exact hlater
    · exact hlater
  have hlevel : stage.level = Level.perform (workspace settings modes stepCost) .singleMachine
      (resolutionOf settings 1) (Stopwatch.started settings.timeout clock) [] clock := by
    rw [hstage, Sweep.conclude_level]
  have hpositive : requirePositive .levels (.whole n : Given Rat) = .ok () :=
    requirePositive_whole.mpr (by exact_mod_cast hn)
  have hplan :
      [1].mapM (Resolution.ofStride (problem settings)) = .ok [resolutionOf settings 1] := by
    rw [Granted.mapM]
    exact .cons (ofStride_eq settings 1) .nil
  have hstages : (Sweep.perform (workspace settings modes stepCost) .singleMachine
      [resolutionOf settings 1] script clock).stages = [stage] := by
    rw [hnone] at hcons
    exact hcons
  refine ⟨_, stage, Search.scriptedSweep_eq_ok.mpr
    ⟨[1], _, ⟨hpositive, hmodes, hids, rfl, hplan⟩, rfl, fun _ _ _ _ => rfl, ?_⟩, hstages, hlevel⟩
  have hsucceeds : stage.level.failure? = none := by
    rw [hlevel]
    exact Level.succeeds (problem_local settings).orderly Nat.one_pos
  simp [Sweep.failure?, hstages, hsucceeds]

end Rate

/-- **Without switching, a search finds what replays find.** In the one-dimensional
domain over exact numbers, the replay of every mode for all steps of the horizon is
granted, and so is the search for a single machine without limit. If no replay is
complete, the search returns no front. Otherwise it returns one front of complete
replays, whose usages are the minimal ones of all complete replays. -/
theorem single_machine_replays (settings : Settings Rat Rat) (hdelta : 0 < settings.timeDelta)
    (htimeout : Stopwatch.limitOf settings.timeout = none) (modes : List (Mode Rat))
    (hmodes : modes ≠ []) (hids : Search.checkIds modes = .ok ()) (steps : Nat)
    (hsteps : (Rate.problem settings).blocksWithin settings.timeDelta = .ok steps)
    (hpos : 0 < steps) (stepCost : Rat) (n : Nat) (hn : 0 < n) (script : Script Rat)
    (clock : Rat) :
    ∃ runs sweep,
      (List.range modes.length).mapM
          (fun i => Simulation.replay (some (Rate.problem settings)) modes [⟨i, steps⟩]) =
        .ok runs ∧
      Search.scriptedSweep (some (Rate.problem settings)) modes stepCost .singleMachine (.whole n)
        script clock = .ok sweep ∧
      (Run.finished (Rate.problem settings) runs = [] → sweep.outcome = []) ∧
      (Run.finished (Rate.problem settings) runs ≠ [] → ∃ front, sweep.outcome = [front] ∧
        front.solutions ⊆ Run.finished (Rate.problem settings) runs ∧
        pairs front.solutions =
          {p | Minimal (· ∈ pairs (Run.finished (Rate.problem settings) runs)) p}) := by
  have hlocal := Rate.problem_local settings
  have hblocks : (Rate.resolutionOf settings 1).blocks = steps := by
    rw [Problem.blocksWithin_rat, Except.ok.injEq] at hsteps
    rw [← hsteps, Rate.resolutionOf, Rate.blockCount, Nat.cast_one, mul_one]
    rfl
  obtain ⟨sweep, stage, hsweep, hstages, hlevel⟩ :=
    Rate.single_machine_granted settings hmodes hids stepCost hn script clock
  obtain ⟨hends, hcovers⟩ := Rate.level_alone_ends hdelta rfl hlevel htimeout
  rw [hblocks] at hends hcovers
  have hsub : stage.level.front.solutions ⊆ Run.finished (Rate.problem settings)
      ((List.range modes.length).map fun i => Run.solo (Rate.problem settings) modes i steps) :=
    fun s hs => (Run.mem_finished_solo hlocal.orderly hpos).mpr (hends s hs)
  have hall : ∀ s ∈ Run.finished (Rate.problem settings)
      ((List.range modes.length).map fun i => Run.solo (Rate.problem settings) modes i steps),
        Covered stage.level.front.solutions s.resources := by
    intro s hs
    obtain ⟨i, hi, hcompleted, rfl⟩ := (Run.mem_finished_solo hlocal.orderly hpos).mp hs
    exact hcovers i hi hcompleted
  have hfront : IsFront (Rate.problem settings) stage.level.front.solutions ∧
      ∀ s ∈ stage.level.front.solutions, Replays (Rate.problem settings) modes s := by
    have hstage : stage ∈ sweep.stages := by simp [hstages]
    exact ⟨Search.accepted_isFront hsweep stage hstage,
      fun s hs => (Search.accepted_replay hlocal hsweep stage hstage s hs).1⟩
  refine ⟨_, sweep, Rate.replays_solo settings modes hpos, hsweep, fun hnone => ?_, fun hsome => ?_⟩
  · refine Sweep.outcome_eq_nil fun other hother => ?_
    rw [hstages, List.mem_singleton] at hother
    rw [hnone, List.subset_nil] at hsub
    rw [hother, hsub]
  · obtain ⟨s, hs⟩ := List.exists_mem_of_ne_nil _ hsome
    obtain ⟨t, ht, -⟩ := hall s hs
    have hne : stage.level.front.solutions ≠ [] := List.ne_nil_of_mem ht
    refine ⟨stage.level.front, ?_, hsub, Rate.pairs_minimal hfront.1 hfront.2 hsub hall⟩
    simp [Sweep.outcome, hstages, hne]

/-- Of a unit and half a unit per second, only the first one reaches the target. -/
theorem single_machine_replays_sample : ∃ runs sweep,
    (List.range 2).mapM (fun i => Simulation.replay (some (Rate.problem Rate.sampleSettings))
        Rate.sampleModes [⟨i, 2⟩]) = .ok runs ∧
    Search.scriptedSweep (some (Rate.problem Rate.sampleSettings)) Rate.sampleModes 0
      .singleMachine (.whole 2) (.steady [] 0) 0 = .ok sweep ∧
    (Run.finished (Rate.problem Rate.sampleSettings) runs).map Solution.schedule = [[⟨0, 2⟩]] ∧
    ∃ front, sweep.outcome = [front] ∧
      pairs front.solutions =
        {p | Minimal (· ∈ pairs (Run.finished (Rate.problem Rate.sampleSettings) runs)) p} := by
  obtain ⟨runs, sweep, hruns, hsweep, -, hfront⟩ :=
    single_machine_replays Rate.sampleSettings (by decide) rfl Rate.sampleModes
      (by simp [Rate.sampleModes]) rfl 2 (by cbv) (by decide) 0 2 (by decide) (.steady [] 0) 0
  have hfinished :
      (Run.finished (Rate.problem Rate.sampleSettings) runs).map Solution.schedule =
        [[⟨0, 2⟩]] := by
    have h : ((List.range 2).mapM (fun i => Simulation.replay
        (some (Rate.problem Rate.sampleSettings)) Rate.sampleModes [⟨i, 2⟩])).map
          (fun runs =>
            (Run.finished (Rate.problem Rate.sampleSettings) runs).map Solution.schedule) =
        .ok [[⟨0, 2⟩]] := by cbv
    obtain ⟨runs', hruns', hschedules⟩ := Granted.map.mp h
    obtain rfl : runs' = runs := Except.ok.inj (hruns'.symm.trans hruns)
    exact hschedules
  refine ⟨runs, sweep, hruns, hsweep, hfinished, ?_⟩
  obtain ⟨front, houtcome, -, hpairs⟩ := hfront fun hnone => by simp [hnone] at hfinished
  exact ⟨front, houtcome, hpairs⟩

end ModeSchedule
