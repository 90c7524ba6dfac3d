/-
ModeSchedule.Proofs.Search.Reordering — the order of the modes does not matter.

Two searches without a limit, with the same modes in two orders, go through the same
rounds: a level takes as many of them and as long (`Rate.level_mirrored`), a pause
reads the same keys, and the next level starts from what corresponds
(`Rate.runStages_mirrored`). Whether a request is granted, and for which plan, is not
a matter of the modes at all (`Rate.scriptedSweep_eq`).

`mode_order_immaterial` is the statement for a request.
-/
import ModeSchedule.Proofs.Search.Horizon
import ModeSchedule.Proofs.Search.Mirroring

namespace ModeSchedule

/-! ## What corresponds -/

section

variable {K S R : Type} [Scalar K]

/-- Two fronts of one step length, stride, number of rounds and runtime, whose
candidates use the same, one by one. -/
structure Front.Matches (front front' : Front K S (Usage K)) : Prop where
  stepLength : front'.stepLength = front.stepLength
  stride : front'.stride = front.stride
  rounds : front'.rounds = front.rounds
  runtime : front'.runtime = front.runtime
  solutions : List.Forall₂ Alike front.solutions front'.solutions

theorem Front.Matches.isEmpty {front front' : Front K S (Usage K)} (h : front.Matches front') :
    front'.solutions.isEmpty = front.solutions.isEmpty := by
  rw [Bool.eq_iff_iff, List.isEmpty_iff_length_eq_zero, List.isEmpty_iff_length_eq_zero,
    h.solutions.length_eq]

theorem Sweep.conclude_congr (pausing : Bool) (script : Script K) {l l' : Level K S R}
    (hwatch : l'.watch = l.watch) (hclock : l'.clock = l.clock) :
    (conclude pausing script l').answer = (conclude pausing script l).answer ∧
      (conclude pausing script l').watch = (conclude pausing script l).watch ∧
      (conclude pausing script l').clock = (conclude pausing script l).clock := by
  unfold conclude
  rw [hwatch, hclock]
  split <;> exact ⟨rfl, rfl, rfl⟩

/-- The last members of lists that correspond member by member correspond. -/
theorem forall₂_getLast? {α β : Type} {R : α → β → Prop} {xs : List α} {ys : List β}
    (h : List.Forall₂ R xs ys) : Option.Rel R xs.getLast? ys.getLast? := by
  induction h with
  | nil => exact .none
  | cons hxy hrest ih =>
    cases hrest with
    | nil => exact .some hxy
    | cons hxy' hrest => simpa only [List.getLast?_cons_cons] using ih

/-- Lists that stop together, or go on with what corresponds, correspond. -/
theorem forall₂_later {α β : Type} {R : α → β → Prop} {stops stops' : Bool}
    {later rest : List α} {later' rest' : List β} (hstops : stops' = stops)
    (h : stops = true ∧ later = [] ∨ stops = false ∧ later = rest)
    (h' : stops' = true ∧ later' = [] ∨ stops' = false ∧ later' = rest')
    (hrest : later = rest → later' = rest' → List.Forall₂ R rest rest') :
    List.Forall₂ R later later' := by
  rcases h with ⟨hstop, rfl⟩ | ⟨hgo, rfl⟩
  · rcases h' with ⟨-, rfl⟩ | ⟨hgo', -⟩
    · exact .nil
    · rw [hstops, hstop] at hgo'
      cases hgo'
  · rcases h' with ⟨hstop', -⟩ | ⟨-, rfl⟩
    · rw [hstops, hgo] at hstop'
      cases hstop'
    · exact hrest rfl rfl

end

/-! ## Levels -/

namespace Rate

variable {K : Type} [Scalar K] [Scalar.Ordered K] {settings : Settings K K}
  {modes modes' : List (Mode K)} {stepCost : K} {σ : Nat → Nat} {algorithm : Algorithm}
  {stride : Nat} {clock : K} {f f' : Frontier K K (Usage K)}

/-- From corresponding frontiers, as many rounds are performed, and each ends at the
same time with corresponding frontiers. -/
theorem runRounds_mirrored (h : Reordering modes modes' σ) (hstride : 0 < stride)
    {watch : Stopwatch K} (n : Nat) (hf : Mirrored settings modes modes' stepCost σ f f')
    (hdone : ∀ r ∈ Level.runRounds (workspace settings modes stepCost) algorithm stride watch n f
      clock, r.extension.ending = .done)
    (hdone' : ∀ r ∈ Level.runRounds (workspace settings modes' stepCost) algorithm stride watch n f'
      clock, r.extension.ending = .done)
    (hnumbers : ∀ r ∈ Level.runRounds (workspace settings modes stepCost) algorithm stride watch n f
      clock, ∀ s ∈ r.compared, s.resources.IsNumber) :
    List.Forall₂
      (fun r r' => r'.clock = r.clock ∧ Mirrored settings modes modes' stepCost σ r.after r'.after)
      (Level.runRounds (workspace settings modes stepCost) algorithm stride watch n f clock)
      (Level.runRounds (workspace settings modes' stepCost) algorithm stride watch n f' clock) := by
  induction n generalizing f f' clock with
  | zero => exact .nil
  | succ n ih =>
    rcases eq_or_ne f.partials [] with hempty | hne
    · have hempty' : f'.partials = [] := hf.partials_eq_nil.mpr hempty
      rw [Level.runRounds_empty hempty, Level.runRounds_empty hempty']
      exact .nil
    · have hne' : f'.partials ≠ [] := hf.partials_eq_nil.not.mpr hne
      obtain ⟨first, later, hcons, hfirst, hlater⟩ := Level.runRounds_cons
        (workspace settings modes stepCost) algorithm stride watch n clock hne
      obtain ⟨first', later', hcons', hfirst', hlater'⟩ := Level.runRounds_cons
        (workspace settings modes' stepCost) algorithm stride watch n clock hne'
      rw [hcons] at hdone hnumbers ⊢
      rw [hcons'] at hdone' ⊢
      have hending := hdone first List.mem_cons_self
      have hending' := hdone' first' List.mem_cons_self
      have htwins := hf.twinRounds h hstride hfirst hfirst' hending hending'
        fun c hc => hnumbers first List.mem_cons_self c (Round.children_subset_compared first hc)
      have hafter := htwins.after h.injective
      have hstops : (first'.failure?.isSome || watch.expired first'.clock) =
          (first.failure?.isSome || watch.expired first.clock) := by
        simp only [Round.failure?, hending, hending', htwins.clock]
      refine .cons ⟨htwins.clock, hafter⟩ (forall₂_later hstops hlater hlater' ?_)
      rintro rfl rfl
      rw [htwins.clock] at hdone' ⊢
      exact ih hafter (fun r hr => hdone r (List.mem_cons_of_mem _ hr))
        (fun r hr => hdone' r (List.mem_cons_of_mem _ hr))
        (fun r hr => hnumbers r (List.mem_cons_of_mem _ hr))

section

variable {resolution : Resolution K} {watch : Stopwatch K} {accepted accepted' : List (Candidate K)}
  {l l' : Level K K (Usage K)}

/-- A level in two orders of the modes takes as many rounds and as long, and its
frontiers correspond at the end. -/
theorem level_mirrored (h : Reordering modes modes' σ) (hstride : 0 < resolution.stride)
    (hwatch : watch.limit = none)
    (hl : l = Level.perform (workspace settings modes stepCost) algorithm resolution watch accepted
      clock)
    (hl' : l' = Level.perform (workspace settings modes' stepCost) algorithm resolution watch
      accepted' clock)
    (hstart : Mirrored settings modes modes' stepCost σ l.start l'.start)
    (hnumbers : ∀ s ∈ l.compared, s.resources.IsNumber) :
    l'.rounds.length = l.rounds.length ∧ l'.clock = l.clock ∧
      Mirrored settings modes modes' stepCost σ l.final l'.final := by
  have horderly := (problem_local settings).orderly
  have hrounds : List.Forall₂
      (fun r r' => r'.clock = r.clock ∧ Mirrored settings modes modes' stepCost σ r.after r'.after)
      l.rounds l'.rounds := by
    subst hl hl'
    refine runRounds_mirrored h hstride resolution.blocks hstart
      (Level.rounds_done horderly hstride hwatch) (Level.rounds_done horderly hstride hwatch) ?_
    exact fun r hr s hs => hnumbers s (List.mem_flatMap.mpr ⟨r, hr, hs⟩)
  have hbegin : l'.startedAt = l.startedAt := by rw [hl, hl']; rfl
  refine ⟨hrounds.length_eq.symm, ?_⟩
  have hlast := forall₂_getLast? hrounds
  unfold Level.clock Level.final
  generalize l.rounds.getLast? = last at hlast ⊢
  generalize l'.rounds.getLast? = last' at hlast ⊢
  cases hlast with
  | none => exact ⟨hbegin, hstart⟩
  | some hlast => exact hlast

omit [Scalar.Ordered K] in
/-- What a level has accepted may be handed on. -/
theorem Sound.restart (hf : Sound settings modes stepCost f) : Sound settings modes stepCost
    (Level.startFrontier (workspace settings modes stepCost) f.accepted) where
  traced := Level.startFrontier_traced hf.traced.accepted
  complete := hf.complete
  numbers := hf.numbers

end

/-! ## Sweeps -/

/-- A level in two orders of the modes, and what followed it. -/
structure TwinStages (settings : Settings K K) (modes modes' : List (Mode K)) (stepCost : K)
    (σ : Nat → Nat) (stage stage' : Stage K K (Usage K)) : Prop where
  answer : stage'.answer = stage.answer
  watch : stage'.watch = stage.watch
  clock : stage'.clock = stage.clock
  last : stage'.last = stage.last
  front : stage.level.front.Matches stage'.level.front
  final : Mirrored settings modes modes' stepCost σ stage.level.final stage'.level.final

theorem stage_mirrored (h : Reordering modes modes' σ) {resolution : Resolution K}
    (hstride : 0 < resolution.stride) {pausing : Bool} {script : Script K} {watch : Stopwatch K}
    (hwatch : watch.limit = none) {clock : K} {accepted accepted' : List (Candidate K)}
    {stage stage' : Stage K K (Usage K)}
    (hstart : Mirrored settings modes modes' stepCost σ
      (Level.startFrontier (workspace settings modes stepCost) accepted)
      (Level.startFrontier (workspace settings modes' stepCost) accepted'))
    (hs : stage = Sweep.conclude pausing script
      (Level.perform (workspace settings modes stepCost) algorithm resolution watch accepted clock))
    (hs' : stage' = Sweep.conclude pausing script
      (Level.perform (workspace settings modes' stepCost) algorithm resolution watch accepted'
        clock))
    (hnumbers : ∀ s ∈ stage.level.compared, s.resources.IsNumber) :
    TwinStages settings modes modes' stepCost σ stage stage' := by
  have hlevel : stage.level = Level.perform (workspace settings modes stepCost) algorithm
      resolution watch accepted clock := by rw [hs, Sweep.conclude_level]
  have hlevel' : stage'.level = Level.perform (workspace settings modes' stepCost) algorithm
      resolution watch accepted' clock := by rw [hs', Sweep.conclude_level]
  have hbegin : stage'.level.startedAt = stage.level.startedAt := by rw [hlevel, hlevel']; rfl
  have hrunning : stage'.level.watch = stage.level.watch := by rw [hlevel, hlevel']; rfl
  obtain ⟨hrounds, hclock, hfinal⟩ := level_mirrored h hstride hwatch hlevel hlevel'
    (by rw [hlevel, hlevel']; exact hstart) hnumbers
  have hconclude := Sweep.conclude_congr pausing script hrunning hclock
  rw [hlevel, hlevel', ← hs, ← hs'] at hconclude
  obtain ⟨hanswer, hwatches, hclocks⟩ := hconclude
  have hfailure : stage'.level.failure? = stage.level.failure? := by
    have horderly := (problem_local settings).orderly
    rw [hlevel, hlevel', Level.succeeds horderly hstride, Level.succeeds horderly hstride]
  have hlast : stage'.last = stage.last := by
    rw [Stage.last, Stage.last, Stage.quit, Stage.quit, Stage.expired, Stage.expired, hanswer,
      hwatches, hclocks, hfailure]
  have hfront : stage.level.front.Matches stage'.level.front := {
    stepLength := by rw [hlevel, hlevel']; rfl
    stride := by rw [hlevel, hlevel']; rfl
    rounds := hrounds
    runtime := by rw [Level.front, Level.front, hclock, hbegin]
    solutions := hfinal.accepted }
  exact ⟨hanswer, hwatches, hclocks, hlast, hfront, hfinal⟩

/-- From corresponding candidates, as many levels are performed, with fronts that match
one by one. -/
theorem runStages_mirrored (h : Reordering modes modes' σ) {plan : List (Resolution K)}
    (hplan : ∀ resolution ∈ plan, 0 < resolution.stride) {pausing : Bool} {script : Script K}
    {watch : Stopwatch K} (hwatch : watch.limit = none) {clock : K}
    {accepted accepted' : List (Candidate K)}
    (hstart : Mirrored settings modes modes' stepCost σ
      (Level.startFrontier (workspace settings modes stepCost) accepted)
      (Level.startFrontier (workspace settings modes' stepCost) accepted'))
    (hnumbers : ∀ stage ∈ Sweep.runStages (workspace settings modes stepCost) algorithm plan
      accepted pausing script watch clock, ∀ s ∈ stage.level.compared, s.resources.IsNumber) :
    List.Forall₂ (fun stage stage' => stage.level.front.Matches stage'.level.front)
      (Sweep.runStages (workspace settings modes stepCost) algorithm plan accepted pausing script
        watch clock)
      (Sweep.runStages (workspace settings modes' stepCost) algorithm plan accepted' pausing script
        watch clock) := by
  induction plan generalizing accepted accepted' pausing script watch clock with
  | nil => exact .nil
  | cons resolution plan ih =>
    obtain ⟨first, later, hcons, hfirst, hlater⟩ := Sweep.runStages_cons
      (workspace settings modes stepCost) algorithm resolution plan accepted pausing script watch
      clock
    obtain ⟨first', later', hcons', hfirst', hlater'⟩ := Sweep.runStages_cons
      (workspace settings modes' stepCost) algorithm resolution plan accepted' pausing script watch
      clock
    have hmem : first ∈ Sweep.runStages (workspace settings modes stepCost) algorithm
        (resolution :: plan) accepted pausing script watch clock := by
      rw [hcons]
      exact List.mem_cons_self
    have hlimit : first.watch.limit = none := (Sweep.runStages_limit first hmem).2.trans hwatch
    have htwins := stage_mirrored h (hplan resolution List.mem_cons_self) hwatch hstart hfirst
      hfirst' (hnumbers first hmem)
    rw [hcons] at hnumbers ⊢
    rw [hcons']
    refine .cons htwins.front (forall₂_later htwins.last hlater hlater' ?_)
    rintro rfl rfl
    have hfinal := htwins.final
    rw [htwins.answer, htwins.watch, htwins.clock]
    exact ih (fun r hr => hplan r (List.mem_cons_of_mem _ hr)) hlimit
      (start_mirrored h hfinal.accepted hfinal.sound.restart hfinal.sound'.restart)
      fun stage hstage => hnumbers stage (List.mem_cons_of_mem _ hstage)

omit [Scalar.Ordered K] in
/-- The levels of a planned sweep do not fail. -/
theorem perform_succeeds (modes : List (Mode K)) (stepCost : K) {plan : List (Resolution K)}
    (hplan : ∀ r ∈ plan, 0 < r.stride) (script : Script K) (clock : K) :
    (Sweep.perform (workspace settings modes stepCost) algorithm plan script clock).failure? =
      none := by
  refine List.findSome?_eq_none_iff.mpr fun stage hstage => ?_
  obtain ⟨before, watch, now, hperformed⟩ := Sweep.exists_performed hstage
  rw [hperformed]
  exact Level.succeeds (problem_local settings).orderly (Sweep.stride_pos hplan stage hstage)

omit [Scalar.Ordered K] in
theorem plan_pos {levels : Given K} {plan : List (Resolution K)}
    (h : (algorithm.strides? levels >>= List.mapM (Resolution.ofStride (problem settings))) =
      .ok plan) : ∀ r ∈ plan, 0 < r.stride := by
  intro r hr
  obtain ⟨strides, hstrides, hplan⟩ := Granted.bind.mp h
  obtain ⟨_, -, hcounted⟩ := Granted.bind.mp hstrides
  obtain ⟨k, hk, hof⟩ := Granted.exists_of_mapM hplan hr
  obtain ⟨_, _, -, -, rfl⟩ := ofStride_eq_ok.mp hof
  exact stridesFor_pos hcounted k hk

omit [Scalar.Ordered K] in
/-- Whether a request is granted, and for which plan, is not a matter of the modes. -/
theorem scriptedSweep_eq (hmodes : modes ≠ []) (hids : Search.checkIds modes = .ok ())
    (levels : Given K) (script : Script K) (clock : K) :
    Search.scriptedSweep (some (problem settings)) modes stepCost algorithm levels script clock =
      (algorithm.strides? levels >>= List.mapM (Resolution.ofStride (problem settings))).map
        fun plan =>
          Sweep.perform (workspace settings modes stepCost) algorithm plan script clock := by
  have hnonempty := requireModes_eq_ok.mpr hmodes
  cases hpositive : requirePositive .levels levels with
  | error cause =>
    rw [Search.scriptedSweep, Algorithm.strides?, hpositive]
    rfl
  | ok _ =>
    cases hstrides : algorithm.stridesFor levels with
    | error cause =>
      rw [Search.scriptedSweep, Algorithm.strides?, hpositive, hnonempty, hids, hstrides]
      rfl
    | ok strides =>
      cases hplan : strides.mapM (Resolution.ofStride (problem settings)) with
      | error cause =>
        have hrefused : (algorithm.strides? levels >>=
            List.mapM (Resolution.ofStride (problem settings))) = .error cause := by
          rw [Algorithm.strides?, hpositive, hstrides]
          exact hplan
        rw [hrefused, Search.scriptedSweep, hpositive, hnonempty, hids, hstrides]
        show (strides.mapM (Resolution.ofStride (problem settings)) >>= _) = _
        rw [hplan]
        rfl
      | ok plan =>
        have hplanned : Search.Planned (problem settings) modes algorithm levels strides plan :=
          ⟨hpositive, hmodes, hids, hstrides, hplan⟩
        rw [hplanned.strides_granted]
        show _ = (strides.mapM (Resolution.ofStride (problem settings))).map _
        rw [hplan]
        exact Search.scriptedSweep_eq_ok.mpr ⟨strides, plan, hplanned, rfl, fun _ _ _ _ => rfl,
          perform_succeeds modes stepCost hplanned.stride_pos _ _⟩

end Rate

/-- **The order of the modes does not matter.** In the one-dimensional domain without
a limit and where no usage lacks a value, a request for the same modes in another
order fails alike, or returns as many fronts. These have the same step lengths,
strides, rounds and runtimes, and the same usages one by one. -/
theorem mode_order_immaterial {K : Type} [Scalar K] [Scalar.Ordered K] (settings : Settings K K)
    (htimeout : Stopwatch.limitOf settings.timeout = none) (modes modes' : List (Mode K))
    (hmodes : modes ≠ []) (hids : Search.checkIds modes = .ok ())
    (hids' : Search.checkIds modes' = .ok ())
    (hperm : (modes.map Mode.dynamics).Perm (modes'.map Mode.dynamics)) (stepCost : K)
    (algorithm : Algorithm) (levels : Given K) (script : Script K) (clock : K) :
    (∀ cause, Search.scriptedSweep (some (Rate.problem settings)) modes stepCost algorithm levels
        script clock = .error cause →
      Search.scriptedSweep (some (Rate.problem settings)) modes' stepCost algorithm levels
        script clock = .error cause) ∧
    ∀ sweep, Search.scriptedSweep (some (Rate.problem settings)) modes stepCost algorithm levels
        script clock = .ok sweep →
      (∀ stage ∈ sweep.stages, ∀ s ∈ stage.level.compared, s.resources.IsNumber) →
      ∃ sweep', Search.scriptedSweep (some (Rate.problem settings)) modes' stepCost algorithm levels
          script clock = .ok sweep' ∧
        List.Forall₂ Front.Matches sweep.outcome sweep'.outcome := by
  obtain ⟨σ, h⟩ := exists_reordering hperm
  have hmodes' : modes' ≠ [] := by
    rwa [← List.length_pos_iff, h.length, List.length_pos_iff]
  rw [Rate.scriptedSweep_eq hmodes hids, Rate.scriptedSweep_eq hmodes' hids']
  constructor
  · intro cause hcause
    cases hplan : algorithm.strides? levels >>=
        List.mapM (Resolution.ofStride (Rate.problem settings)) with
    | error other => rw [hplan] at hcause; exact hcause
    | ok plan => rw [hplan] at hcause; cases hcause
  · intro sweep hsweep hnumbers
    obtain ⟨plan, hplan, rfl⟩ := Granted.map.mp hsweep
    refine ⟨_, Granted.map.mpr ⟨plan, hplan, rfl⟩, ?_⟩
    have hempty : ∀ modes : List (Mode K), Rate.Sound settings modes stepCost
        (Level.startFrontier (Rate.workspace settings modes stepCost) []) := fun modes =>
      ⟨Level.startFrontier_traced (by simp), by simp [Level.startFrontier],
        by simp [Level.startFrontier]⟩
    have hstages := Rate.runStages_mirrored h (Rate.plan_pos hplan) htimeout
      (Rate.start_mirrored h .nil (hempty modes) (hempty modes')) hnumbers
    unfold Sweep.outcome
    refine List.rel_filter (fun front front' hmatches => ?_) ?_
    · show (!front.solutions.isEmpty) = true ↔ (!front'.solutions.isEmpty) = true
      rw [hmatches.isEmpty]
    · rw [List.forall₂_map_left_iff, List.forall₂_map_right_iff]
      exact hstages

/-- A unit and half a unit per second, the other way round. -/
theorem mode_order_immaterial_sample : ∃ sweep sweep',
    Search.scriptedSweep (some (Rate.problem Rate.sampleSettings)) Rate.sampleModes 0 .exhaustive
      (.whole 2) (.steady [] 0) 0 = .ok sweep ∧
    Search.scriptedSweep (some (Rate.problem Rate.sampleSettings)) [⟨0, 1 / 2⟩, ⟨1, 1⟩] 0
      .exhaustive (.whole 2) (.steady [] 0) 0 = .ok sweep' ∧
    (sweep.outcome.map fun front => front.solutions.map Solution.schedule) =
      [[[⟨0, 2⟩]], [[⟨1, 1⟩, ⟨0, 1⟩], [⟨0, 1⟩, ⟨1, 1⟩]]] ∧
    List.Forall₂ Front.Matches sweep.outcome sweep'.outcome := by
  obtain ⟨sweep, hsweep, hfronts⟩ := Rate.sample_sweep
  obtain ⟨sweep', hsweep', hmatches⟩ := (mode_order_immaterial Rate.sampleSettings rfl
    Rate.sampleModes [⟨0, 1 / 2⟩, ⟨1, 1⟩] (by simp [Rate.sampleModes]) rfl rfl (.swap _ _ []) 0
    .exhaustive (.whole 2) (.steady [] 0) 0).2 sweep hsweep fun _ _ s _ =>
      ⟨Scalar.isNumber_rat s.resources.energy, Scalar.isNumber_rat s.resources.time⟩
  exact ⟨sweep, sweep', hsweep, hsweep', hfronts, hmatches⟩

end ModeSchedule
