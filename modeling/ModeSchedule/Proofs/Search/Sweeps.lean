/-
ModeSchedule.Proofs.Search.Sweeps — what a sweep keeps from level to level.

`Search.scriptedSweep_eq_ok` says when a request for a sweep is granted and what it
comes to. `Sweep.runStages_cons` says what a sweep does at each level of its plan,
and `Sweep.length_runStages` how many levels it performs.
`Sweep.runStages_invariant` carries a property of accepted candidates through
the levels; the property may look at the levels that are still to come, and
`Sweep.perform_invariant` is for one that does not.
-/
import ModeSchedule.Proofs.Requests
import ModeSchedule.Proofs.Search.Rounds

namespace ModeSchedule

variable {K S R A : Type} [Scalar K]

namespace Sweep

variable {w : Workspace K S R A} {algorithm : Algorithm}

@[simp] theorem conclude_level (pausing : Bool) (script : Script K)
    (level : Level K S R) : (conclude pausing script level).level = level := by
  unfold conclude
  split <;> rfl

/-- A sweep performs the first level of its plan; then it ends, or goes on with
what the level accepted. -/
theorem runStages_cons (w : Workspace K S R A) (algorithm : Algorithm)
    (resolution : Resolution K) (plan : List (Resolution K)) (accepted : List (Solution K S R))
    (pausing : Bool) (script : Script K) (watch : Stopwatch K) (clock : K) :
    ∃ first later,
      runStages w algorithm (resolution :: plan) accepted pausing script watch clock =
        first :: later ∧
      first = conclude pausing script (Level.perform w algorithm resolution watch accepted clock) ∧
      (first.last = true ∧ later = [] ∨ first.last = false ∧
        later = runStages w algorithm plan first.level.final.accepted
          (pausing && !first.answer.any fun a => a.command == .resume)
          ((first.answer.map script.after).getD script) first.watch first.clock) := by
  simp only [runStages]
  split
  · next h => exact ⟨_, _, rfl, rfl, Or.inl ⟨h, rfl⟩⟩
  · next h =>
    refine ⟨_, _, rfl, rfl, Or.inr ⟨by simpa using h, ?_⟩⟩
    rw [conclude_level]

/-- Without pauses, script and stopwatch stay what they are. -/
theorem runStages_cons_unpaused (w : Workspace K S R A) (algorithm : Algorithm)
    (resolution : Resolution K) (plan : List (Resolution K)) (accepted : List (Solution K S R))
    (script : Script K) (watch : Stopwatch K) (clock : K) :
    ∃ first later,
      runStages w algorithm (resolution :: plan) accepted false script watch clock =
        first :: later ∧
      first = conclude false script (Level.perform w algorithm resolution watch accepted clock) ∧
      (first.last = true ∧ later = [] ∨ first.last = false ∧
        later = runStages w algorithm plan first.level.final.accepted false script watch
          first.clock) := by
  obtain ⟨first, later, hcons, rfl, hlater⟩ :=
    runStages_cons w algorithm resolution plan accepted false script watch clock
  exact ⟨_, later, hcons, rfl, hlater⟩

/-- No level and no pause changes the limit of the stopwatch. -/
theorem runStages_limit {plan : List (Resolution K)} {accepted : List (Solution K S R)}
    {pausing : Bool} {script : Script K} {watch : Stopwatch K} {clock : K} :
    ∀ stage ∈ runStages w algorithm plan accepted pausing script watch clock,
      stage.level.watch.limit = watch.limit ∧ stage.watch.limit = watch.limit := by
  induction plan generalizing accepted pausing script watch clock with
  | nil => simp [runStages]
  | cons resolution plan ih =>
    obtain ⟨first, later, hcons, hfirst, hlater⟩ :=
      runStages_cons w algorithm resolution plan accepted pausing script watch clock
    have hlevel : first.level.watch.limit = watch.limit := by
      rw [hfirst, conclude_level]
      rfl
    have hwatch : first.watch.limit = watch.limit := by
      rw [hfirst]
      unfold conclude
      split
      · simp only [Stopwatch.start, Stopwatch.pause, Level.perform]
        split <;> rfl
      · rfl
    rw [hcons]
    intro stage hstage
    rcases List.mem_cons.mp hstage with rfl | hstage
    · exact ⟨hlevel, hwatch⟩
    · rcases hlater with ⟨-, rfl⟩ | ⟨-, rfl⟩
      · cases hstage
      · rw [← hwatch]
        exact ih stage hstage

/-- A sweep that does not pause reads no answer. -/
theorem runStages_answer {plan : List (Resolution K)} {accepted : List (Solution K S R)}
    {script : Script K} {watch : Stopwatch K} {clock : K} :
    ∀ stage ∈ runStages w algorithm plan accepted false script watch clock,
      stage.answer = none := by
  induction plan generalizing accepted script watch clock with
  | nil => simp [runStages]
  | cons resolution plan ih =>
    obtain ⟨first, later, hcons, hfirst, hlater⟩ :=
      runStages_cons w algorithm resolution plan accepted false script watch clock
    rw [hcons]
    intro stage hstage
    rcases List.mem_cons.mp hstage with rfl | hstage
    · rw [hfirst]
      rfl
    · rcases hlater with ⟨-, rfl⟩ | ⟨-, rfl⟩
      · cases hstage
      · exact ih stage hstage

theorem runStages_quit {plan : List (Resolution K)} {accepted : List (Solution K S R)}
    {script : Script K} {watch : Stopwatch K} {clock : K} :
    ∀ stage ∈ runStages w algorithm plan accepted false script watch clock,
      stage.quit = false := by
  intro stage hstage
  rw [Stage.quit, runStages_answer stage hstage, Option.any_none]

/-- A sweep that no stage ends performs its whole plan. -/
theorem runStages_resolutions {plan : List (Resolution K)} {accepted : List (Solution K S R)}
    {pausing : Bool} {script : Script K} {watch : Stopwatch K} {clock : K}
    (hlast : ∀ stage ∈ runStages w algorithm plan accepted pausing script watch clock,
      stage.last = false) :
    (runStages w algorithm plan accepted pausing script watch clock).map
      (fun stage => stage.level.resolution) = plan := by
  induction plan generalizing accepted pausing script watch clock with
  | nil => rfl
  | cons resolution plan ih =>
    obtain ⟨first, later, hcons, hfirst, hlater⟩ :=
      runStages_cons w algorithm resolution plan accepted pausing script watch clock
    have hresolution : first.level.resolution = resolution := by
      rw [hfirst, conclude_level]
      rfl
    rw [hcons] at hlast ⊢
    rcases hlater with ⟨hends, -⟩ | ⟨-, rfl⟩
    · rw [hlast first List.mem_cons_self] at hends
      cases hends
    · rw [List.map_cons, hresolution, ih fun s hs => hlast s (List.mem_cons_of_mem _ hs)]

/-- A sweep performs the levels of its plan in order, from the first on. -/
theorem runStages_initial {plan : List (Resolution K)} {accepted : List (Solution K S R)}
    {pausing : Bool} {script : Script K} {watch : Stopwatch K} {clock : K} :
    (runStages w algorithm plan accepted pausing script watch clock).map
      (fun stage => stage.level.resolution) <+: plan := by
  induction plan generalizing accepted pausing script watch clock with
  | nil => exact List.nil_prefix
  | cons resolution plan ih =>
    obtain ⟨first, later, hcons, hfirst, hlater⟩ :=
      runStages_cons w algorithm resolution plan accepted pausing script watch clock
    have hresolution : first.level.resolution = resolution := by
      rw [hfirst, conclude_level]
      rfl
    rw [hcons, List.map_cons, hresolution, List.cons_prefix_cons]
    rcases hlater with ⟨-, rfl⟩ | ⟨-, rfl⟩
    · exact ⟨rfl, List.nil_prefix⟩
    · exact ⟨rfl, ih⟩

/-- A sweep performs levels up to the first stage that ends it, or else its whole
plan. -/
theorem length_runStages {plan : List (Resolution K)} {accepted : List (Solution K S R)}
    {pausing : Bool} {script : Script K} {watch : Stopwatch K} {clock : K}
    {ends : Stage K S R → Bool}
    (hends : ∀ stage ∈ runStages w algorithm plan accepted pausing script watch clock,
      stage.last = ends stage) :
    (runStages w algorithm plan accepted pausing script watch clock).length =
      ((runStages w algorithm plan accepted pausing script watch clock).findIdx? ends).elim
        plan.length (· + 1) := by
  induction plan generalizing accepted pausing script watch clock with
  | nil => rfl
  | cons resolution plan ih =>
    obtain ⟨first, later, hcons, -, hlater⟩ :=
      runStages_cons w algorithm resolution plan accepted pausing script watch clock
    rw [hcons] at hends ⊢
    rw [List.findIdx?_cons, List.length_cons, ← hends first List.mem_cons_self]
    rcases hlater with ⟨hlast, rfl⟩ | ⟨hgoes, rfl⟩
    · rw [hlast]
      rfl
    · rw [hgoes, ih fun stage hstage => hends stage (List.mem_cons_of_mem _ hstage)]
      generalize (runStages w algorithm plan _ _ _ _ _).findIdx? ends = position
      cases position <;> rfl

/-- The first level is performed on what the sweep begins with. -/
theorem head_runStages {plan : List (Resolution K)} {accepted : List (Solution K S R)}
    {pausing : Bool} {script : Script K} {watch : Stopwatch K} {clock : K} :
    ∀ stage ∈ (runStages w algorithm plan accepted pausing script watch clock).head?,
      stage.level = Level.perform w algorithm stage.level.resolution watch accepted clock := by
  cases plan with
  | nil => simp [runStages]
  | cons resolution plan =>
    obtain ⟨first, later, hcons, hfirst, -⟩ :=
      runStages_cons w algorithm resolution plan accepted pausing script watch clock
    intro stage hstage
    rw [hcons, List.head?_cons, Option.mem_some_iff] at hstage
    rw [← hstage, hfirst, conclude_level]
    rfl

/-- Each stage performs its level on what the stage before it accepted. -/
theorem runStages_isChain {plan : List (Resolution K)} {accepted : List (Solution K S R)}
    {pausing : Bool} {script : Script K} {watch : Stopwatch K} {clock : K} :
    (runStages w algorithm plan accepted pausing script watch clock).IsChain fun coarse fine =>
      ∃ watch now, fine.level =
        Level.perform w algorithm fine.level.resolution watch coarse.level.final.accepted now := by
  induction plan generalizing accepted pausing script watch clock with
  | nil => exact .nil
  | cons resolution plan ih =>
    obtain ⟨first, later, hcons, -, hlater⟩ :=
      runStages_cons w algorithm resolution plan accepted pausing script watch clock
    rw [hcons]
    rcases hlater with ⟨-, rfl⟩ | ⟨-, rfl⟩
    · exact .singleton first
    · exact ih.cons fun stage hstage => ⟨_, _, head_runStages stage hstage⟩

/-- What a level of a sweep begins with was accepted at the stage before it. -/
theorem exists_before {plan : List (Resolution K)} {pausing : Bool} {script : Script K}
    {watch : Stopwatch K} {clock : K} {i : Nat} {stage : Stage K S R}
    (h : (runStages w algorithm plan [] pausing script watch clock)[i]? = some stage) :
    ∃ before watch' now,
      stage.level = Level.perform w algorithm stage.level.resolution watch' before now ∧
      ∀ s ∈ before, ∃ j < i, ∃ earlier,
        (runStages w algorithm plan [] pausing script watch clock)[j]? = some earlier ∧
          s ∈ earlier.level.final.accepted := by
  cases i with
  | zero =>
    rw [← List.head?_eq_getElem?] at h
    exact ⟨[], watch, clock, head_runStages stage h, by simp⟩
  | succ i =>
    obtain ⟨hlt, rfl⟩ := List.getElem?_eq_some_iff.mp h
    obtain ⟨watch', now, hlevel⟩ := List.isChain_iff_getElem.mp runStages_isChain i hlt
    exact ⟨_, watch', now, hlevel, fun s hs =>
      ⟨i, Nat.lt_succ_self i, _, List.getElem?_eq_getElem (by omega), hs⟩⟩

/-- The level of a stage was performed on candidates with a property, which it
has passed on to the levels to come. -/
structure Passed (w : Workspace K S R A) (algorithm : Algorithm)
    (Inv : List (Resolution K) → List (Solution K S R) → Prop) (stage : Stage K S R)
    (later : List (Resolution K)) : Prop where
  performed : ∃ accepted watch clock,
    stage.level = Level.perform w algorithm stage.level.resolution watch accepted clock ∧
      Inv (stage.level.resolution :: later) accepted
  passedOn : Inv later stage.level.final.accepted

/-- A property that every level passes on holds before and after each level. -/
theorem runStages_invariant (Inv : List (Resolution K) → List (Solution K S R) → Prop)
    {plan : List (Resolution K)} {accepted : List (Solution K S R)} {pausing : Bool}
    {script : Script K} {watch : Stopwatch K} {clock : K} (hstart : Inv plan accepted)
    (hstep : ∀ stage ∈ runStages w algorithm plan accepted pausing script watch clock,
      ∀ later before watch' clock',
        stage.level = Level.perform w algorithm stage.level.resolution watch' before clock' →
          Inv (stage.level.resolution :: later) before → Inv later stage.level.final.accepted) :
    ∀ stage ∈ runStages w algorithm plan accepted pausing script watch clock,
      ∃ later, Passed w algorithm Inv stage later := by
  induction plan generalizing accepted pausing script watch clock with
  | nil => simp [runStages]
  | cons resolution plan ih =>
    obtain ⟨first, later, hcons, hfirst, hlater⟩ :=
      runStages_cons w algorithm resolution plan accepted pausing script watch clock
    have hlevel : first.level = Level.perform w algorithm resolution watch accepted clock := by
      rw [hfirst, conclude_level]
    have hresolution : first.level.resolution = resolution := by rw [hlevel]; rfl
    have hperformed : first.level =
        Level.perform w algorithm first.level.resolution watch accepted clock := by
      rw [hresolution, hlevel]
    have hbefore : Inv (first.level.resolution :: plan) accepted := by rwa [hresolution]
    rw [hcons] at hstep ⊢
    have hafter : Inv plan first.level.final.accepted :=
      hstep first List.mem_cons_self plan accepted watch clock hperformed hbefore
    intro stage hstage
    rcases List.mem_cons.mp hstage with rfl | hstage
    · exact ⟨plan, ⟨accepted, watch, clock, hperformed, hbefore⟩, hafter⟩
    · rcases hlater with ⟨-, rfl⟩ | ⟨-, rfl⟩
      · cases hstage
      · exact ih hafter (fun s hs => hstep s (List.mem_cons_of_mem _ hs)) stage hstage

/-- Every stage has performed a level. -/
theorem exists_performed {plan : List (Resolution K)} {accepted : List (Solution K S R)}
    {pausing : Bool} {script : Script K} {watch : Stopwatch K} {clock : K} {stage : Stage K S R}
    (h : stage ∈ runStages w algorithm plan accepted pausing script watch clock) :
    ∃ before watch now,
      stage.level = Level.perform w algorithm stage.level.resolution watch before now := by
  obtain ⟨_, hpassed⟩ := runStages_invariant (fun _ _ => True) trivial
    (fun _ _ _ _ _ _ _ _ => trivial) stage h
  obtain ⟨before, watch, now, hperformed, -⟩ := hpassed.performed
  exact ⟨before, watch, now, hperformed⟩

/-- Without a limit and without pauses, and where no level can fail, no stage
ends a sweep. -/
theorem runStages_last (halgorithm : algorithm.switching = .free) {plan : List (Resolution K)}
    {accepted : List (Solution K S R)} {script : Script K} {watch : Stopwatch K} {clock : K}
    (hwatch : watch.limit = none) :
    ∀ stage ∈ runStages w algorithm plan accepted false script watch clock,
      stage.last = false := by
  intro stage hstage
  obtain ⟨before, watch', now, hperformed⟩ := exists_performed hstage
  have hfailure : stage.level.failure? = none := by
    rw [hperformed]
    exact Level.failure_eq_none halgorithm
  simp only [Stage.last, Stage.expired, Stopwatch.expired, runStages_quit stage hstage,
    (runStages_limit stage hstage).2, hwatch, hfailure, Option.isSome_none, Bool.or_self]

/-- The levels of a sweep have the strides of its plan. -/
theorem stride_pos {plan : List (Resolution K)} {script : Script K} {clock : K}
    (hplan : ∀ r ∈ plan, 0 < r.stride) :
    ∀ stage ∈ (perform w algorithm plan script clock).stages, 0 < stage.level.resolution.stride :=
  fun _ hstage => hplan _ (runStages_initial.subset (List.mem_map_of_mem hstage))

/-- A property that every level of a sweep passes on holds of what each level
accepts. -/
theorem perform_invariant (Inv : List (Solution K S R) → Prop) {plan : List (Resolution K)}
    {script : Script K} {clock : K} (hplan : ∀ r ∈ plan, 0 < r.stride) (hnil : Inv [])
    (hstep : ∀ stage ∈ (perform w algorithm plan script clock).stages, ∀ before watch now,
      0 < stage.level.resolution.stride →
        stage.level = Level.perform w algorithm stage.level.resolution watch before now →
          Inv before → Inv stage.level.final.accepted) :
    ∀ stage ∈ (perform w algorithm plan script clock).stages,
      Inv stage.level.final.accepted := by
  intro stage hstage
  obtain ⟨later, hpassed⟩ := runStages_invariant
    (fun later accepted => (∀ r ∈ later, 0 < r.stride) ∧ Inv accepted) ⟨hplan, hnil⟩
    (fun stage hstage later before watch now hlevel hbefore =>
      ⟨fun r hr => hbefore.1 r (List.mem_cons_of_mem _ hr),
        hstep stage hstage before watch now (hbefore.1 _ List.mem_cons_self) hlevel hbefore.2⟩)
    stage hstage
  exact hpassed.passedOn.2

/-- What a stage accepts was compared at that stage or an earlier one. -/
theorem mem_compared_of_accepted {plan : List (Resolution K)} {script : Script K} {clock : K}
    (hplan : ∀ r ∈ plan, 0 < r.stride) :
    ∀ stage ∈ (perform w algorithm plan script clock).stages, ∀ s ∈ stage.level.final.accepted,
      ∃ other ∈ (perform w algorithm plan script clock).stages, s ∈ other.level.compared := by
  refine perform_invariant
    (fun accepted => ∀ s ∈ accepted,
      ∃ other ∈ (perform w algorithm plan script clock).stages, s ∈ other.level.compared)
    hplan (by simp) ?_
  intro stage hstage before watch now _ hlevel hbefore s hs
  rw [hlevel] at hs
  rcases Level.mem_final_accepted hs with hs | ⟨hs, -⟩
  · exact hbefore s hs
  · exact ⟨stage, hstage, hlevel ▸ hs⟩

/-- The candidates of a front of the outcome were accepted by a stage. -/
theorem exists_stage_of_outcome {s : Sweep K S R} {front : Front K S R}
    (h : front ∈ s.outcome) :
    ∃ stage ∈ s.stages, stage.level.front = front ∧
      front.solutions = stage.level.final.accepted := by
  obtain ⟨stage, hstage, rfl⟩ := List.mem_map.mp (List.mem_filter.mp h).1
  exact ⟨stage, hstage, rfl, rfl⟩

section

variable {sweep : Sweep K S R} {early : List (Stage K S R)} {last : Stage K S R}

theorem outcome_eq_nil (h : ∀ stage ∈ sweep.stages, stage.level.front.solutions = []) :
    sweep.outcome = [] := by
  refine List.filter_eq_nil_iff.mpr fun front hfront => ?_
  obtain ⟨stage, hstage, rfl⟩ := List.mem_map.mp hfront
  simp [h stage hstage]

/-- The finest front is that of the last stage, unless that is empty. -/
theorem finest_outcome (hstages : sweep.stages = early ++ [last])
    (hne : last.level.front.solutions ≠ []) :
    sweep.outcome.finest? = some last.level.front := by
  have hkept : (!last.level.front.solutions.isEmpty) = true := by
    simpa using hne
  simp only [Outcome.finest?, outcome, hstages, List.map_append, List.map_cons, List.map_nil,
    List.filter_append, List.filter_singleton, hkept, cond_true, List.getLast?_concat]

end

end Sweep

/-! ## Requests -/

namespace Search

variable {problem : Problem K S R A} {modes : List (Mode A)} {stepCost : K}
  {algorithm : Algorithm} {levels : Given K} {script : Script K} {clock : K} {sweep : Sweep K S R}
  {strides : List Nat} {plan : List (Resolution K)}

/-- The strides and the plan that a request for a sweep comes to, once it has
passed all checks. -/
structure Planned (problem : Problem K S R A) (modes : List (Mode A)) (algorithm : Algorithm)
    (levels : Given K) (strides : List Nat) (plan : List (Resolution K)) : Prop where
  positive : requirePositive .levels levels = .ok ()
  nonempty : modes ≠ []
  ids : checkIds modes = .ok ()
  counted : algorithm.stridesFor levels = .ok strides
  blocks : strides.mapM (Resolution.ofStride problem) = .ok plan

theorem Planned.stride_pos (h : Planned problem modes algorithm levels strides plan) :
    ∀ r ∈ plan, 0 < r.stride := by
  intro r hr
  obtain ⟨k, hk, hof⟩ := Granted.exists_of_mapM h.blocks hr
  obtain ⟨_, _, -, -, rfl⟩ := ofStride_eq_ok.mp hof
  exact stridesFor_pos h.counted k hk

theorem Planned.strides_eq (h : Planned problem modes algorithm levels strides plan) :
    plan.map Resolution.stride = strides := by
  have hall := Granted.mapM.mp h.blocks
  clear h
  induction hall with
  | nil => rfl
  | cons hof _ ih =>
    obtain ⟨_, _, -, -, rfl⟩ := ofStride_eq_ok.mp hof
    rw [List.map_cons, ih]

theorem Planned.length_eq (h : Planned problem modes algorithm levels strides plan) :
    plan.length = strides.length := by
  rw [← h.strides_eq, List.length_map]

/-- Levels that are performed as planned, from the first on, have the strides of the
plan in turn. -/
theorem Planned.strides_initial (h : Planned problem modes algorithm levels strides plan)
    {stages : List (Stage K S R)}
    (hstages : (stages.map fun stage => stage.level.resolution) <+: plan) :
    (stages.map fun stage => stage.level.front.stride) <+: strides := by
  have hstrides := hstages.map Resolution.stride
  rwa [List.map_map, h.strides_eq] at hstrides

theorem Planned.strides_granted (h : Planned problem modes algorithm levels strides plan) :
    algorithm.strides? levels = .ok strides :=
  Granted.bind.mpr ⟨(), h.positive, h.counted⟩

/-- A request is granted exactly if it has a plan, no level of the sweep of that
plan fails, and every candidate compared can be measured. -/
theorem scriptedSweep_eq_ok :
    scriptedSweep (some problem) modes stepCost algorithm levels script clock = .ok sweep ↔
      ∃ strides plan, Planned problem modes algorithm levels strides plan ∧
        sweep = Sweep.perform { problem, modes, stepCost } algorithm plan script clock ∧
        (∀ stage ∈ sweep.stages, ∀ s ∈ stage.level.compared, problem.misfit? s.state = none) ∧
        sweep.failure? = none := by
  have hmeasured : ∀ s : Sweep K S R,
      requireMeasured problem (s.stages.flatMap fun stage => stage.level.compared) = .ok () ↔
        ∀ stage ∈ s.stages, ∀ c ∈ stage.level.compared, problem.misfit? c.state = none := by
    intro s
    simp only [requireMeasured_eq_ok, List.mem_flatMap, forall_exists_index, and_imp]
    exact ⟨fun h stage hstage c hc => h c stage hstage hc,
      fun h c stage hstage hc => h stage hstage c hc⟩
  unfold scriptedSweep
  constructor
  · intro h
    obtain ⟨P, hP, h⟩ := Granted.bind.mp h
    obtain rfl : problem = P := Except.ok.inj hP
    obtain ⟨_, hpositive, h⟩ := Granted.bind.mp h
    obtain ⟨_, hmodes, h⟩ := Granted.bind.mp h
    obtain ⟨_, hids, h⟩ := Granted.bind.mp h
    obtain ⟨strides, hstrides, h⟩ := Granted.bind.mp h
    obtain ⟨plan, hplan, h⟩ := Granted.bind.mp h
    obtain ⟨_, hall, h⟩ := Granted.bind.mp h
    split at h
    · cases h
    · next hnone =>
      obtain rfl := Except.ok.inj h
      exact ⟨strides, plan, ⟨hpositive, requireModes_eq_ok.mp hmodes, hids, hstrides, hplan⟩, rfl,
        (hmeasured _).mp hall, hnone⟩
  · rintro ⟨strides, plan, h, rfl, hall, hnone⟩
    refine Granted.bind.mpr ⟨problem, rfl, Granted.bind.mpr ⟨(), h.positive, Granted.bind.mpr
      ⟨(), requireModes_eq_ok.mpr h.nonempty, Granted.bind.mpr ⟨(), h.ids, Granted.bind.mpr
        ⟨strides, h.counted, Granted.bind.mpr ⟨plan, h.blocks, Granted.bind.mpr
          ⟨(), (hmeasured _).mpr hall, ?_⟩⟩⟩⟩⟩⟩⟩
    rw [hnone]
    rfl

/-- A granted request has a plan of positive strides and is the sweep of that
plan; no level of it failed, and every candidate compared could be measured. -/
theorem exists_plan_of_sweep
    (h : scriptedSweep (some problem) modes stepCost algorithm levels script clock = .ok sweep) :
    ∃ plan, (∀ r ∈ plan, 0 < r.stride) ∧
      sweep = Sweep.perform { problem, modes, stepCost } algorithm plan script clock ∧
      (∀ stage ∈ sweep.stages, ∀ s ∈ stage.level.compared, problem.misfit? s.state = none) ∧
      sweep.failure? = none := by
  obtain ⟨_, plan, hplanned, hsweep, hmeasured, hfailure⟩ := scriptedSweep_eq_ok.mp h
  exact ⟨plan, hplanned.stride_pos, hsweep, hmeasured, hfailure⟩

/-- A granted request for a level of blocks is the level of these blocks. -/
theorem exists_resolution_of_level {count : Int} {previous : Option (Front K S R)}
    {watch : Option (Stopwatch K)} {l : Level K S R}
    (h : Search.level (some problem) modes stepCost algorithm (.whole count) previous watch clock =
      .ok l) :
    ∃ resolution, 0 < count ∧ Resolution.ofStride problem count.toNat = .ok resolution ∧
      l = Level.perform { problem, modes, stepCost } algorithm resolution
        (watch.getD (Stopwatch.started problem.settings.timeout clock))
        ((previous.map Front.solutions).getD []) clock := by
  unfold Search.level at h
  obtain ⟨P, hP, h⟩ := Granted.bind.mp h
  obtain rfl : problem = P := Except.ok.inj hP
  obtain ⟨_, hpositive, h⟩ := Granted.bind.mp h
  obtain ⟨-, -, h⟩ := Granted.bind.mp h
  obtain ⟨resolution, hresolution, h⟩ := Granted.bind.mp h
  obtain ⟨-, -, h⟩ := Granted.bind.mp h
  refine ⟨resolution, requirePositive_whole.mp hpositive, hresolution, ?_⟩
  split at h
  · cases h
  · exact (Except.ok.inj h).symm

end Search
end ModeSchedule
