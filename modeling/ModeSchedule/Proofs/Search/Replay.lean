/-
ModeSchedule.Proofs.Search.Replay — what a search finds, a replay confirms.

A search reaches a candidate through many rounds, block by block, from a seed. A
replay runs the steps of its schedule in one go. `Grown` says of an incomplete
candidate that some walk from a seed leads to it without completing it; the
candidates that a search extends are of this kind, and a child of one of them
replays (`Grown.advance`).

`found_schedules_replay` is the statement for a whole search. Its premise holds of
the one-dimensional domain and of the tapping machine in discrete time.
-/
import ModeSchedule.Proofs.Simulation.Locality
import ModeSchedule.Proofs.Search.Sweeps
import ModeSchedule.Rate
import ModeSchedule.Tapping.Machine

namespace ModeSchedule

variable {K S R A : Type} [Scalar K]

/-! ## Local domains -/

theorem Rate.problem_local (settings : Settings K K) : (Rate.problem settings).Local where
  complete_agree := by
    intro a b hab
    change decide (Rate.remaining settings a.state < settings.threshold) = _
    rw [hab.1]
    rfl
  distance_agree := by
    intro a b hab
    simp only [Rate.problem, UsageOrder.problem, Rate.distance, hab.1]
  step_agree := by
    intro m a b hab
    simp only [Problem.Agree, Rate.problem, UsageOrder.problem, Rate.step, hab.1, hab.2, and_self]
  step_distance := by
    intro m a b hab _
    simp only [Rate.problem, UsageOrder.problem, Rate.step, Rate.distance, hab.1]
  step_schedule := fun _ _ => rfl

theorem Tapping.discrete_local (setup : Tapping.Setup K) : (Tapping.discrete setup).Local where
  complete_agree := by
    intro a b hab
    change (a.state.misfit?.isSome ||
      decide (Tapping.remaining setup a.state.depth < setup.threshold)) = _
    rw [hab.1]
    rfl
  distance_agree := by
    intro a b hab
    simp only [Tapping.discrete, Tapping.machine, UsageOrder.problem, Tapping.distance, hab.1]
  step_agree := by
    intro m a b hab
    simp only [Problem.Agree, Tapping.discrete, Tapping.machine, UsageOrder.problem,
      Tapping.account, hab.1, hab.2, and_self]
  step_distance := by
    intro m a b hab _
    simp only [Tapping.discrete, Tapping.machine, UsageOrder.problem, Tapping.account,
      Tapping.distance, hab.1]
  step_schedule := fun _ _ => rfl

/-! ## Growing from seeds -/

/-- A walk from a seed leads to the candidate and does not complete it. -/
def Grown (P : Problem K S R A) (modes : List (Mode A)) (s : Solution K S R) : Prop :=
  ∃ j word, (∀ i ∈ word, i < modes.length) ∧
    Run.walk P modes word (P.seed j) = ⟨s, word.length, false⟩

variable {P : Problem K S R A} {modes : List (Mode A)}

theorem grown_seed (j : Nat) : Grown P modes (P.seed j) :=
  ⟨j, [], by simp, rfl⟩

/-- A block of steps from a grown candidate ends with a candidate that replays,
and that is grown itself unless the block has completed it. -/
theorem Grown.advance (hP : P.Local) {s : Solution K S R} (hs : Grown P modes s) {i : Nat}
    {m : Mode A} (hm : modes[i]? = some m) {stride : Nat} (hstride : 0 < stride) :
    Replays P modes (Run.advance P m.dynamics i stride s).solution ∧
      (P.complete (Run.advance P m.dynamics i stride s).solution = false →
        Grown P modes (Run.advance P m.dynamics i stride s).solution) := by
  obtain ⟨j, word, hword, hwalk⟩ := hs
  have hi : i < modes.length := (List.getElem?_eq_some_iff.mp hm).1
  have hlonger : ∀ k ∈ word ++ List.replicate stride i, k < modes.length := by
    intro k hk
    rcases List.mem_append.mp hk with hk | hk
    · exact hword k hk
    · rwa [List.eq_of_mem_replicate hk]
  have hne : word ++ List.replicate stride i ≠ [] := by
    simp [Nat.pos_iff_ne_zero.mp hstride]
  -- The walk over both words is the block that follows the first walk.
  have hblock : Run.walk P modes (word ++ List.replicate stride i) (P.seed j) =
      { Run.advance P m.dynamics i stride s with
        steps := word.length + (Run.advance P m.dynamics i stride s).steps } := by
    rw [Run.walk_append hword, hwalk, Run.andThen_of_not_completed rfl, Run.advance_eq_walk hm]
  have hsolution : (Run.walk P modes (word ++ List.replicate stride i) (P.seed j)).solution =
      (Run.advance P m.dynamics i stride s).solution := by rw [hblock]
  constructor
  · rw [← hsolution, Run.walk_seed hP hne j hlonger]
    exact replays_walk hP hlonger
  · intro hcomplete
    rw [← hsolution, Run.walk_complete hP.orderly hne hlonger] at hcomplete
    refine ⟨j, word ++ List.replicate stride i, hlonger, ?_⟩
    rw [← Run.walk_steps_of_not_completed hlonger hcomplete, ← hcomplete, ← hsolution]

/-! ## Through a search -/

variable {w : Workspace K S R A}

/-- The candidates to extend are grown, and the accepted ones replay. -/
structure Frontier.Traced (w : Workspace K S R A) (f : Frontier K S R) : Prop where
  partials : ∀ s ∈ f.partials, Grown w.problem w.modes s
  accepted : ∀ s ∈ f.accepted, Replays w.problem w.modes s

theorem Level.startFrontier_traced {accepted : List (Solution K S R)}
    (h : ∀ s ∈ accepted, Replays w.problem w.modes s) :
    (Level.startFrontier w accepted).Traced w where
  partials := by
    intro s hs
    obtain ⟨j, -, rfl⟩ := List.mem_map.mp hs
    exact grown_seed j
  accepted := h

/-- The children of grown candidates replay, and the incomplete ones are grown. -/
theorem Extension.child_replays (hP : w.problem.Local) {switching : Switching} {stride : Nat}
    (hstride : 0 < stride) {watch : Option (Stopwatch K)} {partials : List (Solution K S R)}
    {clock : K} (h : ∀ s ∈ partials, Grown w.problem w.modes s) {c : Solution K S R}
    (hc : c ∈ (grow w switching stride watch partials clock).children) :
    Replays w.problem w.modes c ∧ (w.problem.complete c = false → Grown w.problem w.modes c) := by
  obtain ⟨s, hs, i, m, hm, rfl⟩ := exists_parent hc
  exact (h s hs).advance hP hm hstride

theorem Round.perform_traced (hP : w.problem.Local) {algorithm : Algorithm} {stride : Nat}
    (hstride : 0 < stride) {watch : Option (Stopwatch K)} {f : Frontier K S R} {clock : K}
    (hf : f.Traced w) : (perform w algorithm stride watch f clock).after.Traced w where
  partials := by
    intro s hs
    rcases mem_partials hs with hs | ⟨hs, hcomplete⟩
    · exact hf.partials s hs
    · rw [perform_extension] at hs
      exact (Extension.child_replays hP hstride hf.partials hs).2 hcomplete
  accepted := by
    intro s hs
    rcases mem_accepted hs with hs | ⟨hs, -⟩
    · exact hf.accepted s hs
    · rw [perform_extension] at hs
      exact (Extension.child_replays hP hstride hf.partials hs).1

theorem Level.perform_traced (hP : w.problem.Local) {algorithm : Algorithm}
    {resolution : Resolution K} (hstride : 0 < resolution.stride) {watch : Stopwatch K}
    {accepted : List (Solution K S R)} {clock : K}
    (h : ∀ s ∈ accepted, Replays w.problem w.modes s) :
    (perform w algorithm resolution watch accepted clock).final.Traced w := by
  refine perform_invariant (fun _ f => f.Traced w) (startFrontier_traced h) ?_
  intro r _ _ now hperform hbefore
  rw [hperform]
  exact Round.perform_traced hP hstride hbefore

theorem Sweep.accepted_replay (hP : w.problem.Local) {algorithm : Algorithm}
    {plan : List (Resolution K)} {script : Script K} {clock : K}
    (hplan : ∀ r ∈ plan, 0 < r.stride) :
    ∀ stage ∈ (perform w algorithm plan script clock).stages, ∀ s ∈ stage.level.final.accepted,
      Replays w.problem w.modes s := by
  refine perform_invariant (fun accepted => ∀ s ∈ accepted, Replays w.problem w.modes s)
    hplan (by simp) ?_
  intro stage _ before watch now hstride hlevel hbefore
  rw [hlevel]
  exact (Level.perform_traced hP hstride hbefore).accepted

/-- What a granted search accepts replays, and can be measured. -/
theorem Search.accepted_replay {stepCost : K} {algorithm : Algorithm} {levels : Given K}
    {script : Script K} {clock : K} {sweep : Sweep K S R} (hP : P.Local)
    (h : scriptedSweep (some P) modes stepCost algorithm levels script clock = .ok sweep) :
    ∀ stage ∈ sweep.stages, ∀ s ∈ stage.level.final.accepted,
      Replays P modes s ∧ P.misfit? s.state = none := by
  obtain ⟨plan, hplan, rfl, hmeasured, -⟩ := exists_plan_of_sweep h
  intro stage hstage s hs
  obtain ⟨other, hother, hcompared⟩ := Sweep.mem_compared_of_accepted hplan stage hstage s hs
  exact ⟨Sweep.accepted_replay hP hplan stage hstage s hs, hmeasured other hother s hcompared⟩

/-- A measurable candidate that replays is what its schedule is replayed to. -/
theorem Replays.request {s : Solution K S R} (h : Replays P modes s)
    (hs : P.misfit? s.state = none) :
    ∃ run, Simulation.replay (some P) modes s.schedule = .ok run ∧ run.solution = s := by
  obtain ⟨run, hrun, hsolution⟩ := h.replay
  refine ⟨run, ?_, hsolution⟩
  have hmeasured : requireMeasured P [run.solution] = .ok () :=
    requireMeasured_eq_ok.mpr (by simpa [hsolution] using hs)
  exact Granted.bind.mpr ⟨P, rfl, Granted.bind.mpr ⟨run, hrun,
    Granted.bind.mpr ⟨(), hmeasured, rfl⟩⟩⟩

/-- **Every schedule found replays.** In a local problem, the replay of the
schedule of any candidate of any front is granted and ends with that very
candidate: schedule, state, resources and distance. The one-dimensional domain
and the tapping machine in discrete time are local. -/
theorem found_schedules_replay :
    (∀ {K : Type} [Scalar K] (settings : Settings K K), (Rate.problem settings).Local) ∧
    (∀ {K : Type} [Scalar K] (setup : Tapping.Setup K), (Tapping.discrete setup).Local) ∧
    ∀ {K S R A : Type} [Scalar K] (P : Problem K S R A) (_ : P.Local) (modes : List (Mode A))
      (stepCost keyCost : K) (algorithm : Algorithm) (levels : Given K) (keys : List String)
      (clock : K) (sweep : Sweep K S R)
      (_ : Search.sweep (some P) modes stepCost keyCost algorithm levels keys clock = .ok sweep),
      ∀ front ∈ sweep.outcome, ∀ s ∈ front.solutions,
        ∃ run, Simulation.replay (some P) modes s.schedule = .ok run ∧ run.solution = s := by
  refine ⟨fun settings => Rate.problem_local settings,
    fun setup => Tapping.discrete_local setup, ?_⟩
  intro K S R A _ P hP modes stepCost keyCost algorithm levels keys clock sweep h front hfront s hs
  obtain ⟨stage, hstage, -, hsolutions⟩ := Sweep.exists_stage_of_outcome hfront
  rw [hsolutions] at hs
  obtain ⟨hreplays, hmeasured⟩ := Search.accepted_replay hP h stage hstage s hs
  exact hreplays.request hmeasured

/-! ## A search with mixed schedules -/

/-- A target two units away that counts as reached from one unit on. -/
def Rate.sampleSettings : Settings Rat Rat :=
  { initialState := 0, targetState := 2, timeDelta := 1, timeMax := 2, threshold := 1 }

/-- A unit and half a unit per second. -/
def Rate.sampleModes : List (Mode Rat) := [⟨0, 1⟩, ⟨1, 1 / 2⟩]

/-- Blocks of two steps find one schedule, single steps two that beat it. -/
theorem Rate.sample_sweep : ∃ sweep, Search.sweep (some (Rate.problem Rate.sampleSettings))
      Rate.sampleModes 0 0 .exhaustive (.whole 2) [] 0 = .ok sweep ∧
    (sweep.outcome.map fun front => front.solutions.map Solution.schedule) =
      [[[⟨0, 2⟩]], [[⟨1, 1⟩, ⟨0, 1⟩], [⟨0, 1⟩, ⟨1, 1⟩]]] := by
  refine Granted.map.mp ?_
  cbv

theorem found_schedules_replay_sample : ∃ sweep,
    Search.sweep (some (Rate.problem Rate.sampleSettings)) Rate.sampleModes 0 0 .exhaustive
      (.whole 2) [] 0 = .ok sweep ∧
    (sweep.outcome.map fun front => front.solutions.map Solution.schedule) =
      [[[⟨0, 2⟩]], [[⟨1, 1⟩, ⟨0, 1⟩], [⟨0, 1⟩, ⟨1, 1⟩]]] ∧
    ∀ front ∈ sweep.outcome, ∀ s ∈ front.solutions,
      ∃ run, Simulation.replay (some (Rate.problem Rate.sampleSettings)) Rate.sampleModes
        s.schedule = .ok run ∧ run.solution = s := by
  obtain ⟨sweep, hsweep, hfronts⟩ := Rate.sample_sweep
  exact ⟨sweep, hsweep, hfronts, found_schedules_replay.2.2 (Rate.problem Rate.sampleSettings)
    (Rate.problem_local _) Rate.sampleModes 0 0 .exhaustive (.whole 2) [] 0 sweep hsweep⟩

end ModeSchedule
