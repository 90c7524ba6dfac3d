/-
ModeSchedule.Proofs.Search.Fronts — every front is a front.

`IsFront` is what any problem can rely on: all candidates are complete, and none
is strictly better than one at another position. It needs no law of the problem,
because pruning compares every pair and neither sorting nor collapsing brings a
dropped candidate back.

In the one-dimensional domain the candidates are in strict order besides. Here
the premise of sorting matters: candidates that replay are determined by their
schedules, so the comparison ranks them. Order and freedom from dominance make a
staircase (`found_fronts_undominated`).
-/
import ModeSchedule.Proofs.Dominance
import ModeSchedule.Proofs.Search.Replay

namespace ModeSchedule

variable {K S R A : Type} [Scalar K]

/-! ## Freedom from dominance -/

/-- All candidates are complete, and none is strictly better than another. -/
structure IsFront (P : Problem K S R A) (xs : List (Solution K S R)) : Prop where
  complete : ∀ s ∈ xs, P.complete s = true
  undominated : xs.Pairwise fun a b => P.strictlyBetter a b = false ∧ P.strictlyBetter b a = false

omit [Scalar K] in
theorem isFront_nil (P : Problem K S R A) : IsFront P [] where
  complete := by simp
  undominated := .nil

omit [Scalar K] in
theorem IsFront.not_better {P : Problem K S R A} {xs : List (Solution K S R)} (h : IsFront P xs)
    {a b : Solution K S R} (ha : a ∈ xs) (hb : b ∈ xs) (hne : a ≠ b) :
    P.strictlyBetter a b = false := by
  have : Std.Symm fun a b : Solution K S R =>
      P.strictlyBetter a b = false ∧ P.strictlyBetter b a = false := ⟨fun _ _ => And.symm⟩
  exact (h.undominated.forall ha hb hne).1

section

variable {w : Workspace K S R A} {algorithm : Algorithm} {clock : K}

theorem Round.perform_isFront {stride : Nat} {watch : Option (Stopwatch K)}
    {f : Frontier K S R} (hf : IsFront w.problem f.accepted) :
    IsFront w.problem (perform w algorithm stride watch f clock).after.accepted where
  complete := by
    intro s hs
    rcases mem_accepted hs with hs | ⟨-, hcomplete⟩
    · exact hf.complete s hs
    · exact hcomplete
  undominated := by
    rcases perform_cases w algorithm stride watch f clock with ⟨_, -, hafter⟩ | ⟨-, hr⟩
    · rw [hafter]
      exact hf.undominated
    · rw [hr.accepted]
      unfold settleAccepted merge
      split
      · exact hf.undominated
      · exact Pruning.deduplicate_pairwise_of_symm And.symm (Pruning.undominated_pairwise _ _)

theorem Level.perform_isFront {resolution : Resolution K} {watch : Stopwatch K}
    {accepted : List (Solution K S R)} (h : IsFront w.problem accepted) :
    IsFront w.problem (perform w algorithm resolution watch accepted clock).final.accepted := by
  refine perform_invariant (fun _ f => IsFront w.problem f.accepted) h ?_
  intro r _ _ now hperform hbefore
  rw [hperform]
  exact Round.perform_isFront hbefore

end

theorem Search.accepted_isFront {P : Problem K S R A} {modes : List (Mode A)}
    {stepCost : K} {algorithm : Algorithm} {levels : Given K} {script : Script K}
    {clock : K} {sweep : Sweep K S R}
    (h : scriptedSweep (some P) modes stepCost algorithm levels script clock = .ok sweep) :
    ∀ stage ∈ sweep.stages, IsFront P stage.level.final.accepted := by
  obtain ⟨plan, hplan, rfl, -, -⟩ := exists_plan_of_sweep h
  refine Sweep.perform_invariant (IsFront P) hplan (isFront_nil P) ?_
  intro stage _ before watch now _ hlevel hbefore
  rw [hlevel]
  exact Level.perform_isFront (w := ⟨P, modes, stepCost⟩) hbefore

/-! ## Order in the one-dimensional domain -/

namespace Rate

/-- The domain with the modes to search by. -/
abbrev workspace (settings : Settings K K) (modes : List (Mode K)) (stepCost : K) :
    Workspace K K (Usage K) K :=
  { problem := problem settings, modes, stepCost }

variable {settings : Settings K K} {modes : List (Mode K)}

/-- In the order of sorting, each candidate before every later one. -/
abbrev Ordered (xs : List (Candidate K)) : Prop :=
  xs.Pairwise fun a b => Solution.precedes Usage.less a b = true

/-- Candidates that replay are determined by their schedules. -/
theorem determined {xs : List (Candidate K)}
    (hreplays : ∀ s ∈ xs, Replays (problem settings) modes s)
    (hnumbers : ∀ s ∈ xs, s.resources.IsNumber) : UsageOrder.Determined xs where
  numbers := hnumbers
  resources := by
    intro a ha b hb hschedule
    rw [(hreplays a ha).eq_of_schedule (hreplays b hb) hschedule]

variable [Scalar.Ordered K] {stepCost : K} {algorithm : Algorithm} {clock : K}

theorem deduplicate_ordered {xs : List (Candidate K)} (h : UsageOrder.Determined xs) :
    Ordered (Pruning.deduplicate (problem settings).precedes (problem settings).same xs) :=
  Pruning.deduplicate_pairwise (UsageOrder.precedes_ranking h.consistent)
    fun a ha b hb hab => UsageOrder.precedes_total (h.numbers a ha) (h.numbers b hb) hab

omit [Scalar.Ordered K] in
/-- What the accepted candidates are pruned and sorted with is determined. -/
theorem round_determined {stride : Nat} (hstride : 0 < stride) {watch : Option (Stopwatch K)}
    {f : Frontier K K (Usage K)} {r : Round K K (Usage K)}
    (hr : r = Round.perform (workspace settings modes stepCost) algorithm stride watch f
      clock)
    (hproceeds : Round.Proceeds (problem settings) algorithm f r)
    (hnumbers : ∀ s ∈ f.accepted ++ r.complete, s.resources.IsNumber)
    (hf : f.Traced (workspace settings modes stepCost)) :
    UsageOrder.Determined (f.accepted ++ r.complete) := by
  have hreplays : ∀ s ∈ f.accepted ++ r.complete, Replays (problem settings) modes s := by
    intro s hs
    rcases List.mem_append.mp hs with hs | hs
    · exact hf.accepted s hs
    · have hchild := hproceeds.complete_subset hs
      rw [hr, Round.perform_extension] at hchild
      exact (Extension.child_replays (problem_local settings) hstride hf.partials hchild).1
  exact determined hreplays hnumbers

theorem round_ordered {stride : Nat} (hstride : 0 < stride) {watch : Option (Stopwatch K)}
    {f : Frontier K K (Usage K)} {r : Round K K (Usage K)}
    (hr : r = Round.perform (workspace settings modes stepCost) algorithm stride watch f
      clock)
    (hnumbers : ∀ s ∈ r.compared, s.resources.IsNumber)
    (hf : f.Traced (workspace settings modes stepCost)) (hordered : Ordered f.accepted) :
    Ordered r.after.accepted := by
  have hbefore : r.before = f := by rw [hr, Round.perform_before]
  have hcases := Round.perform_cases (workspace settings modes stepCost) algorithm stride
    watch f clock
  rw [← hr] at hcases
  rcases hcases with ⟨_, -, hafter⟩ | ⟨-, hproceeds⟩
  · rwa [hafter]
  · rw [hproceeds.accepted]
    unfold Round.settleAccepted Round.merge
    split
    · exact hordered
    · next hcomplete =>
      have hcompared : f.accepted ++ r.complete ⊆ r.compared := by
        intro s hs
        unfold Round.compared
        split
        · next hnil =>
          have hsub := hproceeds.complete_subset
          rw [hnil, List.subset_nil] at hsub
          exact absurd (by rw [hsub]; rfl) hcomplete
        · rw [hbefore]
          rcases List.mem_append.mp hs with hs | hs
          · exact List.mem_append_right _ hs
          · exact List.mem_append_left _ (hproceeds.complete_subset hs)
      have hdetermined := round_determined hstride hr hproceeds
        (fun s hs => hnumbers s (hcompared hs)) hf
      exact deduplicate_ordered
        (hdetermined.mono fun s hs => Pruning.mem_of_mem_undominated hs)

theorem level_ordered {resolution : Resolution K} (hstride : 0 < resolution.stride)
    {watch : Stopwatch K} {accepted : List (Candidate K)} {l : Level K K (Usage K)}
    (hl : l = Level.perform (workspace settings modes stepCost) algorithm resolution
      watch accepted clock)
    (hnumbers : ∀ s ∈ l.compared, s.resources.IsNumber)
    (hreplays : ∀ s ∈ accepted, Replays (problem settings) modes s)
    (hordered : Ordered accepted) : Ordered l.final.accepted := by
  subst hl
  refine (Level.perform_invariant
    (fun _ f => f.Traced (workspace settings modes stepCost) ∧ Ordered f.accepted)
    ⟨Level.startFrontier_traced hreplays, hordered⟩ ?_).2
  intro r hr _ now hperform hbefore
  constructor
  · rw [hperform]
    exact Round.perform_traced (problem_local settings) hstride hbefore.1
  · have hcompared : ∀ s ∈ r.compared, s.resources.IsNumber :=
      fun s hs => hnumbers s (List.mem_flatMap.mpr ⟨r, hr, hs⟩)
    exact round_ordered hstride hperform hcompared hbefore.1 hbefore.2

theorem accepted_ordered {levels : Given K} {script : Script K} {sweep : Sweep K K (Usage K)}
    (h : Search.scriptedSweep (some (problem settings)) modes stepCost algorithm levels script
      clock = .ok sweep)
    (hnumbers : ∀ stage ∈ sweep.stages, ∀ s ∈ stage.level.compared, s.resources.IsNumber) :
    ∀ stage ∈ sweep.stages, Ordered stage.level.final.accepted ∧
      ∀ s ∈ stage.level.final.accepted, s.resources.IsNumber := by
  obtain ⟨plan, hplan, rfl, -, -⟩ := Search.exists_plan_of_sweep h
  have hboth := Sweep.perform_invariant
    (fun accepted => (∀ s ∈ accepted, Replays (problem settings) modes s) ∧ Ordered accepted)
    hplan ⟨by simp, .nil⟩ (by
      intro stage hstage before watch now hstride hlevel hbefore
      refine ⟨?_, level_ordered hstride hlevel (hnumbers stage hstage) hbefore.1 hbefore.2⟩
      rw [hlevel]
      exact (Level.perform_traced (problem_local settings) hstride hbefore.1).accepted)
  intro stage hstage
  refine ⟨(hboth stage hstage).2, fun s hs => ?_⟩
  obtain ⟨other, hother, hcompared⟩ := Sweep.mem_compared_of_accepted hplan stage hstage s hs
  exact hnumbers other hother s hcompared

end Rate

/-- **Every front is a front.** All candidates of a front are complete, and none
is strictly better than one at another position. In the one-dimensional domain,
as long as all resources compared are numbers, each front is a strict staircase:
along it energy increases and time decreases. -/
theorem found_fronts_undominated :
    (∀ {K S R A : Type} [Scalar K] (P : Problem K S R A) (modes : List (Mode A))
      (stepCost keyCost : K) (algorithm : Algorithm) (levels : Given K) (keys : List String)
      (clock : K) (sweep : Sweep K S R)
      (_ : Search.sweep (some P) modes stepCost keyCost algorithm levels keys clock = .ok sweep),
      ∀ front ∈ sweep.outcome, (∀ s ∈ front.solutions, P.complete s = true) ∧
        front.solutions.Pairwise fun a b =>
          P.strictlyBetter a b = false ∧ P.strictlyBetter b a = false) ∧
    ∀ {K : Type} [Scalar K] [Scalar.Ordered K] (settings : Settings K K) (modes : List (Mode K))
      (stepCost keyCost : K) (algorithm : Algorithm) (levels : Given K) (keys : List String)
      (clock : K) (sweep : Sweep K K (Usage K))
      (_ : Search.sweep (some (Rate.problem settings)) modes stepCost keyCost algorithm levels keys
        clock = .ok sweep)
      (_ : ∀ stage ∈ sweep.stages, ∀ s ∈ stage.level.compared, s.resources.IsNumber),
      ∀ front ∈ sweep.outcome, front.solutions.Pairwise fun a b =>
        a.resources.energy < b.resources.energy ∧ b.resources.time < a.resources.time := by
  constructor
  · intro K S R A _ P modes stepCost keyCost algorithm levels keys clock sweep h front hfront
    obtain ⟨stage, hstage, -, hsolutions⟩ := Sweep.exists_stage_of_outcome hfront
    have hisFront := Search.accepted_isFront h stage hstage
    rw [hsolutions]
    exact ⟨hisFront.complete, hisFront.undominated⟩
  · intro K _ _ settings modes stepCost keyCost algorithm levels keys clock sweep h hnumbers
      front hfront
    obtain ⟨stage, hstage, -, hsolutions⟩ := Sweep.exists_stage_of_outcome hfront
    have hisFront := Search.accepted_isFront h stage hstage
    obtain ⟨hordered, hnumbers⟩ := Rate.accepted_ordered h hnumbers stage hstage
    rw [hsolutions]
    refine (hordered.and hisFront.undominated).imp_of_mem ?_
    intro a b ha hb hab
    exact UsageOrder.staircase (hnumbers a ha) (hnumbers b hb) (hisFront.complete a ha) hab.1
      hab.2.1

theorem found_fronts_undominated_sample : ∃ sweep,
    Search.sweep (some (Rate.problem Rate.sampleSettings)) Rate.sampleModes 0 0 .exhaustive
      (.whole 2) [] 0 = .ok sweep ∧
    (sweep.outcome.map fun front => front.solutions.map Solution.schedule) =
      [[[⟨0, 2⟩]], [[⟨1, 1⟩, ⟨0, 1⟩], [⟨0, 1⟩, ⟨1, 1⟩]]] ∧
    (∀ front ∈ sweep.outcome,
      (∀ s ∈ front.solutions, (Rate.problem Rate.sampleSettings).complete s = true) ∧
      front.solutions.Pairwise fun a b =>
        (Rate.problem Rate.sampleSettings).strictlyBetter a b = false ∧
          (Rate.problem Rate.sampleSettings).strictlyBetter b a = false) ∧
    ∀ front ∈ sweep.outcome, front.solutions.Pairwise fun a b =>
      a.resources.energy < b.resources.energy ∧ b.resources.time < a.resources.time := by
  obtain ⟨sweep, hsweep, hfronts⟩ := Rate.sample_sweep
  refine ⟨sweep, hsweep, hfronts, ?_, ?_⟩
  · exact found_fronts_undominated.1 (Rate.problem Rate.sampleSettings) Rate.sampleModes 0 0
      .exhaustive (.whole 2) [] 0 sweep hsweep
  · exact found_fronts_undominated.2 Rate.sampleSettings Rate.sampleModes 0 0
      .exhaustive (.whole 2) [] 0 sweep hsweep fun _ _ s _ =>
        ⟨Scalar.isNumber_rat s.resources.energy, Scalar.isNumber_rat s.resources.time⟩

end ModeSchedule
