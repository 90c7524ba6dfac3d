/-
ModeSchedule.Proofs.Search.Progress — the search never regresses.

A round drops an accepted candidate only for one that covers it, also where the
stopwatch has cut its extension short. What holds of a round holds of a level
(`Rate.level_kept`), and the stages of a sweep are levels each of which begins
with what the one before it accepted (`Rate.stages_cover`).

So a front that is not empty is followed by fronts that are not empty: those of
the outcome are the fronts of the last stages, whatever ended the sweep.
`search_never_regresses` puts both together.
-/
import ModeSchedule.Proofs.Search.Coverage

namespace ModeSchedule

/-- Where a condition passes from each member to the next, the members that meet
it stand at the end. -/
theorem filter_suffix_of_isChain {α : Type} {p : α → Bool} {xs : List α}
    (h : xs.IsChain fun a b => p a = true → p b = true) : xs.filter p <:+ xs := by
  induction xs with
  | nil => exact List.suffix_rfl
  | cons x xs ih =>
    obtain ⟨hhead, htail⟩ := List.isChain_cons.mp h
    cases hx : p x with
    | false =>
      rw [List.filter_cons_of_neg (by simp [hx])]
      exact (ih htail).trans (List.suffix_cons x xs)
    | true =>
      -- From `x` on, every member meets the condition.
      have hall : ∀ y ∈ x :: xs, p y = true :=
        h.induction (fun y => p y = true) _ (fun _ _ hab ha => hab ha) (fun _ => hx)
      rw [List.filter_eq_self.mpr hall]

namespace Rate

variable {K : Type} [Scalar K] [Scalar.Ordered K] {settings : Settings K K}
  {modes : List (Mode K)} {stepCost : K} {algorithm : Algorithm} {clock : K}
  {previous : List (Candidate K)}

/-- The candidates accepted use numbers, can be replayed and cover the previous
ones. -/
structure Kept (settings : Settings K K) (modes : List (Mode K)) (stepCost : K)
    (previous : List (Candidate K)) (f : Frontier K K (Usage K)) : Prop where
  traced : f.Traced (workspace settings modes stepCost)
  numbers : ∀ s ∈ f.accepted, s.resources.IsNumber
  covers : ∀ s ∈ previous, Covered f.accepted s.resources

theorem Kept.round {stride : Nat} (hstride : 0 < stride) {watch : Option (Stopwatch K)}
    {f : Frontier K K (Usage K)} {r : Round K K (Usage K)}
    (hr : r = Round.perform (workspace settings modes stepCost) algorithm stride watch f clock)
    (hnumbers : ∀ s ∈ r.compared, s.resources.IsNumber)
    (hf : Kept settings modes stepCost previous f) :
    Kept settings modes stepCost previous r.after := by
  have hchildren : ∀ s ∈ r.extension.children, s.resources.IsNumber :=
    fun s hs => hnumbers s (r.children_subset_compared hs)
  have hcases := Round.perform_cases (workspace settings modes stepCost) algorithm stride
    watch f clock
  rw [← hr] at hcases
  rcases hcases with ⟨_, -, hafter⟩ | ⟨-, hproceeds⟩
  · rwa [hafter]
  · have hboth : ∀ s ∈ f.accepted ++ r.complete, s.resources.IsNumber := by
      intro s hs
      rcases List.mem_append.mp hs with hs | hs
      · exact hf.numbers s hs
      · exact hchildren s (hproceeds.complete_subset hs)
    have hdetermined := round_determined hstride hr hproceeds hboth hf.traced
    constructor
    case traced =>
      rw [hr]
      exact Round.perform_traced (problem_local settings) hstride hf.traced
    case numbers =>
      intro s hs
      rcases hproceeds.mem_accepted hs with hs | ⟨hs, -⟩
      · exact hf.numbers s hs
      · exact hchildren s hs
    case covers =>
      intro s hs
      exact (hf.covers s hs).trans fun t ht =>
        round_covers hproceeds hdetermined t (List.mem_append_left _ ht)

/-- What a level begins with is covered when it ends. -/
theorem level_kept {resolution : Resolution K} (hstride : 0 < resolution.stride)
    {watch : Stopwatch K} {l : Level K K (Usage K)}
    (hl : l = Level.perform (workspace settings modes stepCost) algorithm resolution watch
      previous clock)
    (hnumbers : ∀ s ∈ l.compared, s.resources.IsNumber)
    (hreplays : ∀ s ∈ previous, Replays (problem settings) modes s)
    (hprevious : ∀ s ∈ previous, s.resources.IsNumber) :
    Kept settings modes stepCost previous l.final := by
  subst hl
  refine Level.perform_invariant (fun _ f => Kept settings modes stepCost previous f)
    ⟨Level.startFrontier_traced hreplays, hprevious,
      fun s hs => covered_of_mem hs (hprevious s hs)⟩ ?_
  intro r hr _ now hperform hbefore
  exact hbefore.round hstride hperform fun s hs => hnumbers s (List.mem_flatMap.mpr ⟨r, hr, hs⟩)

variable {levels : Given K} {script : Script K} {sweep : Sweep K K (Usage K)}

/-- Each stage of a granted sweep covers what the stage before it accepted. -/
theorem stages_cover
    (h : Search.scriptedSweep (some (problem settings)) modes stepCost algorithm levels script
      clock = .ok sweep)
    (hnumbers : ∀ stage ∈ sweep.stages, ∀ s ∈ stage.level.compared, s.resources.IsNumber) :
    sweep.stages.IsChain fun coarse fine =>
      ∀ s ∈ coarse.level.final.accepted, Covered fine.level.final.accepted s.resources := by
  have haccepted := fun stage hstage => (accepted_ordered h hnumbers stage hstage).2
  have hreplays := fun stage hstage s hs =>
    (Search.accepted_replay (problem_local settings) h stage hstage s hs).1
  obtain ⟨plan, hplan, rfl, -, -⟩ := Search.exists_plan_of_sweep h
  refine Sweep.runStages_isChain.imp_of_mem_imp ?_
  rintro coarse fine hcoarse hfine ⟨watch, now, hlevel⟩
  exact (level_kept (Sweep.stride_pos hplan fine hfine) hlevel (hnumbers fine hfine)
    (hreplays coarse hcoarse) (haccepted coarse hcoarse)).covers

end Rate

/-- Where each stage covers what the one before it accepted, the fronts of the
outcome are those of the last stages. -/
theorem Sweep.outcome_suffix {K S : Type} [Scalar K] {sweep : Sweep K S (Usage K)}
    (h : sweep.stages.IsChain fun coarse fine =>
      ∀ s ∈ coarse.level.final.accepted, Covered fine.level.final.accepted s.resources) :
    sweep.outcome <:+ sweep.stages.map fun stage => stage.level.front := by
  refine filter_suffix_of_isChain
    ((List.isChain_map _).mpr (h.imp fun coarse fine hcover hne => ?_))
  have hne : coarse.level.final.accepted ≠ [] := by simpa [Level.front] using hne
  obtain ⟨s, hs⟩ := List.exists_mem_of_ne_nil _ hne
  obtain ⟨t, ht, -⟩ := hcover s hs
  simpa [Level.front] using List.ne_nil_of_mem ht

/-- **The search never regresses.** In the one-dimensional domain, as long as all
resources compared are numbers, every candidate of a front has one in the next
front of the outcome that uses no more energy and no more time. The strides
performed are the first ones of the schedule of strides, and those of the fronts
are the last ones performed: from the first front that is not empty on, no level
is missing. -/
theorem search_never_regresses {K : Type} [Scalar K] [Scalar.Ordered K] (settings : Settings K K)
    (modes : List (Mode K)) (stepCost : K) (algorithm : Algorithm) (levels : Given K)
    (script : Script K) (clock : K) (sweep : Sweep K K (Usage K))
    (h : Search.scriptedSweep (some (Rate.problem settings)) modes stepCost algorithm levels script
      clock = .ok sweep)
    (hnumbers : ∀ stage ∈ sweep.stages, ∀ s ∈ stage.level.compared, s.resources.IsNumber) :
    (sweep.outcome.IsChain fun front next => ∀ a ∈ front.solutions, ∃ b ∈ next.solutions,
      b.resources.energy ≤ a.resources.energy ∧ b.resources.time ≤ a.resources.time) ∧
    ∃ strides, algorithm.strides? levels = .ok strides ∧
      (sweep.stages.map fun stage => stage.level.front.stride) <+: strides ∧
      sweep.outcome.map Front.stride <:+
        sweep.stages.map fun stage => stage.level.front.stride := by
  have hcover := Rate.stages_cover h hnumbers
  have hsuffix := Sweep.outcome_suffix hcover
  constructor
  · refine List.IsChain.suffix ((List.isChain_map _).mpr (hcover.imp fun coarse fine hcover => ?_))
      hsuffix
    intro a ha
    obtain ⟨b, hb, hba⟩ := hcover a ha
    exact ⟨b, hb, Usage.within_iff.mp hba⟩
  · obtain ⟨strides, plan, hplanned, hsweep, -, -⟩ := Search.scriptedSweep_eq_ok.mp h
    refine ⟨strides, hplanned.strides_granted, ?_, ?_⟩
    · rw [hsweep]
      exact hplanned.strides_initial Sweep.runStages_initial
    · have hmap := hsuffix.map Front.stride
      rwa [List.map_map] at hmap

theorem search_never_regresses_sample : ∃ sweep,
    Search.scriptedSweep (some (Rate.problem Rate.sampleSettings)) Rate.sampleModes 0 .exhaustive
      (.whole 2) (.steady [] 0) 0 = .ok sweep ∧
    (∀ stage ∈ sweep.stages, ∀ s ∈ stage.level.compared, s.resources.IsNumber) ∧
    (sweep.outcome.map fun front => front.solutions.map Solution.schedule) =
      [[[⟨0, 2⟩]], [[⟨1, 1⟩, ⟨0, 1⟩], [⟨0, 1⟩, ⟨1, 1⟩]]] ∧
    sweep.outcome.IsChain fun front next => ∀ a ∈ front.solutions, ∃ b ∈ next.solutions,
      b.resources.energy ≤ a.resources.energy ∧ b.resources.time ≤ a.resources.time := by
  obtain ⟨sweep, hsweep, hfronts⟩ := Rate.sample_sweep
  have hnumbers : ∀ stage ∈ sweep.stages, ∀ s ∈ stage.level.compared, s.resources.IsNumber :=
    fun _ _ s _ => Usage.isNumber_rat s.resources
  exact ⟨sweep, hsweep, hnumbers, hfronts, (search_never_regresses Rate.sampleSettings
    Rate.sampleModes 0 .exhaustive (.whole 2) (.steady [] 0) 0 sweep hsweep hnumbers).1⟩

end ModeSchedule
