/-
ModeSchedule.Proofs.Search.Mirroring — a round with the modes in another order.

If the modes are put into another order, what a round extends are the same
candidates under other names and in another order, since runs commute with renaming
(`Extension.runs_perm`). What it accepts uses the same, although of several schedules
with equal usage each side may have kept another one. `Rate.Mirrored` says so of two
frontiers, and a round passes it on (`Rate.TwinRounds.after`): dominance is a matter
of usage, and deduplication puts the accepted candidates in strict order.
-/
import ModeSchedule.Proofs.Likeness
import ModeSchedule.Proofs.Search.Branching
import ModeSchedule.Proofs.Search.Fronts
import ModeSchedule.Proofs.Simulation.Renaming

namespace ModeSchedule

variable {K S R A : Type} [Scalar K]

/-! ## Extensions that nothing cuts short -/

namespace Extension

variable {w : Workspace K S R A} {switching : Switching} {stride : Nat}
  {watch : Option (Stopwatch K)} {partials : List (Solution K S R)} {clock : K}

/-- The modes that a candidate may go on with, if there are any. -/
def choices (switching : Switching) (count : Nat) (s : Schedule) : List Nat :=
  (switching.candidates count s).toOption.getD []

/-- The runs of candidates by all modes they may go on with. -/
def runs (w : Workspace K S R A) (switching : Switching) (stride : Nat)
    (partials : List (Solution K S R)) : List (Run K S R) :=
  partials.flatMap fun s => branch w stride s (choices switching w.modes.length s.schedule)

/-- An extension that was not cut short consists of all runs, and the clock has
ticked for all their steps. -/
theorem grow_of_done (hdone : (grow w switching stride watch partials clock).ending = .done) :
    (grow w switching stride watch partials clock).children =
        (runs w switching stride partials).map Run.solution ∧
      (grow w switching stride watch partials clock).clock =
        tick w.stepCost (cost (runs w switching stride partials)) clock := by
  obtain ⟨k, hcourse⟩ := grow_course w switching stride watch partials clock
  have htake : partials.take k = partials := List.take_of_length_le (hcourse.done hdone).1.ge
  have hruns : partials.flatMap (offspring w switching stride) =
      runs w switching stride partials := by
    refine List.flatMap_congr fun s hs => ?_
    rw [← htake] at hs
    obtain ⟨js, hjs⟩ := hcourse.able s hs
    have hchoices : choices switching w.modes.length s.schedule = js := by
      simp [choices, hjs, Except.toOption]
    rw [hchoices, branch_eq_offspring hjs]
  constructor
  · rw [hcourse.children, childrenOf, htake, hruns]
  · rw [hcourse.time, clockAfter, htake, hruns]

/-! ## Runs under other names -/

variable {P : Problem K S R A} {modes modes' : List (Mode A)} {stepCost : K} {σ : Nat → Nat}

theorem branch_rename (hP : P.Local) (h : Reordering modes modes' σ) (s : Solution K S R)
    (js : List Nat) : branch ⟨P, modes', stepCost⟩ stride (s.rename σ) (js.map σ) =
      (branch ⟨P, modes, stepCost⟩ stride s js).map (Run.rename σ) := by
  unfold branch
  rw [List.filterMap_map, List.map_filterMap]
  congr 1
  funext i
  simp only [Function.comp_apply, Run.advance_rename hP h.injective, Option.map_map]
  exact h.map_dynamics (fun dynamics => (Run.advance P dynamics i stride s).rename σ) i

omit [Scalar K] in
/-- Without a restriction to later modes, the choices are renamed as well. -/
theorem choices_perm (h : Reordering modes modes' σ) (hswitching : switching ≠ .increasing)
    (s : Schedule) : ((choices switching modes.length s).map σ).Perm
      (choices switching modes'.length (s.rename σ)) := by
  rw [h.length]
  cases switching with
  | increasing => exact absurd rfl hswitching
  | free => exact h.range_perm
  | none =>
    unfold choices Switching.candidates
    rw [Schedule.active?_rename]
    cases s.active? with
    | none => simp [Except.toOption]
    | some i =>
      have hrange : modes.length ≤ σ i ↔ modes.length ≤ i := by
        have := h.lt_iff i
        omega
      by_cases hi : modes.length ≤ i
      · simp [hrange, hi, Except.toOption]
      · simp [hrange, hi, Except.toOption]

/-- The runs of renamed candidates are the runs under other names. -/
theorem runs_perm (hP : P.Local) (h : Reordering modes modes' σ)
    (hswitching : switching ≠ .increasing) {partials' : List (Solution K S R)}
    (hpartials : (partials.map (Solution.rename σ)).Perm partials') :
    ((runs ⟨P, modes, stepCost⟩ switching stride partials).map (Run.rename σ)).Perm
      (runs ⟨P, modes', stepCost⟩ switching stride partials') := by
  have hbranch : ∀ s ∈ partials,
      ((branch ⟨P, modes, stepCost⟩ stride s
        (choices switching modes.length s.schedule)).map (Run.rename σ)).Perm
      (branch ⟨P, modes', stepCost⟩ stride (s.rename σ)
        (choices switching modes'.length (s.rename σ).schedule)) := by
    intro s _
    rw [← branch_rename hP h]
    exact (choices_perm h hswitching s.schedule).filterMap _
  calc ((runs ⟨P, modes, stepCost⟩ switching stride partials).map (Run.rename σ)).Perm
        (partials.flatMap fun s => branch ⟨P, modes', stepCost⟩ stride (s.rename σ)
          (choices switching modes'.length (s.rename σ).schedule)) := by
        rw [runs, List.map_flatMap]
        exact List.Perm.flatMap_left partials hbranch
    _ = runs ⟨P, modes', stepCost⟩ switching stride (partials.map (Solution.rename σ)) := by
        rw [runs, List.flatMap_map]
    _ |>.Perm (runs ⟨P, modes', stepCost⟩ switching stride partials') :=
        hpartials.flatMap_right _

/-- Extensions of renamed candidates that were not cut short have the same children
under other names, and take as long. -/
theorem grow_perm (hP : P.Local) (h : Reordering modes modes' σ)
    (hswitching : switching ≠ .increasing) {partials' : List (Solution K S R)}
    (hpartials : (partials.map (Solution.rename σ)).Perm partials')
    (hdone : (grow ⟨P, modes, stepCost⟩ switching stride watch partials clock).ending = .done)
    (hdone' : (grow ⟨P, modes', stepCost⟩ switching stride watch partials' clock).ending = .done) :
    ((grow ⟨P, modes, stepCost⟩ switching stride watch partials clock).children.map
        (Solution.rename σ)).Perm
      (grow ⟨P, modes', stepCost⟩ switching stride watch partials' clock).children ∧
    (grow ⟨P, modes', stepCost⟩ switching stride watch partials' clock).clock =
      (grow ⟨P, modes, stepCost⟩ switching stride watch partials clock).clock := by
  obtain ⟨hchildren, hclock⟩ := grow_of_done hdone
  obtain ⟨hchildren', hclock'⟩ := grow_of_done hdone'
  have hruns : ((runs ⟨P, modes, stepCost⟩ switching stride partials).map (Run.rename σ)).Perm
      (runs ⟨P, modes', stepCost⟩ switching stride partials') := runs_perm hP h hswitching hpartials
  have hcost : cost (runs ⟨P, modes', stepCost⟩ switching stride partials') =
      cost (runs ⟨P, modes, stepCost⟩ switching stride partials) := by
    rw [cost_eq_sum, cost_eq_sum, ← (hruns.map Run.steps).sum_eq, List.map_map]
    rfl
  constructor
  · have hsolutions := hruns.map Run.solution
    rw [List.map_map] at hsolutions
    rw [hchildren, hchildren', List.map_map]
    exact hsolutions
  · rw [hclock, hclock', hcost]

end Extension

/-! ## Rounds -/

namespace Rate

variable {settings : Settings K K} {modes modes' : List (Mode K)} {stepCost : K} {σ : Nat → Nat}
  {algorithm : Algorithm} {stride : Nat} {watch : Option (Stopwatch K)} {clock : K}
  {f f' : Frontier K K (Usage K)} {r r' : Round K K (Usage K)}

/-- What is extended and accepted replays; what is accepted is complete and uses
numbers. -/
structure Sound (settings : Settings K K) (modes : List (Mode K)) (stepCost : K)
    (f : Frontier K K (Usage K)) : Prop where
  traced : f.Traced (workspace settings modes stepCost)
  complete : ∀ s ∈ f.accepted, (problem settings).complete s = true
  numbers : ∀ s ∈ f.accepted, s.resources.IsNumber

theorem Sound.round (hstride : 0 < stride) (hf : Sound settings modes stepCost f)
    (hr : r = Round.perform (workspace settings modes stepCost) algorithm stride watch f clock)
    (hnumbers : ∀ c ∈ r.extension.children, c.resources.IsNumber) :
    Sound settings modes stepCost r.after where
  traced := by
    rw [hr]
    exact Round.perform_traced (problem_local settings) hstride hf.traced
  complete := by
    intro s hs
    rw [hr] at hs
    rcases Round.mem_accepted hs with hs | ⟨-, hcomplete⟩
    · exact hf.complete s hs
    · exact hcomplete
  numbers := by
    intro s hs
    rw [hr] at hs hnumbers
    rcases Round.mem_accepted hs with hs | ⟨hs, -⟩
    · exact hf.numbers s hs
    · exact hnumbers s hs

/-- Children and accepted candidates are identified by their schedules. -/
theorem Sound.identified (hstride : 0 < stride) (hf : Sound settings modes stepCost f)
    (hr : r = Round.perform (workspace settings modes stepCost) algorithm stride watch f clock)
    (hnumbers : ∀ c ∈ r.extension.children, c.resources.IsNumber) :
    Identified (r.extension.children ++ f.accepted) := by
  have hreplays : ∀ s ∈ r.extension.children ++ f.accepted,
      Replays (problem settings) modes s := by
    intro s hs
    rcases List.mem_append.mp hs with hs | hs
    · rw [hr, Round.perform_extension] at hs
      exact (Extension.child_replays (problem_local settings) hstride hf.traced.partials hs).1
    · exact hf.traced.accepted s hs
  constructor
  · intro s hs
    rcases List.mem_append.mp hs with hs | hs
    · exact hnumbers s hs
    · exact hf.numbers s hs
  · exact fun a ha b hb => (hreplays a ha).eq_of_schedule (hreplays b hb)

/-- What a round merges is identified and complete. -/
theorem Sound.merged (hf : Sound settings modes stepCost f)
    (hproceeds : Round.Proceeds (problem settings) algorithm f r)
    (hidentified : Identified (r.extension.children ++ f.accepted)) :
    Identified (f.accepted ++ r.complete) ∧
      ∀ s ∈ f.accepted ++ r.complete, (problem settings).complete s = true := by
  constructor
  · refine hidentified.mono (List.append_subset.mpr ⟨List.subset_append_right _ _, fun s hs => ?_⟩)
    exact List.mem_append_left _ (hproceeds.complete_subset hs)
  · intro s hs
    rcases List.mem_append.mp hs with hs | hs
    · exact hf.complete s hs
    · exact (hproceeds.mem_complete.mp hs).2

/-- Two frontiers of searches with the modes in two orders: the candidates to extend
are the same under other names, and the accepted ones use the same. -/
structure Mirrored (settings : Settings K K) (modes modes' : List (Mode K)) (stepCost : K)
    (σ : Nat → Nat) (f f' : Frontier K K (Usage K)) : Prop where
  partials : (f.partials.map (Solution.rename σ)).Perm f'.partials
  accepted : List.Forall₂ Alike f.accepted f'.accepted
  sound : Sound settings modes stepCost f
  sound' : Sound settings modes' stepCost f'

theorem Mirrored.partials_eq_nil (hf : Mirrored settings modes modes' stepCost σ f f') :
    f'.partials = [] ↔ f.partials = [] := by
  rw [← List.length_eq_zero_iff, ← hf.partials.length_eq, List.length_map,
    List.length_eq_zero_iff]

/-- The seeds are the same under other names. -/
theorem start_mirrored (h : Reordering modes modes' σ) {accepted accepted' : List (Candidate K)}
    (haccepted : List.Forall₂ Alike accepted accepted')
    (hsound : Sound settings modes stepCost
      (Level.startFrontier (workspace settings modes stepCost) accepted))
    (hsound' : Sound settings modes' stepCost
      (Level.startFrontier (workspace settings modes' stepCost) accepted')) :
    Mirrored settings modes modes' stepCost σ
      (Level.startFrontier (workspace settings modes stepCost) accepted)
      (Level.startFrontier (workspace settings modes' stepCost) accepted') where
  partials := by
    have hseeds := h.range_perm.map (problem settings).seed
    rw [← h.length, List.map_map] at hseeds
    simp only [Level.startFrontier, List.map_map]
    rw [← h.length]
    exact hseeds
  accepted := haccepted
  sound := hsound
  sound' := hsound'

/-- A round that is not cut short, in two orders of the modes. -/
structure TwinRounds (settings : Settings K K) (modes modes' : List (Mode K)) (stepCost : K)
    (σ : Nat → Nat) (algorithm : Algorithm) (f f' : Frontier K K (Usage K))
    (r r' : Round K K (Usage K)) : Prop where
  before : Mirrored settings modes modes' stepCost σ f f'
  proceeds : Round.Proceeds (problem settings) algorithm f r
  proceeds' : Round.Proceeds (problem settings) algorithm f' r'
  children : (r.extension.children.map (Solution.rename σ)).Perm r'.extension.children
  identified : Identified (r.extension.children ++ f.accepted)
  identified' : Identified (r'.extension.children ++ f'.accepted)
  clock : r'.clock = r.clock
  sound : Sound settings modes stepCost r.after
  sound' : Sound settings modes' stepCost r'.after

theorem switching_ne_increasing (algorithm : Algorithm) : algorithm.switching ≠ .increasing := by
  cases algorithm <;> simp [Algorithm.switching]

/-- What is asked of the two sides of a round holds if neither is cut short and the
children of one of them use numbers. -/
theorem Mirrored.twinRounds (h : Reordering modes modes' σ) (hstride : 0 < stride)
    (hf : Mirrored settings modes modes' stepCost σ f f')
    (hr : r = Round.perform (workspace settings modes stepCost) algorithm stride watch f clock)
    (hr' : r' = Round.perform (workspace settings modes' stepCost) algorithm stride watch f' clock)
    (hdone : r.extension.ending = .done) (hdone' : r'.extension.ending = .done)
    (hnumbers : ∀ c ∈ r.extension.children, c.resources.IsNumber) :
    TwinRounds settings modes modes' stepCost σ algorithm f f' r r' := by
  have hproceeds : Round.Proceeds (problem settings) algorithm f r := by
    rw [hr] at hdone ⊢
    exact Round.proceeds_of_done hdone
  have hproceeds' : Round.Proceeds (problem settings) algorithm f' r' := by
    rw [hr'] at hdone' ⊢
    exact Round.proceeds_of_done hdone'
  obtain ⟨hchildren, hclock⟩ : (r.extension.children.map (Solution.rename σ)).Perm
      r'.extension.children ∧ r'.clock = r.clock := by
    rw [Round.clock, Round.clock]
    rw [hr, Round.perform_extension] at hdone ⊢
    rw [hr', Round.perform_extension] at hdone' ⊢
    exact Extension.grow_perm (problem_local settings) h (switching_ne_increasing algorithm)
      hf.partials hdone hdone'
  have hnumbers' : ∀ c ∈ r'.extension.children, c.resources.IsNumber := by
    intro c hc
    obtain ⟨b, hb, rfl⟩ := List.mem_map.mp (hchildren.mem_iff.mpr hc)
    exact hnumbers b hb
  exact {
    before := hf
    proceeds := hproceeds
    proceeds' := hproceeds'
    children := hchildren
    identified := hf.sound.identified hstride hr hnumbers
    identified' := hf.sound'.identified hstride hr' hnumbers'
    clock := hclock
    sound := hf.sound.round hstride hr hnumbers
    sound' := hf.sound'.round hstride hr' hnumbers' }

omit [Scalar K] in
/-- A filter that asks the same under both names keeps the same. -/
theorem filter_perm {xs xs' : List (Candidate K)} (h : (xs.map (Solution.rename σ)).Perm xs')
    {p p' : Candidate K → Bool} (hp : ∀ s ∈ xs, p' (s.rename σ) = p s) :
    ((xs.filter p).map (Solution.rename σ)).Perm (xs'.filter p') := by
  have hfilter : xs.filter p = xs.filter (p' ∘ Solution.rename σ) :=
    List.filter_congr fun s hs => (hp s hs).symm
  rw [hfilter, ← List.filter_map]
  exact h.filter p'

/-- Heuristic dominance is the same under other names. -/
theorem probablyBetter_rename (hσ : Function.Injective σ) (a b : Candidate K) :
    (problem settings).probablyBetter (a.rename σ) (b.rename σ) =
      (problem settings).probablyBetter a b := by
  have hschedule : ((a.rename σ).schedule != (b.rename σ).schedule) =
      (a.schedule != b.schedule) := by
    rw [Bool.eq_iff_iff, bne_iff_ne, bne_iff_ne]
    exact (Schedule.rename_injective hσ).ne_iff
  show UsageOrder.byValue.probablyBetter _ _ _ = UsageOrder.byValue.probablyBetter _ _ _
  unfold UsageOrder.probablyBetter
  rw [hschedule]
  rfl

/-- Under other names, candidates use the same. -/
theorem echoes_of_perm [Scalar.Ordered K] {xs xs' : List (Candidate K)}
    (h : (xs.map (Solution.rename σ)).Perm xs') (hnumbers : ∀ s ∈ xs, s.resources.IsNumber) :
    Echoes xs xs' ∧ Echoes xs' xs := by
  constructor
  · intro s hs
    exact ⟨s.rename σ, h.subset (List.mem_map_of_mem hs), Usage.equals_refl (hnumbers s hs)⟩
  · intro s' hs'
    obtain ⟨s, hs, rfl⟩ := List.mem_map.mp (h.mem_iff.mpr hs')
    exact ⟨s, hs, Usage.equals_refl (hnumbers s hs)⟩

/-- Deduplicated, identified candidates are in strict order. -/
theorem deduplicate_ascending [Scalar.Ordered K] {xs : List (Candidate K)} (h : Identified xs) :
    Ascending (Pruning.deduplicate (problem settings).precedes (problem settings).same xs) := by
  refine (deduplicate_ordered h.determined).imp fun {a b} hab => ?_
  simp only [Solution.precedes, Bool.and_eq_true] at hab
  exact hab.2

namespace TwinRounds

variable [Scalar.Ordered K]

/-- What dominates a child dominates it under its other name. -/
theorem dominated_iff (h : TwinRounds settings modes modes' stepCost σ algorithm f f' r r')
    {c : Candidate K} (hc : c ∈ r.extension.children) :
    (∃ s ∈ f.accepted, (problem settings).strictlyBetter s c = true) ↔
      ∃ s ∈ f'.accepted, (problem settings).strictlyBetter s (c.rename σ) = true := by
  have hc' : c.rename σ ∈ r'.extension.children := h.children.subset (List.mem_map_of_mem hc)
  have hidentified : Identified (c :: f.accepted) :=
    h.identified.mono (List.cons_subset.mpr
      ⟨List.mem_append_left _ hc, List.subset_append_right _ _⟩)
  have hidentified' : Identified (c.rename σ :: f'.accepted) :=
    h.identified'.mono (List.cons_subset.mpr
      ⟨List.mem_append_left _ hc', List.subset_append_right _ _⟩)
  have hlike : Alike c (c.rename σ) := Usage.equals_refl (hidentified.numbers c List.mem_cons_self)
  obtain ⟨hthere, hback⟩ := forall₂_echoes h.before.accepted
  exact ⟨UsageOrder.better_of_echoes hidentified hidentified' h.before.sound.complete
      h.before.sound'.complete hthere hlike,
    UsageOrder.better_of_echoes hidentified' hidentified h.before.sound'.complete
      h.before.sound.complete hback (Usage.equals_symm hlike)⟩

/-- A child survives under both names or under none. -/
theorem surviving (h : TwinRounds settings modes modes' stepCost σ algorithm f f' r r') :
    (r.surviving.map (Solution.rename σ)).Perm r'.surviving := by
  rw [h.proceeds.surviving, h.proceeds'.surviving]
  refine filter_perm h.children fun c hc => ?_
  have hany : (f'.accepted.any fun s => (problem settings).strictlyBetter s (c.rename σ)) =
      f.accepted.any fun s => (problem settings).strictlyBetter s c := by
    rw [Bool.eq_iff_iff, List.any_eq_true, List.any_eq_true]
    exact (h.dominated_iff hc).symm
  rw [hany]

theorem complete (h : TwinRounds settings modes modes' stepCost σ algorithm f f' r r') :
    (r.complete.map (Solution.rename σ)).Perm r'.complete := by
  rw [h.proceeds.complete, h.proceeds'.complete]
  exact filter_perm h.surviving fun s _ => (problem_local settings).complete_rename s

theorem incomplete (h : TwinRounds settings modes modes' stepCost σ algorithm f f' r r') :
    (r.incomplete.map (Solution.rename σ)).Perm r'.incomplete := by
  rw [h.proceeds.incomplete, h.proceeds'.incomplete]
  refine filter_perm h.surviving fun s _ => ?_
  rw [(problem_local settings).complete_rename s]

/-- The candidates to extend next are the same under other names. -/
theorem partials (hσ : Function.Injective σ)
    (h : TwinRounds settings modes modes' stepCost σ algorithm f f' r r') :
    (r.after.partials.map (Solution.rename σ)).Perm r'.after.partials := by
  rw [h.proceeds.partials, h.proceeds'.partials]
  cases algorithm with
  | exhaustive => exact h.incomplete
  | singleMachine => exact h.incomplete
  | heuristic =>
    refine filter_perm h.incomplete fun s _ => ?_
    rw [← h.incomplete.any_eq, List.any_map]
    simp only [Function.comp_def, probablyBetter_rename hσ]

/-- The accepted candidates use the same, one by one. -/
theorem accepted (h : TwinRounds settings modes modes' stepCost σ algorithm f f' r r') :
    List.Forall₂ Alike r.after.accepted r'.after.accepted := by
  obtain ⟨hmerged, hcomplete⟩ := h.before.sound.merged h.proceeds h.identified
  obtain ⟨hmerged', hcomplete'⟩ := h.before.sound'.merged h.proceeds' h.identified'
  have hempty : r'.complete.isEmpty = r.complete.isEmpty := by
    rw [Bool.eq_iff_iff, List.isEmpty_iff_length_eq_zero, List.isEmpty_iff_length_eq_zero,
      ← h.complete.length_eq, List.length_map]
  rw [h.proceeds.accepted, h.proceeds'.accepted]
  unfold Round.settleAccepted Round.merge
  rw [hempty]
  split
  · exact h.before.accepted
  · -- Each side may keep another one of several schedules with equal usage, but
    -- what one side keeps is echoed by the other, and both sides are in strict order.
    obtain ⟨hthere, hback⟩ := forall₂_echoes h.before.accepted
    obtain ⟨hnew, hnew'⟩ := echoes_of_perm h.complete
      fun s hs => hmerged.numbers s (List.mem_append_right _ hs)
    have hkept := UsageOrder.undominated_echoes hmerged hmerged' hcomplete hcomplete'
      (hthere.append hnew) (hback.append hnew')
    have hkept' := UsageOrder.undominated_echoes hmerged' hmerged hcomplete' hcomplete
      (hback.append hnew') (hthere.append hnew)
    exact forall₂_of_echoes (deduplicate_ascending hmerged.undominated)
      (deduplicate_ascending hmerged'.undominated)
      (UsageOrder.deduplicate_echoes hmerged'.undominated hkept)
      (UsageOrder.deduplicate_echoes hmerged.undominated hkept')

/-- A round passes the correspondence on. -/
theorem after (hσ : Function.Injective σ)
    (h : TwinRounds settings modes modes' stepCost σ algorithm f f' r r') :
    Mirrored settings modes modes' stepCost σ r.after r'.after where
  partials := h.partials hσ
  accepted := h.accepted
  sound := h.sound
  sound' := h.sound'

end TwinRounds

end Rate
end ModeSchedule
