/-
ModeSchedule.Proofs.Search.Survival — heuristic pruning at the tapping machine.

Within a tolerance one candidate can be probably better than a second one, this one than a
third, and that one than the first, because less energy counts before less time and
closeness is not transitive. Pruning a list of three such candidates against itself
leaves nothing (`pruning_empties`).

There is no such cycle where candidates at one distance are ordered by one of the two
resources alone: where closeness is transitive among their energies, or where those whose
times are close have used the same time (`pruning_leaves_some`). The second is what a
search sees to. Candidates that it extends side by side have taken equally many steps, so
they have used the same time (`Frontier.Synchronous`), and no round of a search drops all
of its incomplete candidates.
-/
import ModeSchedule.Proofs.Tolerance
import ModeSchedule.Proofs.Search.Sweeps
import ModeSchedule.Proofs.Search.Undominated

namespace ModeSchedule

/-! ## Candidates in order of time -/

namespace UsageOrder

variable {K S : Type} [Scalar K] {distance : Solution K S (Usage K) → K}
  {a b c : Solution K S (Usage K)} {xs : List (Solution K S (Usage K))}

/-- The first candidate is nearer to the target; or is as near and has used less time, or
the same time and less energy. -/
def InOrder (distance : Solution K S (Usage K) → K) (a b : Solution K S (Usage K)) : Prop :=
  distance a < distance b ∨ distance a ≤ distance b ∧
    (a.resources.time < b.resources.time ∨
      a.resources.time = b.resources.time ∧ a.resources.energy < b.resources.energy)

/-- Where close times are the same, probable dominance within the tolerance follows that
order. -/
theorem inOrder_of_better
    (htimes : Usage.close a.resources.time b.resources.time = true →
      a.resources.time = b.resources.time)
    (h : tolerant.probablyBetter distance a b = true) : InOrder distance a b := by
  obtain ⟨-, hdistance, hwithin, hahead⟩ := probablyBetter_iff.mp h
  rcases hahead with hnearer | hless
  · exact Or.inl hnearer
  · refine Or.inr ⟨hdistance, ?_⟩
    rcases Usage.nearlyLess_iff.mp hless with ⟨-, htime⟩ | ⟨-, henergy⟩
    · exact Or.inl htime
    · exact (Usage.nearlyWithin_iff.mp hwithin).2.imp_right fun hclose => ⟨htimes hclose, henergy⟩

variable [Scalar.Ordered K]

theorem InOrder.irrefl (a : Solution K S (Usage K)) : ¬InOrder distance a a := by
  have hlt : ∀ {x : K}, ¬x < x := fun h =>
    (Scalar.Ordered.lt_iff.mp h).2 (Scalar.le_of_lt h)
  rintro (h | ⟨-, h | ⟨-, h⟩⟩) <;> exact hlt h

theorem InOrder.trans (hab : InOrder distance a b) (hbc : InOrder distance b c) :
    InOrder distance a c := by
  rcases hab with hab | ⟨hdab, hab⟩ <;> rcases hbc with hbc | ⟨hdbc, hbc⟩
  · exact Or.inl (Scalar.lt_of_lt_of_le hab (Scalar.le_of_lt hbc))
  · exact Or.inl (Scalar.lt_of_lt_of_le hab hdbc)
  · exact Or.inl (Scalar.lt_of_le_of_lt hdab hbc)
  · refine Or.inr ⟨Scalar.Ordered.le_trans hdab hdbc, ?_⟩
    rcases hab with hab | ⟨htab, hab⟩ <;> rcases hbc with hbc | ⟨htbc, hbc⟩
    · exact Or.inl (Scalar.lt_of_lt_of_le hab (Scalar.le_of_lt hbc))
    · exact Or.inl (htbc ▸ hab)
    · exact Or.inl (htab ▸ hbc)
    · exact Or.inr ⟨htab.trans htbc, Scalar.lt_of_lt_of_le hab (Scalar.le_of_lt hbc)⟩

/-- Probable dominance between candidates that have all used the same time follows that
order. -/
theorem inOrder_descent (htimes : ∀ a ∈ xs, ∀ b ∈ xs, a.resources.time = b.resources.time) :
    Pruning.Descent (tolerant.probablyBetter distance) (InOrder distance) xs where
  contains a ha b hb := inOrder_of_better fun _ => htimes a ha b hb
  irrefl a _ := InOrder.irrefl a
  trans _ _ _ _ _ _ hab hbc := hab.trans hbc

end UsageOrder

/-! ## Candidates at one distance -/

namespace UsageOrder

variable {S : Type} {distance : Solution Rat S (Usage Rat) → Rat}
  {a b c : Solution Rat S (Usage Rat)} {xs : List (Solution Rat S (Usage Rat))}

/-- Among the energies of the members at a distance closeness is transitive. -/
def Tied (distance : Solution Rat S (Usage Rat) → Rat) (xs : List (Solution Rat S (Usage Rat)))
    (d : Rat) : Prop :=
  ∀ a ∈ xs, ∀ b ∈ xs, ∀ c ∈ xs, distance a = d → distance b = d → distance c = d →
    Usage.close a.resources.energy b.resources.energy = true →
      Usage.close b.resources.energy c.resources.energy = true →
        Usage.close a.resources.energy c.resources.energy = true

/-- Members at a distance whose times are close have used the same time. -/
def Apart (distance : Solution Rat S (Usage Rat) → Rat) (xs : List (Solution Rat S (Usage Rat)))
    (d : Rat) : Prop :=
  ∀ a ∈ xs, ∀ b ∈ xs, distance a = d → distance b = d →
    Usage.close a.resources.time b.resources.time = true → a.resources.time = b.resources.time

/-- The first candidate is nearer; or it is as near, and less within the tolerance if
closeness is transitive there, or else in order of time. -/
def Ahead (distance : Solution Rat S (Usage Rat) → Rat) (xs : List (Solution Rat S (Usage Rat)))
    (a b : Solution Rat S (Usage Rat)) : Prop :=
  distance a < distance b ∨ distance a = distance b ∧
    (Tied distance xs (distance a) ∧ Usage.nearlyLess a.resources b.resources = true ∨
      ¬Tied distance xs (distance a) ∧ InOrder distance a b)

theorem ahead_of_better (hclear : ∀ d, Tied distance xs d ∨ Apart distance xs d) (ha : a ∈ xs)
    (hb : b ∈ xs) (h : tolerant.probablyBetter distance a b = true) : Ahead distance xs a b := by
  obtain ⟨-, hle, -, hahead⟩ := probablyBetter_iff.mp h
  rcases hle.lt_or_eq with hlt | heq
  · exact Or.inl hlt
  · refine Or.inr ⟨heq, ?_⟩
    by_cases htied : Tied distance xs (distance a)
    · exact Or.inl ⟨htied, hahead.resolve_left heq.not_lt⟩
    · have hapart := (hclear (distance a)).resolve_left htied
      exact Or.inr ⟨htied, inOrder_of_better (hapart a ha b hb rfl heq.symm) h⟩

theorem Ahead.irrefl (a : Solution Rat S (Usage Rat)) : ¬Ahead distance xs a a := by
  rintro (h | ⟨-, ⟨-, h⟩ | ⟨-, h⟩⟩)
  · exact lt_irrefl _ h
  · exact Usage.nearlyLess_irrefl _ h
  · exact InOrder.irrefl a h

theorem Ahead.trans (ha : a ∈ xs) (hb : b ∈ xs) (hc : c ∈ xs) (hab : Ahead distance xs a b)
    (hbc : Ahead distance xs b c) : Ahead distance xs a c := by
  rcases hab with hab | ⟨hdab, hab⟩ <;> rcases hbc with hbc | ⟨hdbc, hbc⟩
  · exact Or.inl (hab.trans hbc)
  · exact Or.inl (hab.trans_eq hdbc)
  · exact Or.inl (hdab.trans_lt hbc)
  · refine Or.inr ⟨hdab.trans hdbc, ?_⟩
    rw [← hdab] at hbc
    rcases hab with ⟨htied, hab⟩ | ⟨htied, hab⟩
    · -- All three are at the distance of the first.
      have hbc := (hbc.resolve_right fun h => h.1 htied).2
      have hdb := hdab.symm
      have hdc := (hdab.trans hdbc).symm
      exact Or.inl ⟨htied, Usage.nearlyLess_trans (htied a ha b hb c hc rfl hdb hdc)
        (htied b hb a ha c hc hdb rfl hdc) (htied a ha c hc b hb rfl hdc hdb) hab hbc⟩
    · have hbc := (hbc.resolve_left fun h => htied h.1).2
      exact Or.inr ⟨htied, hab.trans hbc⟩

/-- Where one or the other is true at every distance, probable dominance follows that. -/
theorem ahead_descent (hclear : ∀ d, Tied distance xs d ∨ Apart distance xs d) :
    Pruning.Descent (tolerant.probablyBetter distance) (Ahead distance xs) xs where
  contains _ ha _ hb := ahead_of_better hclear ha hb
  irrefl a _ := Ahead.irrefl a
  trans _ ha _ hb _ hc := Ahead.trans ha hb hc

end UsageOrder

/-! ## Candidates that a search extends side by side -/

namespace Tapping

variable {K : Type} [Scalar K] {setup : Setup K}
  {move : Linear.Drive K → K → State K → State K}

theorem machine_orderly (setup : Setup K) (move : Linear.Drive K → K → State K → State K) :
    (machine setup move).Orderly where
  complete_agree := by
    intro a b hab
    simp only [machine, UsageOrder.problem, distance, hab.1]
    rfl
  step_schedule _ _ := rfl

/-- Steps that do not complete a candidate take their full length. -/
theorem advance_time {drive : Linear.Drive K} {i n : Nat} {s : Candidate K}
    (h : (Run.advance (machine setup move) drive i n s).completed = false) :
    (Run.advance (machine setup move) drive i n s).solution.resources.time =
      tick setup.timeDelta n s.resources.time := by
  induction n generalizing s with
  | zero => rfl
  | succ n ih =>
    simp only [Run.advance] at h ⊢
    split at h
    · cases h
    · next hcomplete =>
      rw [if_neg hcomplete]
      exact ih h

end Tapping

/-- All candidates to be extended have used the same time. -/
def Frontier.Synchronous {K S : Type} (f : Frontier K S (Usage K)) : Prop :=
  ∀ a ∈ f.partials, ∀ b ∈ f.partials, a.resources.time = b.resources.time

namespace Tapping

variable {K : Type} [Scalar K] {setup : Setup K}
  {move : Linear.Drive K → K → State K → State K}
  {w : Workspace K (State K) (Usage K) (Linear.Drive K)} {stride : Nat}

/-- What a round leaves incomplete has taken all steps of a block, side by side. -/
theorem incomplete_time (hw : w.problem = machine setup move) (hstride : 0 < stride)
    {watch : Option (Stopwatch K)} {f : Frontier K (State K) (Usage K)} {clock : K}
    (hf : f.Synchronous) :
    ∀ a ∈ (Round.perform w .heuristic stride watch f clock).incomplete,
      ∀ b ∈ (Round.perform w .heuristic stride watch f clock).incomplete,
        a.resources.time = b.resources.time := by
  have hproceeds : Round.Proceeds w.problem .heuristic f
      (Round.perform w .heuristic stride watch f clock) := (Round.proceeds_of_free rfl).2
  have hstep : ∀ a ∈ (Round.perform w .heuristic stride watch f clock).incomplete,
      ∃ s ∈ f.partials, a.resources.time = tick setup.timeDelta stride s.resources.time := by
    intro a ha
    obtain ⟨hsurviving, hincomplete⟩ := hproceeds.mem_incomplete.mp ha
    have hchild := hproceeds.surviving_subset hsurviving
    rw [Round.perform_extension] at hchild
    obtain ⟨s, hs, i, m, hm, rfl⟩ := Extension.exists_parent hchild
    rw [hw] at hincomplete ⊢
    rw [Run.advance_complete (machine_orderly setup move) hm hstride] at hincomplete
    exact ⟨s, hs, advance_time hincomplete⟩
  intro a ha b hb
  obtain ⟨s, hs, has⟩ := hstep a ha
  obtain ⟨t, ht, hbt⟩ := hstep b hb
  rw [has, hbt, hf s hs t ht]

/-- Every round of a level extends candidates that have used the same time. -/
theorem level_synchronous (hw : w.problem = machine setup move) {resolution : Resolution K}
    (hstride : 0 < resolution.stride) {watch : Stopwatch K} {accepted : List (Candidate K)}
    {clock : K} {r : Round K (State K) (Usage K)}
    (hr : r ∈ (Level.perform w .heuristic resolution watch accepted clock).rounds) :
    r.before.Synchronous ∧ ∃ now,
      r = Round.perform w .heuristic resolution.stride (some watch) r.before now := by
  have hstart : (Level.startFrontier w accepted).Synchronous := by
    intro a ha b hb
    obtain ⟨i, -, rfl⟩ := List.mem_map.mp ha
    obtain ⟨j, -, rfl⟩ := List.mem_map.mp hb
    rfl
  have hstep : ∀ (j : Nat) (g : Frontier K (State K) (Usage K)) (now : K), g.Synchronous →
      (Round.perform w .heuristic resolution.stride (some watch) g now).after.Synchronous := by
    intro _ g now hg a ha b hb
    rw [(Round.proceeds_of_free rfl).2.partials] at ha hb
    exact incomplete_time hw hstride hg a (Round.mem_keepPartials ha) b (Round.mem_keepPartials hb)
  obtain ⟨i, hi⟩ := List.getElem?_of_mem hr
  refine ⟨?_, (Level.mem_runRounds hr).2⟩
  exact Level.runRounds_before (fun _ f => f.Synchronous) hstep _ (k := 0) hstart i r hi

end Tapping

/-- **Heuristic pruning does not wipe out a search with the tapping machine.**

Over exact numbers, let a list be given in which, at every distance, closeness is
transitive among the energies, or members whose times are close have used the same time.
Unless it is empty, something is left of it when it is pruned against itself; and it has no
members that are probably better than each other in a circle.

Over numbers that compare as doubles do, every round of a search with the heuristic
algorithm compares incomplete candidates that have used the same time, and leaves some of
them to be extended if there are any. -/
theorem pruning_leaves_some :
    (∀ (setup : Tapping.Setup Rat)
        (move : Linear.Drive Rat → Rat → Tapping.State Rat → Tapping.State Rat)
        (xs : List (Tapping.Candidate Rat)),
      (∀ s ∈ xs, s.state.misfit? = none) →
      (∀ d, UsageOrder.Tied (Tapping.distance setup) xs d ∨
        UsageOrder.Apart (Tapping.distance setup) xs d) →
      (xs ≠ [] → ∃ kept, Search.prune (some (Tapping.machine setup move)) .heuristic (.list xs) xs =
        .ok kept ∧ kept ≠ []) ∧
      ∀ x ∈ xs, ∀ rest ⊆ xs,
        ¬Pruning.Cycle (Tapping.machine setup move).probablyBetter x rest) ∧
    ∀ (K : Type) [Scalar K] [Scalar.Ordered K] (setup : Tapping.Setup K)
      (move : Linear.Drive K → K → Tapping.State K → Tapping.State K)
      (modes : List (Mode (Linear.Drive K))) (stepCost : K) (levels : Given K) (script : Script K)
      (clock : K) (sweep : Sweep K (Tapping.State K) (Usage K)),
      Search.scriptedSweep (some (Tapping.machine setup move)) modes stepCost .heuristic levels
        script clock = .ok sweep →
      ∀ stage ∈ sweep.stages, ∀ r ∈ stage.level.rounds,
        (∀ a ∈ r.incomplete, ∀ b ∈ r.incomplete, a.resources.time = b.resources.time) ∧
        (r.incomplete ≠ [] → r.after.partials ≠ []) := by
  constructor
  · intro setup move xs hmeasured hclear
    have hdescent := UsageOrder.ahead_descent hclear
    exact ⟨fun hne => ⟨_, Search.prune_list hmeasured, hdescent.undominatedBy_ne_nil hne⟩,
      fun x hx rest hrest => hdescent.not_cycle hx hrest⟩
  · intro K _ _ setup move modes stepCost levels script clock sweep hsweep stage hstage r hr
    obtain ⟨plan, hplan, rfl, -, -⟩ := Search.exists_plan_of_sweep hsweep
    have hstride := Sweep.stride_pos hplan stage hstage
    obtain ⟨accepted, watch, began, hlevel⟩ := Sweep.exists_performed hstage
    rw [hlevel] at hr
    obtain ⟨hsynchronous, now, hround⟩ := Tapping.level_synchronous rfl hstride hr
    have htimes : ∀ a ∈ r.incomplete, ∀ b ∈ r.incomplete,
        a.resources.time = b.resources.time := by
      rw [hround]
      exact Tapping.incomplete_time rfl hstride hsynchronous
    refine ⟨htimes, fun hne => ?_⟩
    have hpartials : r.after.partials =
        Round.keepPartials (Tapping.machine setup move) .heuristic r.incomplete := by
      rw [hround]
      exact (Round.proceeds_of_free rfl).2.partials
    rw [hpartials]
    exact (UsageOrder.inOrder_descent htimes).undominatedBy_ne_nil hne

namespace Tapping

/-- Half a unit of depth still to be tapped counts as none. -/
def sampleSetup : Setup Rat :=
  { initialState := .vector [0, 0, 0], targetState := .vector [0, 0, 2], timeDelta := 1
    timeMax := 1, threshold := 1 / 2 }

/-- A drive of one volt that taps a unit at a step, and raises the current by a given one. -/
def sampleDrive (current : Rat) : Linear.Drive Rat :=
  { system := .observed 3 (Linear.Matrix.identity 3) [[0], [current], [1]], input := [1] }

def sampleModes : List (Mode (Linear.Drive Rat)) := [⟨0, sampleDrive 1⟩, ⟨1, sampleDrive 2⟩]

/-- A candidate at the depth of one unit that has used a given energy and time. -/
def tapped (mode : Nat) (energy time : Rat) : Candidate Rat :=
  { schedule := [⟨mode, 1⟩], state := .vector [0, 0, 1], resources := ⟨energy, time⟩
    distance := none }

end Tapping

/-- Of four candidates that the only round leaves incomplete two are pruned. -/
theorem Tapping.sample_search : ∃ sweep,
    Search.scriptedSweep (some (Tapping.discrete Tapping.sampleSetup)) Tapping.sampleModes 0
      .heuristic (.whole 1) (.steady [] 0) 0 = .ok sweep ∧
    (sweep.stages.map fun stage => stage.level.rounds.map fun r =>
      (r.incomplete.length, r.after.partials.length)) = [[(4, 2)]] := by
  refine Granted.map.mp ?_
  cbv

theorem pruning_leaves_some_sample :
    (∃ kept, Search.prune (some (Tapping.discrete Tapping.sampleSetup)) .heuristic
        (.list [Tapping.tapped 0 1 1, Tapping.tapped 1 2 1])
        [Tapping.tapped 0 1 1, Tapping.tapped 1 2 1] = .ok kept ∧ kept ≠ []) ∧
    ∃ sweep, Search.scriptedSweep (some (Tapping.discrete Tapping.sampleSetup))
        Tapping.sampleModes 0 .heuristic (.whole 1) (.steady [] 0) 0 = .ok sweep ∧
      (sweep.stages.map fun stage => stage.level.rounds.map fun r =>
        (r.incomplete.length, r.after.partials.length)) = [[(4, 2)]] ∧
      ∀ stage ∈ sweep.stages, ∀ r ∈ stage.level.rounds,
        r.incomplete ≠ [] → r.after.partials ≠ [] := by
  have hapart : ∀ d, UsageOrder.Apart (Tapping.distance Tapping.sampleSetup)
      [Tapping.tapped 0 1 1, Tapping.tapped 1 2 1] d := by
    intro d a ha b hb _ _ _
    simp only [List.mem_cons, List.not_mem_nil, or_false] at ha hb
    rcases ha with rfl | rfl <;> rcases hb with rfl | rfl <;> rfl
  have hmeasured : ∀ s ∈ [Tapping.tapped 0 1 1, Tapping.tapped 1 2 1],
      s.state.misfit? = none := by
    simp [Tapping.tapped, Tapping.State.misfit?]
  obtain ⟨sweep, hsweep, hlengths⟩ := Tapping.sample_search
  refine ⟨(pruning_leaves_some.1 Tapping.sampleSetup _ _ hmeasured fun d => Or.inr (hapart d)).1
    (List.cons_ne_nil _ _), sweep, hsweep, hlengths, fun stage hstage r hr => ?_⟩
  exact (pruning_leaves_some.2 Rat Tapping.sampleSetup _ Tapping.sampleModes 0 (.whole 1)
    (.steady [] 0) 0 sweep hsweep stage hstage r hr).2

/-- Three candidates at one distance: from each to the next the energy grows clearly or the
time grows, and so it does from the last to the first. -/
def Tapping.circle : List (Tapping.Candidate Rat) :=
  [Tapping.tapped 0 1000000 (1000 + 8 / 10 ^ 7), Tapping.tapped 1 (1000000 + 15 / 10 ^ 4) 1000,
   Tapping.tapped 2 (1000000 + 75 / 10 ^ 5) (1000 + 4 / 10 ^ 7)]

/-- Not every list keeps something: of three candidates in a circle pruning leaves
nothing. -/
theorem pruning_empties :
    ¬∀ (setup : Tapping.Setup Rat)
        (move : Linear.Drive Rat → Rat → Tapping.State Rat → Tapping.State Rat)
        (xs : List (Tapping.Candidate Rat)), (∀ s ∈ xs, s.state.misfit? = none) → xs ≠ [] →
      ∃ kept, Search.prune (some (Tapping.machine setup move)) .heuristic (.list xs) xs =
        .ok kept ∧ kept ≠ [] := by
  intro hall
  have hmeasured : ∀ s ∈ Tapping.circle, s.state.misfit? = none := by
    simp [Tapping.circle, Tapping.tapped, Tapping.State.misfit?]
  obtain ⟨kept, hprune, hne⟩ := hall Tapping.sampleSetup (fun _ _ => id) Tapping.circle hmeasured
    (List.cons_ne_nil _ _)
  rw [Search.prune_list hmeasured] at hprune
  have hempty : (Pruning.undominatedBy (Algorithm.better (Tapping.machine Tapping.sampleSetup
      fun _ _ => id) .heuristic) Tapping.circle Tapping.circle).isEmpty = true := by
    decide +kernel
  exact hne ((Except.ok.inj hprune).symm.trans (List.isEmpty_iff.mp hempty))

end ModeSchedule
