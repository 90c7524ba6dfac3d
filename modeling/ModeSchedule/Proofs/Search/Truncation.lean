/-
ModeSchedule.Proofs.Search.Truncation — a timeout only truncates.

Two sweeps without pauses run side by side, one under a stopwatch with a limit
and one under a stopwatch without. Their clocks tick alike, and the limit is
read in three places: after each extended candidate, after each round and after
each level. Whichever reading finds the limit reached first, no time passes from
there to the end of the level, so the readings that follow find it reached too:

* an extension is the same, or it made the first ones of the other's children
  and the limit is reached (`Extension.grow_cases`),
* the rounds of a level are those of the other up to one that ends with the
  limit reached (`Level.runRounds_truncates`),
* the levels of a sweep are those of the other up to one that ends with the
  limit reached (`Sweep.runStages_truncates`).

`timeout_truncates` reads off what that means for the outcome.
-/
import ModeSchedule.Proofs.Timekeeping
import ModeSchedule.Proofs.Search.Limits
import ModeSchedule.Proofs.Search.Replay

namespace ModeSchedule

/-! ## Lists that break off -/

/-- The first list goes along with the second one, but may break off: its last
member is then a stump of the member it stands beside. -/
inductive Truncates {α : Type} (Same Stump : α → α → Prop) : List α → List α → Prop
  | nil : Truncates Same Stump [] []
  | cut {x y : α} {later : List α} : Stump x y → Truncates Same Stump [x] (y :: later)
  | cons {x y : α} {xs ys : List α} :
      Same x y → Truncates Same Stump xs ys → Truncates Same Stump (x :: xs) (y :: ys)

namespace Truncates

variable {α β : Type} {Same Stump : α → α → Prop} {xs ys : List α}

theorem exists_beside (h : Truncates Same Stump xs ys) {i : Nat} {x : α} (hx : xs[i]? = some x) :
    ∃ y, ys[i]? = some y ∧ (Same x y ∨ Stump x y) := by
  induction h generalizing i with
  | nil => cases hx
  | cut hstump =>
    cases i with
    | zero =>
      obtain rfl := Option.some.inj hx
      exact ⟨_, rfl, Or.inr hstump⟩
    | succ i => cases hx
  | cons hsame _ ih =>
    cases i with
    | zero =>
      obtain rfl := Option.some.inj hx
      exact ⟨_, rfl, Or.inl hsame⟩
    | succ i => exact ih hx

theorem exists_mem (h : Truncates Same Stump xs ys) {x : α} (hx : x ∈ xs) :
    ∃ y ∈ ys, Same x y ∨ Stump x y := by
  obtain ⟨i, hi⟩ := List.mem_iff_getElem?.mp hx
  obtain ⟨y, hy, hxy⟩ := h.exists_beside hi
  exact ⟨y, List.mem_of_getElem? hy, hxy⟩

/-- Up to the last member, what is the same beside each other is so in turn. -/
theorem dropLast_map (h : Truncates Same Stump xs ys) {f : α → β}
    (hf : ∀ {x y}, Same x y → f x = f y) : xs.dropLast.map f <+: ys.map f := by
  induction h with
  | nil => exact List.nil_prefix
  | cut _ => exact List.nil_prefix
  | @cons x y xs ys hsame hrest ih =>
    cases xs with
    | nil => exact List.nil_prefix
    | cons x' xs =>
      rw [List.dropLast_cons_cons, List.map_cons, List.map_cons, hf hsame]
      exact (List.prefix_cons_inj (f y)).mpr ih

/-- Lists that go along by equality are equal, unless the first one ends with a
stump. -/
theorem eq_or_stump (h : Truncates Eq Stump xs ys) :
    xs = ys ∨ ∃ x ∈ xs.getLast?, ∃ y ∈ ys, Stump x y := by
  induction h with
  | nil => exact Or.inl rfl
  | cut hstump => exact Or.inr ⟨_, rfl, _, List.mem_cons_self, hstump⟩
  | @cons x y xs ys hsame hrest ih =>
    rcases ih with rfl | ⟨x', hx', y', hy', hstump⟩
    · exact Or.inl (by rw [hsame])
    · refine Or.inr ⟨x', ?_, y', List.mem_cons_of_mem y hy', hstump⟩
      rw [List.getLast?_cons, Option.mem_def.mp hx']
      rfl

end Truncates

variable {K S R A : Type} [Scalar K] {w : Workspace K S R A} {algorithm : Algorithm}
  {watch unlimited : Stopwatch K} {clock : K}

/-! ## Extensions and rounds -/

/-- A limit leaves an extension as it is, or cuts it short at a reading that finds
the limit reached. -/
theorem Extension.grow_cases (hunlimited : unlimited.limit = none) (w : Workspace K S R A)
    (switching : Switching) (stride : Nat) (watch : Stopwatch K) (partials : List (Solution K S R))
    (clock : K) :
    grow w switching stride (some watch) partials clock =
        grow w switching stride (some unlimited) partials clock ∨
      (grow w switching stride (some watch) partials clock).ending = .expired ∧
        watch.expired (grow w switching stride (some watch) partials clock).clock = true ∧
        (grow w switching stride (some watch) partials clock).children <+:
          (grow w switching stride (some unlimited) partials clock).children := by
  induction partials generalizing clock with
  | nil => exact Or.inl rfl
  | cons s rest ih =>
    simp only [grow, Option.any_some, Stopwatch.expired_eq_false hunlimited, Bool.false_eq_true,
      if_false]
    cases switching.candidates w.modes.length s.schedule with
    | error cause => exact Or.inl rfl
    | ok modes =>
      dsimp only
      split
      · next hexpired => exact Or.inr ⟨rfl, hexpired, List.prefix_append _ _⟩
      · rcases ih (tick w.stepCost (cost (branch w stride s modes)) clock) with
          hsame | ⟨hending, hexpired, hchildren⟩
        · exact Or.inl (by rw [hsame])
        · exact Or.inr ⟨hending, hexpired, (List.prefix_append_right_inj _).mpr hchildren⟩

omit [Scalar K] in
/-- With fewer children nothing else is compared. -/
theorem Round.compared_subset {r full : Round K S R} (hbefore : r.before = full.before)
    (hchildren : r.extension.children <+: full.extension.children) :
    r.compared ⊆ full.compared := by
  obtain ⟨others, hothers⟩ := hchildren
  unfold compared
  rw [← hothers, hbefore]
  cases r.extension.children with
  | nil => exact List.nil_subset _
  | cons child children =>
    exact List.append_subset.mpr
      ⟨fun s hs => List.mem_append_left _ (List.mem_append_left _ hs), List.subset_append_right _ _⟩

/-- A round that ends with the limit reached, beside the same round without a
limit. -/
structure Round.CutShort (watch : Stopwatch K) (r full : Round K S R) : Prop where
  expired : watch.expired r.clock = true
  succeeds : r.failure? = none
  compared : r.compared ⊆ full.compared

theorem Round.perform_cutShort (hunlimited : unlimited.limit = none) (w : Workspace K S R A)
    (algorithm : Algorithm) (stride : Nat) (watch : Stopwatch K) (f : Frontier K S R) (clock : K) :
    perform w algorithm stride (some watch) f clock =
        perform w algorithm stride (some unlimited) f clock ∨
      CutShort watch (perform w algorithm stride (some watch) f clock)
        (perform w algorithm stride (some unlimited) f clock) := by
  rcases Extension.grow_cases hunlimited w algorithm.switching stride watch f.partials clock with
    hsame | ⟨hending, hexpired, hchildren⟩
  · exact Or.inl (by rw [perform_eq, perform_eq, hsame])
  · refine Or.inr ⟨?_, ?_, ?_⟩
    · rwa [Round.clock, perform_extension]
    · rw [failure?, perform_extension, hending]
    · exact compared_subset (by rw [perform_before, perform_before])
        (by rwa [perform_extension, perform_extension])

/-! ## Levels -/

namespace Level

/-- The rounds of a level up to the one that ends with the limit reached are those
of the level without a limit. -/
theorem runRounds_truncates (hunlimited : unlimited.limit = none) (w : Workspace K S R A)
    (algorithm : Algorithm) (stride : Nat) (watch : Stopwatch K) (n : Nat) (f : Frontier K S R)
    (clock : K) :
    Truncates Eq (Round.CutShort watch) (runRounds w algorithm stride watch n f clock)
      (runRounds w algorithm stride unlimited n f clock) := by
  induction n generalizing f clock with
  | zero => exact .nil
  | succ n ih =>
    by_cases hempty : f.partials = []
    · rw [runRounds_empty hempty, runRounds_empty hempty]
      exact .nil
    · obtain ⟨r, later, hcons, hr, hlater⟩ := runRounds_cons w algorithm stride watch n clock hempty
      obtain ⟨full, fullLater, hfullCons, hfull, hfullLater⟩ :=
        runRounds_cons w algorithm stride unlimited n clock hempty
      have hcases := Round.perform_cutShort hunlimited w algorithm stride watch f clock
      rw [← hr, ← hfull] at hcases
      rw [hcons, hfullCons]
      simp only [Stopwatch.expired_eq_false hunlimited, Bool.or_false] at hfullLater
      rcases hcases with rfl | hcut
      · rcases hlater with ⟨hends, rfl⟩ | ⟨hgoes, rfl⟩
        · rcases hfullLater with ⟨-, rfl⟩ | ⟨hsucceeds, rfl⟩
          · exact .cons rfl .nil
          · -- The round is the same, but only the limit ends the level.
            rw [hsucceeds, Bool.false_or] at hends
            exact .cut ⟨hends, by simpa using hsucceeds, List.Subset.refl _⟩
        · rcases hfullLater with ⟨hfails, -⟩ | ⟨-, rfl⟩
          · rw [hfails] at hgoes
            cases hgoes
          · exact .cons rfl (ih r.after r.clock)
      · rcases hlater with ⟨-, rfl⟩ | ⟨hgoes, -⟩
        · exact .cut hcut
        · rw [hcut.expired, Bool.or_true] at hgoes
          cases hgoes

/-- A limit makes no level fail, and nothing else is compared under it. -/
theorem Sound.of_truncates {P : Problem K S R A} {l full : Level K S R} (hfull : full.Sound P)
    (h : Truncates Eq (Round.CutShort watch) l.rounds full.rounds) :
    l.Sound P := by
  constructor
  case succeeds =>
    rcases h.eq_or_stump with hsame | ⟨r, hr, _, -, hcut⟩
    · rw [failure?, hsame]
      exact hfull.succeeds
    · rw [failure?, Option.mem_def.mp hr]
      exact hcut.succeeds
  case measured =>
    intro s hs
    obtain ⟨r, hr, hs⟩ := List.mem_flatMap.mp hs
    obtain ⟨full, hmem, rfl | hcut⟩ := h.exists_mem hr
    · exact hfull.measured s (List.mem_flatMap.mpr ⟨r, hmem, hs⟩)
    · exact hfull.measured s (List.mem_flatMap.mpr ⟨full, hmem, hcut.compared hs⟩)

variable (hunlimited : unlimited.limit = none) (w : Workspace K S R A) (algorithm : Algorithm)
  (resolution : Resolution K) (watch : Stopwatch K) (accepted : List (Solution K S R)) (clock : K)

include hunlimited

theorem perform_truncates :
    Truncates Eq (Round.CutShort watch)
      (perform w algorithm resolution watch accepted clock).rounds
      (perform w algorithm resolution unlimited accepted clock).rounds :=
  runRounds_truncates hunlimited w algorithm resolution.stride watch resolution.blocks
    (startFrontier w accepted) clock

/-- A level that does not end with the limit reached is the same without a limit. -/
theorem perform_eq_of_not_expired
    (hexpired : watch.expired (perform w algorithm resolution watch accepted clock).clock = false) :
    perform w algorithm resolution watch accepted clock =
      { perform w algorithm resolution unlimited accepted clock with watch } := by
  rcases (perform_truncates hunlimited w algorithm resolution watch accepted clock).eq_or_stump with
    hsame | ⟨r, hr, _, -, hcut⟩
  · simp only [perform] at hsame ⊢
    rw [hsame]
  · rw [Level.clock, Option.mem_def.mp hr, hcut.expired] at hexpired
    cases hexpired

end Level

/-! ## Sweeps -/

/-- A stage that is the same but for the limit. -/
structure Stage.Matches (stage full : Stage K S R) : Prop where
  front : stage.level.front = full.level.front
  rounds : stage.level.rounds = full.level.rounds
  clock : stage.clock = full.clock
  last : stage.last = full.last

/-- A level that ends with the limit reached, beside the same level without a
limit. -/
structure Stage.CutShort (stage full : Stage K S R) : Prop where
  expired : stage.expired = true
  rounds : Truncates Eq (Round.CutShort stage.level.watch) stage.level.rounds full.level.rounds

section

variable {P : Problem K S R A} {stage full : Stage K S R}

theorem Stage.Matches.sound (h : stage.Matches full) (hfull : full.level.Sound P) :
    stage.level.Sound P := by
  constructor
  case succeeds =>
    rw [Level.failure?, h.rounds]
    exact hfull.succeeds
  case measured =>
    rw [Level.compared, h.rounds]
    exact hfull.measured

theorem Stage.CutShort.sound (h : stage.CutShort full) (hfull : full.level.Sound P) :
    stage.level.Sound P :=
  hfull.of_truncates h.rounds

end

namespace Sweep

/-- A stage ends with the limit reached, or it is the same without a limit. -/
theorem conclude_cutShort (hunlimited : unlimited.limit = none) (w : Workspace K S R A)
    (algorithm : Algorithm) (resolution : Resolution K) (accepted : List (Solution K S R))
    (script : Script K) (watch : Stopwatch K) (clock : K) :
    (conclude false script (Level.perform w algorithm resolution watch accepted clock)).CutShort
        (conclude false script (Level.perform w algorithm resolution unlimited accepted clock)) ∨
      (conclude false script (Level.perform w algorithm resolution watch accepted clock)).Matches
        (conclude false script
          (Level.perform w algorithm resolution unlimited accepted clock)) := by
  cases hexpired : watch.expired
      (Level.perform w algorithm resolution watch accepted clock).clock with
  | true =>
    exact Or.inl
      ⟨hexpired, Level.perform_truncates hunlimited w algorithm resolution watch accepted clock⟩
  | false =>
    have hsame := Level.perform_eq_of_not_expired hunlimited w algorithm resolution watch accepted
      clock hexpired
    refine Or.inr ?_
    constructor
    case last =>
      have hstage : (conclude false script
          (Level.perform w algorithm resolution watch accepted clock)).expired = false := hexpired
      have hfull : (conclude false script
          (Level.perform w algorithm resolution unlimited accepted clock)).expired = false :=
        Stopwatch.expired_eq_false hunlimited
      rw [Stage.last, Stage.last, hstage, hfull, hsame]
      rfl
    all_goals
      rw [hsame]
      rfl

/-- The levels of a sweep up to the one that ends with the limit reached are those
of the sweep without a limit. -/
theorem runStages_truncates (hunlimited : unlimited.limit = none) (w : Workspace K S R A)
    (algorithm : Algorithm) (plan : List (Resolution K)) (accepted : List (Solution K S R))
    (script : Script K) (watch : Stopwatch K) (clock : K) :
    Truncates Stage.Matches Stage.CutShort
      (runStages w algorithm plan accepted false script watch clock)
      (runStages w algorithm plan accepted false script unlimited clock) := by
  induction plan generalizing accepted clock with
  | nil => exact .nil
  | cons resolution plan ih =>
    obtain ⟨first, later, hcons, hfirst, hlater⟩ :=
      runStages_cons_unpaused w algorithm resolution plan accepted script watch clock
    obtain ⟨full, fullLater, hfullCons, hfull, hfullLater⟩ :=
      runStages_cons_unpaused w algorithm resolution plan accepted script unlimited clock
    have hcases := conclude_cutShort hunlimited w algorithm resolution accepted script watch clock
    rw [← hfirst, ← hfull] at hcases
    rw [hcons, hfullCons]
    rcases hcases with hcut | hmatches
    · rcases hlater with ⟨-, rfl⟩ | ⟨hgoes, -⟩
      · exact .cut hcut
      · simp [Stage.last, hcut.expired] at hgoes
    · rcases hlater with ⟨hends, rfl⟩ | ⟨hgoes, rfl⟩
      · rcases hfullLater with ⟨-, rfl⟩ | ⟨hfullGoes, -⟩
        · exact .cons hmatches .nil
        · rw [hmatches.last, hfullGoes] at hends
          cases hends
      · rcases hfullLater with ⟨hfullEnds, -⟩ | ⟨-, rfl⟩
        · rw [hmatches.last, hfullEnds] at hgoes
          cases hgoes
        · have haccepted : first.level.final.accepted = full.level.final.accepted :=
            congrArg Front.solutions hmatches.front
          rw [hmatches.clock, haccepted]
          exact .cons hmatches (ih full.level.final.accepted full.clock)

/-- What a sweep with a limit has in common with one without. -/
structure Cuts (timed untimed : Sweep K S R) : Prop where
  /-- All levels but the last one return what they return without a limit. -/
  fronts : (timed.stages.dropLast.map fun stage => stage.level.front) <+:
    untimed.stages.map fun stage => stage.level.front
  /-- The outcome is a part of the other from its beginning on, followed by the
  front of the last level or by nothing. -/
  outcome : ∃ found, found <+: untimed.outcome ∧
    (timed.outcome = found ∨
      ∃ last ∈ timed.stages.getLast?, timed.outcome = found ++ [last.level.front])
  /-- A round that ends before the limit is reached is the same round of the same
  level. -/
  rounds : ∀ (i : Nat) stage, timed.stages[i]? = some stage →
    ∃ full, untimed.stages[i]? = some full ∧
      ∀ (k : Nat) r, stage.level.rounds[k]? = some r →
        stage.level.watch.expired r.clock = false → full.level.rounds[k]? = some r

/-- The last level adds one front to the outcome of the others, or none. -/
theorem outcome_dropLast (sweep : Sweep K S R) :
    sweep.outcome = (sweep.stages.dropLast.map fun stage => stage.level.front).filter
        (fun front => !front.solutions.isEmpty) ∨
      ∃ last ∈ sweep.stages.getLast?,
        sweep.outcome = (sweep.stages.dropLast.map fun stage => stage.level.front).filter
          (fun front => !front.solutions.isEmpty) ++ [last.level.front] := by
  unfold outcome
  rcases List.eq_nil_or_concat sweep.stages with hnil | ⟨early, last, hlast⟩
  · exact Or.inl (by rw [hnil]; rfl)
  · rw [List.concat_eq_append] at hlast
    rw [hlast, List.dropLast_concat, List.getLast?_concat, List.map_append, List.filter_append]
    cases hempty : last.level.front.solutions.isEmpty with
    | true => exact Or.inl (by simp [hempty])
    | false => exact Or.inr ⟨last, rfl, by simp [hempty]⟩

theorem cuts_of_truncates {timed untimed : Sweep K S R}
    (h : Truncates Stage.Matches Stage.CutShort timed.stages untimed.stages) :
    timed.Cuts untimed := by
  have hfronts := h.dropLast_map (f := fun stage => stage.level.front)
    fun hmatches => Stage.Matches.front hmatches
  constructor
  case fronts => exact hfronts
  case outcome => exact ⟨_, hfronts.filter _, timed.outcome_dropLast⟩
  case rounds =>
    intro i stage hstage
    obtain ⟨full, hfull, hmatches | hcut⟩ := h.exists_beside hstage
    · exact ⟨full, hfull, fun k r hr _ => by rwa [← hmatches.rounds]⟩
    · refine ⟨full, hfull, fun k r hr hexpired => ?_⟩
      obtain ⟨r', hr', rfl | hround⟩ := hcut.rounds.exists_beside hr
      · exact hr'
      · rw [hround.expired] at hexpired
        cases hexpired

end Sweep

/-- **A timeout only truncates.** Without pauses, a search with a timeout performs
levels up to the first that ends with the timeout reached, or else all of them.
Where the search without timeout is granted, so is the one with it, and what it
finds is part of what the other finds, but for the last front. -/
theorem timeout_truncates (P : Problem K S R A) (modes : List (Mode A)) (stepCost : K)
    (algorithm : Algorithm) (levels : Given K) (timeout : Option K) (script : Script K)
    (clock : K) :
    (∀ timed, Search.scriptedSweep (some (P.governed timeout false)) modes stepCost algorithm
        levels script clock = .ok timed →
      ∃ strides, algorithm.strides? levels = .ok strides ∧
        (timed.stages.map fun stage => stage.level.front.stride) <+: strides ∧
        timed.stages.length = (timed.stages.findIdx? Stage.expired).elim strides.length (· + 1)) ∧
    ∀ untimed, Search.scriptedSweep (some (P.governed none false)) modes stepCost algorithm
        levels script clock = .ok untimed →
      ∃ timed, Search.scriptedSweep (some (P.governed timeout false)) modes stepCost algorithm
        levels script clock = .ok timed ∧ timed.Cuts untimed := by
  constructor
  · intro timed h
    obtain ⟨strides, plan, hplanned, hstages, hsound⟩ := Search.exists_plan_of_governed h
    refine ⟨strides, hplanned.strides_granted, ?_, ?_⟩
    · rw [hstages]
      exact hplanned.strides_initial Sweep.runStages_initial
    · -- Nobody asks to quit and no level fails, so only the timeout ends the search early.
      have hends : ∀ stage ∈ timed.stages, stage.last = stage.expired := by
        intro stage hstage
        rw [Stage.last_of_sound (hsound stage hstage),
          Sweep.runStages_quit stage (hstages ▸ hstage), Bool.false_or]
      rw [hstages] at hends ⊢
      rw [Sweep.length_runStages hends, hplanned.length_eq]
  · intro untimed h
    obtain ⟨strides, plan, hplanned, hstages, hsound⟩ := Search.exists_plan_of_governed h
    have hunlimited : (Stopwatch.started none clock).limit = none := rfl
    have htruncates := Sweep.runStages_truncates hunlimited ⟨P, modes, stepCost⟩ algorithm plan []
      script (Stopwatch.started timeout clock) clock
    have htimedSound : ∀ stage ∈ Sweep.runStages ⟨P, modes, stepCost⟩ algorithm plan [] false script
        (Stopwatch.started timeout clock) clock, stage.level.Sound P := by
      intro stage hstage
      obtain ⟨full, hfull, hbeside⟩ := htruncates.exists_mem hstage
      exact hbeside.elim Stage.Matches.sound Stage.CutShort.sound (hsound full (hstages ▸ hfull))
    obtain ⟨timed, htimed, htimedStages⟩ := Search.exists_governed hplanned htimedSound
    refine ⟨timed, htimed, Sweep.cuts_of_truncates ?_⟩
    rwa [htimedStages, hstages]

/-- The schedules in each front, and how many children each round of each level has. -/
def Sweep.digest (sweep : Sweep K S R) : List (List Schedule) × List (List Nat) :=
  (sweep.outcome.map fun front => front.solutions.map Solution.schedule,
    sweep.stages.map fun stage => stage.level.rounds.map fun r => r.extension.children.length)

/-- One tick a step: the limit is reached in the second round of the second level, after the
first of four candidates has been extended. Two of eight children are made, and one of the two
schedules of the last front is found. -/
theorem timeout_truncates_sample : ∃ untimed timed,
    Search.scriptedSweep (some ((Rate.problem Rate.sampleSettings).governed none false))
      Rate.sampleModes 1 .exhaustive (.whole 2) (.steady [] 0) 0 = .ok untimed ∧
    Search.scriptedSweep (some ((Rate.problem Rate.sampleSettings).governed (some 13) false))
      Rate.sampleModes 1 .exhaustive (.whole 2) (.steady [] 0) 0 = .ok timed ∧
    untimed.digest =
      ([[[⟨0, 2⟩]], [[⟨1, 1⟩, ⟨0, 1⟩], [⟨0, 1⟩, ⟨1, 1⟩]]], [[4], [4, 8]]) ∧
    timed.digest = ([[[⟨0, 2⟩]], [[⟨0, 1⟩, ⟨1, 1⟩]]], [[4], [4, 2]]) ∧
    timed.stages.length = (timed.stages.findIdx? Stage.expired).elim 2 (· + 1) ∧
    timed.Cuts untimed := by
  have htruncates := timeout_truncates (Rate.problem Rate.sampleSettings) Rate.sampleModes 1
    .exhaustive (.whole 2) (some 13) (.steady [] 0) 0
  have hfound : ∃ untimed, Search.scriptedSweep
        (some ((Rate.problem Rate.sampleSettings).governed none false)) Rate.sampleModes 1
        .exhaustive (.whole 2) (.steady [] 0) 0 = .ok untimed ∧
      untimed.digest =
        ([[[⟨0, 2⟩]], [[⟨1, 1⟩, ⟨0, 1⟩], [⟨0, 1⟩, ⟨1, 1⟩]]], [[4], [4, 8]]) := by
    refine Granted.map.mp ?_
    cbv
  have hcut : (Search.scriptedSweep
        (some ((Rate.problem Rate.sampleSettings).governed (some 13) false)) Rate.sampleModes 1
        .exhaustive (.whole 2) (.steady [] 0) 0).map Sweep.digest =
      .ok ([[[⟨0, 2⟩]], [[⟨0, 1⟩, ⟨1, 1⟩]]], [[4], [4, 2]]) := by
    cbv
  obtain ⟨untimed, huntimed, hfronts⟩ := hfound
  obtain ⟨timed, htimed, hcuts⟩ := htruncates.2 untimed huntimed
  rw [htimed] at hcut
  obtain ⟨strides, hstrides, -, hlength⟩ := htruncates.1 timed htimed
  obtain rfl : strides = [2, 1] := Except.ok.inj (hstrides.symm.trans (by cbv))
  exact ⟨untimed, timed, huntimed, htimed, hfronts, Except.ok.inj hcut, hlength, hcuts⟩

end ModeSchedule
