/-
ModeSchedule.Proofs.Search.Refinement — seeding a level changes nothing.

A sweep hands what a level accepted on to the next one, at half the stride. A
word of long blocks is a word of short ones, and the horizon holds at least twice
as many of these, so all candidates handed on are attainable at the finer stride
as well (`Attainable.refine`).

A front of attainable candidates that covers all of them is determined up to the
choice between equal usages: `ExactFront.usages_eq`. Every level of a sweep ends
with such a front, whether or not it was seeded (`seeding_neutral`).
-/
import ModeSchedule.Proofs.Search.Exhaustive

namespace ModeSchedule

/-- The usages of a list of candidates. -/
def usages {K S : Type} (xs : List (Solution K S (Usage K))) : Set (Usage K) :=
  {u | ∃ s ∈ xs, s.resources = u}

theorem usages_eq_empty {K S : Type} {xs : List (Solution K S (Usage K))} :
    usages xs = ∅ ↔ xs = [] := by
  cases xs with
  | nil => simp [usages]
  | cons s xs =>
    refine iff_of_false (Set.Nonempty.ne_empty ?_) (List.cons_ne_nil s xs)
    exact ⟨s.resources, s, List.mem_cons_self, rfl⟩

namespace Rate

variable {settings : Settings Rat Rat} {modes : List (Mode Rat)} {stepCost : Rat}
  {stride : Nat} {xs ys : List (Candidate Rat)}

/-! ## Attainable candidates -/

/-- The outcome of a completing word of blocks within the horizon. -/
def Attainable (settings : Settings Rat Rat) (modes : List (Mode Rat)) (stride : Nat)
    (s : Candidate Rat) : Prop :=
  ∃ word, word.length ≤ blockCount settings stride ∧
    Completes (problem settings) modes stride word s

/-- The short blocks of the long blocks that fit into the horizon fit into it. -/
theorem blockCount_mul_le (settings : Settings Rat Rat) (count stride : Nat) :
    blockCount settings (count * stride) * count ≤ blockCount settings stride := by
  have hsplit : settings.timeMax / (settings.timeDelta * ((count * stride : Nat) : Rat)) =
      settings.timeMax / (settings.timeDelta * stride) / count := by
    rw [Nat.cast_mul, div_div]
    congr 1
    ring
  unfold blockCount
  rw [hsplit, Nat.floor_div_natCast]
  exact Nat.div_mul_le_self _ _

/-- What is attainable in long blocks is attainable in short ones. -/
theorem Attainable.refine {count : Nat} (hstride : 0 < stride) {s : Candidate Rat}
    (h : Attainable settings modes (count * stride) s) : Attainable settings modes stride s := by
  obtain ⟨word, hlength, hcompletes⟩ := h
  obtain ⟨fine, hfine, hcompletes⟩ := hcompletes.refine hstride
  refine ⟨fine, ?_, hcompletes⟩
  calc fine.length ≤ word.length * count := hfine
    _ ≤ blockCount settings (count * stride) * count := Nat.mul_le_mul_right count hlength
    _ ≤ blockCount settings stride := blockCount_mul_le settings count stride

/-! ## Fronts of all attainable candidates -/

/-- A front of attainable candidates that covers every attainable one. -/
structure ExactFront (settings : Settings Rat Rat) (modes : List (Mode Rat)) (stride : Nat)
    (xs : List (Candidate Rat)) : Prop where
  isFront : IsFront (problem settings) xs
  replays : ∀ s ∈ xs, Replays (problem settings) modes s
  attainable : ∀ s ∈ xs, Attainable settings modes stride s
  covers : ∀ s, Attainable settings modes stride s → Covered xs s.resources

/-- In a front, a candidate that covers another one uses the same. -/
theorem eq_of_within_isFront (hfront : IsFront (problem settings) xs)
    (hreplays : ∀ s ∈ xs, Replays (problem settings) modes s) {a b : Candidate Rat} (ha : a ∈ xs)
    (hb : b ∈ xs) (hab : Usage.within a.resources b.resources = true) :
    a.resources = b.resources := by
  by_cases hschedule : a.schedule = b.schedule
  · rw [(hreplays a ha).eq_of_schedule (hreplays b hb) hschedule]
  · have hbetter := hfront.not_better ha hb fun h => hschedule (congrArg Solution.schedule h)
    rw [strictlyBetter_eq, ← Bool.not_eq_true, UsageOrder.strictlyBetter_iff] at hbetter
    have hequals : Usage.equals a.resources b.resources = true := by
      rw [← Bool.not_eq_false]
      exact fun h => hbetter ⟨hschedule, hfront.complete a ha, hab, h⟩
    exact Usage.eq_of_within hab (Usage.equals_iff.mp hequals).2

theorem ExactFront.usages_subset (hxs : ExactFront settings modes stride xs)
    (hys : ExactFront settings modes stride ys) : usages xs ⊆ usages ys := by
  rintro _ ⟨a, ha, rfl⟩
  obtain ⟨b, hb, hba⟩ := hys.covers a (hxs.attainable a ha)
  obtain ⟨c, hc, hcb⟩ := hxs.covers b (hys.attainable b hb)
  -- The candidate between two of one front that use the same uses that, too.
  have hca := eq_of_within_isFront hxs.isFront hxs.replays hc ha (Usage.within_trans hcb hba)
  exact ⟨b, hb, Usage.eq_of_within hba (hca ▸ hcb)⟩

/-- Fronts of all attainable candidates have the same usages. -/
theorem ExactFront.usages_eq (hxs : ExactFront settings modes stride xs)
    (hys : ExactFront settings modes stride ys) : usages xs = usages ys :=
  Set.Subset.antisymm (hxs.usages_subset hys) (hys.usages_subset hxs)

/-- The blocks of a stride in the one-dimensional domain. -/
def resolutionOf (settings : Settings Rat Rat) (stride : Nat) : Resolution Rat :=
  ⟨stride, settings.timeDelta * stride, blockCount settings stride⟩

/-- A level that begins with a front of attainable candidates ends with a front
that covers all of them. -/
theorem level_exactFront (hdelta : 0 < settings.timeDelta) (hmodes : modes ≠ [])
    (hstride : 0 < stride) {l : Level Rat Rat (Usage Rat)} {watch : Stopwatch Rat} {clock : Rat}
    (hl : l = Level.perform (workspace settings modes stepCost) .exhaustive
      (resolutionOf settings stride) watch xs clock)
    (hwatch : watch.limit = none) (hfront : IsFront (problem settings) xs)
    (hreplays : ∀ s ∈ xs, Replays (problem settings) modes s)
    (hattainable : ∀ s ∈ xs, Attainable settings modes stride s) :
    ExactFront settings modes stride l.final.accepted := by
  have hunhurried : l.Unhurried := by
    rw [hl]
    exact Level.unhurried_of_unlimited hwatch
  obtain ⟨horigin, -, hfound⟩ := level_exact hdelta hmodes hstride hl hunhurried hreplays
  constructor
  case isFront =>
    rw [hl]
    exact Level.perform_isFront (w := workspace settings modes stepCost) hfront
  case replays =>
    rw [hl]
    exact (Level.perform_traced (problem_local settings) hstride hreplays).accepted
  case attainable =>
    intro s hs
    rcases horigin s hs with hold | hnew
    · exact hattainable s hold
    · exact hnew
  case covers =>
    rintro s ⟨word, hword, hcompletes⟩
    exact hfound word s hword hcompletes

/-! ## Through a sweep -/

/-- Candidates to seed the levels of a plan with: a front, all of which the first
level of the plan can attain. Each level has twice the stride of the next. -/
structure Seeds (settings : Settings Rat Rat) (modes : List (Mode Rat))
    (plan : List (Resolution Rat)) (xs : List (Candidate Rat)) : Prop where
  halving : plan.IsChain fun coarse fine => coarse.stride = 2 * fine.stride
  blocks : ∀ r ∈ plan, 0 < r.stride ∧ r = resolutionOf settings r.stride
  isFront : IsFront (problem settings) xs
  replays : ∀ s ∈ xs, Replays (problem settings) modes s
  attainable : ∀ r ∈ plan.head?, ∀ s ∈ xs, Attainable settings modes r.stride s

/-- Nothing at all may seed the levels of any request. -/
theorem seeds_nil (settings : Settings Rat Rat) (modes : List (Mode Rat)) (n : Nat) :
    Seeds settings modes ((Algorithm.halvings n).map (resolutionOf settings)) [] where
  halving := (List.isChain_map _).mpr (halvings_isChain n)
  blocks := by
    intro r hr
    obtain ⟨stride, hstride, rfl⟩ := List.mem_map.mp hr
    exact ⟨halvings_pos n stride hstride, rfl⟩
  isFront := isFront_nil _
  replays := by simp
  attainable := by simp

/-- What a seeded level accepts is exact at its stride and seeds the next level. -/
theorem Seeds.level (hdelta : 0 < settings.timeDelta) (hmodes : modes ≠ [])
    {resolution : Resolution Rat} {later : List (Resolution Rat)}
    (h : Seeds settings modes (resolution :: later) xs) {l : Level Rat Rat (Usage Rat)}
    {watch : Stopwatch Rat} {clock : Rat}
    (hl : l = Level.perform (workspace settings modes stepCost) .exhaustive resolution
      watch xs clock)
    (hwatch : watch.limit = none) :
    ExactFront settings modes resolution.stride l.final.accepted ∧
      Seeds settings modes later l.final.accepted := by
  obtain ⟨hstride, hblocks⟩ := h.blocks resolution List.mem_cons_self
  rw [hblocks] at hl
  have hexact := level_exactFront hdelta hmodes hstride hl hwatch h.isFront h.replays
    (h.attainable resolution rfl)
  obtain ⟨hhalf, hlater⟩ := List.isChain_cons.mp h.halving
  refine ⟨hexact, hlater, fun r hr => h.blocks r (List.mem_cons_of_mem _ hr), hexact.isFront,
    hexact.replays, ?_⟩
  intro fine hfine s hs
  have hattainable := hexact.attainable s hs
  rw [hhalf fine hfine] at hattainable
  exact hattainable.refine (h.blocks fine (List.mem_cons_of_mem _ (List.mem_of_mem_head? hfine))).1

/-- Every stage of a sweep without a limit ends with an exact front. -/
theorem stages_exact (hdelta : 0 < settings.timeDelta) (hmodes : modes ≠ [])
    {plan : List (Resolution Rat)} (h : Seeds settings modes plan []) {pausing : Bool}
    {script : Script Rat} {watch : Stopwatch Rat} (hwatch : watch.limit = none) {clock : Rat} :
    ∀ stage ∈ Sweep.runStages (workspace settings modes stepCost) .exhaustive plan []
        pausing script watch clock,
      ExactFront settings modes stage.level.resolution.stride stage.level.final.accepted := by
  have hlevel : ∀ stage ∈ Sweep.runStages (workspace settings modes stepCost) .exhaustive
        plan [] pausing script watch clock, ∀ later before watch' now,
      stage.level = Level.perform (workspace settings modes stepCost) .exhaustive
        stage.level.resolution watch' before now →
      Seeds settings modes (stage.level.resolution :: later) before →
      ExactFront settings modes stage.level.resolution.stride stage.level.final.accepted ∧
        Seeds settings modes later stage.level.final.accepted := by
    intro stage hstage later before watch' now hperform hseeds
    have hlimit : watch'.limit = none := by
      rw [← hwatch, ← (Sweep.runStages_limit stage hstage).1, hperform]
      rfl
    exact hseeds.level hdelta hmodes hperform hlimit
  intro stage hstage
  obtain ⟨later, hpassed⟩ := Sweep.runStages_invariant (Seeds settings modes) h
    (fun stage hstage later before watch' now hperform hseeds =>
      (hlevel stage hstage later before watch' now hperform hseeds).2) stage hstage
  obtain ⟨before, watch', now, hperform, hseeds⟩ := hpassed.performed
  exact (hlevel stage hstage later before watch' now hperform hseeds).1

/-! ## Requests -/

/-- A request for an exhaustive sweep without limit and pauses is granted: it
performs all levels, and each ends with an exact front. -/
theorem sweep_granted (hdelta : 0 < settings.timeDelta)
    (htimeout : Stopwatch.limitOf settings.timeout = none)
    (hinteractive : settings.interactive = false) (hmodes : modes ≠ [])
    (hids : Search.checkIds modes = .ok ()) (stepCost keyCost : Rat) {n : Nat} (hn : 0 < n)
    (keys : List String) (clock : Rat) :
    ∃ sweep, Search.sweep (some (problem settings)) modes stepCost keyCost .exhaustive (.whole n)
        keys clock = .ok sweep ∧
      (sweep.stages.map fun stage => stage.level.resolution) =
        (Algorithm.halvings (n - 1)).map (resolutionOf settings) ∧
      ∀ stage ∈ sweep.stages,
        ExactFront settings modes stage.level.resolution.stride stage.level.final.accepted := by
  have hwatch : (Stopwatch.started settings.timeout clock).limit = none := htimeout
  have hpositive : requirePositive .levels (.whole n : Given Rat) = .ok () :=
    requirePositive_whole.mpr (by exact_mod_cast hn)
  have hplan : (Algorithm.halvings (n - 1)).mapM (Resolution.ofStride (problem settings)) =
      .ok ((Algorithm.halvings (n - 1)).map (resolutionOf settings)) := by
    rw [Granted.mapM, List.forall₂_map_right_iff, List.forall₂_same]
    exact fun stride _ => ofStride_eq settings stride
  have hstages : (Sweep.perform (workspace settings modes stepCost) .exhaustive
      ((Algorithm.halvings (n - 1)).map (resolutionOf settings)) (.steady keys keyCost)
      clock).stages =
      Sweep.runStages (workspace settings modes stepCost) .exhaustive
        ((Algorithm.halvings (n - 1)).map (resolutionOf settings)) [] false (.steady keys keyCost)
        (Stopwatch.started settings.timeout clock) clock := by
    rw [← hinteractive]
    rfl
  refine ⟨Sweep.perform (workspace settings modes stepCost) .exhaustive
    ((Algorithm.halvings (n - 1)).map (resolutionOf settings)) (.steady keys keyCost) clock,
    ?_, ?_, ?_⟩
  · refine Search.scriptedSweep_eq_ok.mpr
      ⟨_, _, ⟨hpositive, hmodes, hids, rfl, hplan⟩, rfl, fun _ _ _ _ => rfl, ?_⟩
    refine List.findSome?_eq_none_iff.mpr fun stage hstage => ?_
    rw [hstages] at hstage
    obtain ⟨before, watch, now, hperformed⟩ := Sweep.exists_performed hstage
    rw [hperformed]
    exact Level.failure_eq_none rfl
  · rw [hstages]
    exact Sweep.runStages_resolutions (Sweep.runStages_last rfl hwatch)
  · rw [hstages]
    exact stages_exact hdelta hmodes (seeds_nil settings modes (n - 1)) hwatch

/-- A request for an exhaustive level that nothing was handed on to is granted and
ends with an exact front, too. -/
theorem level_alone (hdelta : 0 < settings.timeDelta)
    (htimeout : Stopwatch.limitOf settings.timeout = none) (hmodes : modes ≠ [])
    (hstride : 0 < stride) (stepCost now : Rat) :
    ∃ l, Search.level (some (problem settings)) modes stepCost .exhaustive (.whole stride) none none
        now = .ok l ∧ ExactFront settings modes stride l.front.solutions := by
  refine ⟨_, level_granted settings hmodes stepCost hstride none none now, ?_⟩
  exact level_exactFront hdelta hmodes hstride rfl htimeout (isFront_nil _) (by simp) (by simp)

/-- The finest front of a sweep whose stages are exact is exact for single steps;
if it is empty, so is the outcome. -/
theorem finest_exact {sweep : Sweep Rat Rat (Usage Rat)} {n : Nat}
    (hresolutions : (sweep.stages.map fun stage => stage.level.resolution) =
      (Algorithm.halvings n).map (resolutionOf settings))
    (hexact : ∀ stage ∈ sweep.stages,
      ExactFront settings modes stage.level.resolution.stride stage.level.final.accepted) :
    ∃ finest : Front Rat Rat (Usage Rat), ExactFront settings modes 1 finest.solutions ∧
      (sweep.outcome = [] ↔ finest.solutions = []) ∧
      (finest.solutions ≠ [] → sweep.outcome.finest? = some finest) := by
  have hlast : (sweep.stages.map fun stage => stage.level.resolution).getLast? =
      some (resolutionOf settings 1) := by
    rw [hresolutions, List.getLast?_map, halvings_getLast, Option.map_some]
  obtain ⟨early, last, hstages⟩ : ∃ early last, sweep.stages = early ++ [last] := by
    refine (List.eq_nil_or_concat' sweep.stages).resolve_left fun hnil => ?_
    rw [hnil] at hlast
    cases hlast
  have hresolution : last.level.resolution = resolutionOf settings 1 := by
    rw [hstages, List.map_append, List.map_singleton, List.getLast?_concat] at hlast
    exact Option.some.inj hlast
  have hfinest : ExactFront settings modes 1 last.level.front.solutions := by
    have h := hexact last (by simp [hstages])
    rwa [hresolution] at h
  refine ⟨last.level.front, hfinest, ⟨fun hnil => ?_, fun hnil => ?_⟩,
    Sweep.finest_outcome hstages⟩
  · by_contra hne
    have hsome := Sweep.finest_outcome hstages hne
    rw [hnil] at hsome
    cases hsome
  refine Sweep.outcome_eq_nil fun stage hstage => List.eq_nil_iff_forall_not_mem.mpr ?_
  intro s hs
  -- A candidate of a coarser front would be covered by the finest one.
  have hattainable := (hexact stage hstage).attainable s hs
  rw [← Nat.mul_one stage.level.resolution.stride] at hattainable
  obtain ⟨t, ht, -⟩ := hfinest.covers s (hattainable.refine Nat.one_pos)
  rw [hnil] at ht
  cases ht

end Rate

/-- **Seeding loses nothing and adds nothing.** In the one-dimensional domain over
exact numbers, an exhaustive sweep without limit and pauses performs all its
levels, and each returns a front with the usages that the level returns on its
own, without any front handed on. The outcome is empty exactly if that of the
sweep of single steps is, and otherwise their finest fronts have the same usages. -/
theorem seeding_neutral (settings : Settings Rat Rat) (hdelta : 0 < settings.timeDelta)
    (htimeout : Stopwatch.limitOf settings.timeout = none)
    (hinteractive : settings.interactive = false) (modes : List (Mode Rat)) (hmodes : modes ≠ [])
    (hids : Search.checkIds modes = .ok ()) (stepCost keyCost : Rat) (n : Nat) (hn : 0 < n)
    (keys : List String) (clock : Rat) :
    ∃ sweep single,
      Search.sweep (some (Rate.problem settings)) modes stepCost keyCost .exhaustive (.whole n)
        keys clock = .ok sweep ∧
      Search.sweep (some (Rate.problem settings)) modes stepCost keyCost .exhaustive (.whole 1)
        keys clock = .ok single ∧
      (sweep.stages.map fun stage => stage.level.front.stride) = Algorithm.halvings (n - 1) ∧
      (∀ stage ∈ sweep.stages, ∀ now, ∃ alone,
        Search.level (some (Rate.problem settings)) modes stepCost .exhaustive
          (.whole stage.level.front.stride) none none now = .ok alone ∧
        usages stage.level.front.solutions = usages alone.front.solutions) ∧
      (sweep.outcome = [] ↔ single.outcome = []) ∧
      ∀ finest ∈ sweep.outcome.finest?, ∃ only ∈ single.outcome.finest?,
        usages finest.solutions = usages only.solutions := by
  obtain ⟨sweep, hsweep, hresolutions, hexact⟩ :=
    Rate.sweep_granted hdelta htimeout hinteractive hmodes hids stepCost keyCost hn keys clock
  obtain ⟨single, hsingle, hresolutions', hexact'⟩ :=
    Rate.sweep_granted hdelta htimeout hinteractive hmodes hids stepCost keyCost Nat.one_pos keys
      clock
  have hstrides : (sweep.stages.map fun stage => stage.level.front.stride) =
      Algorithm.halvings (n - 1) := by
    have h := congrArg (List.map Resolution.stride) hresolutions
    rw [List.map_map, List.map_map] at h
    exact h.trans (List.map_id _)
  obtain ⟨finest, hfinest, hempty, hfound⟩ := Rate.finest_exact hresolutions hexact
  obtain ⟨only, honly, hempty', hfound'⟩ := Rate.finest_exact hresolutions' hexact'
  have hsame : usages finest.solutions = usages only.solutions := hfinest.usages_eq honly
  have hboth : finest.solutions = [] ↔ only.solutions = [] := by
    rw [← usages_eq_empty, ← usages_eq_empty, hsame]
  refine ⟨sweep, single, hsweep, hsingle, hstrides, ?_, hempty.trans (hboth.trans hempty'.symm), ?_⟩
  · intro stage hstage now
    have hstride : 0 < stage.level.front.stride := by
      refine halvings_pos (n - 1) _ ?_
      rw [← hstrides]
      exact List.mem_map_of_mem hstage
    obtain ⟨alone, halone, hexact'⟩ := Rate.level_alone hdelta htimeout hmodes hstride stepCost now
    exact ⟨alone, halone, (hexact stage hstage).usages_eq hexact'⟩
  · intro front hfront
    have hne : finest.solutions ≠ [] := by
      rintro hnil
      rw [hempty.mpr hnil] at hfront
      cases hfront
    rw [hfound hne, Option.mem_some_iff] at hfront
    subst hfront
    exact ⟨only, hfound' (fun hnil => hne (hboth.mpr hnil)), hsame⟩

theorem seeding_neutral_sample : ∃ sweep single,
    Search.sweep (some (Rate.problem Rate.sampleSettings)) Rate.sampleModes 0 0 .exhaustive
      (.whole 2) [] 0 = .ok sweep ∧
    Search.sweep (some (Rate.problem Rate.sampleSettings)) Rate.sampleModes 0 0 .exhaustive
      (.whole 1) [] 0 = .ok single ∧
    (sweep.stages.map fun stage => stage.level.front.stride) = [2, 1] ∧
    single.outcome ≠ [] ∧
    ∀ finest ∈ sweep.outcome.finest?, ∃ only ∈ single.outcome.finest?,
      usages finest.solutions = usages only.solutions := by
  obtain ⟨sweep, single, hsweep, hsingle, hstrides, -, hempty, hfinest⟩ :=
    seeding_neutral Rate.sampleSettings (by decide) rfl rfl Rate.sampleModes
      (by simp [Rate.sampleModes]) rfl 0 0 2 (by decide) [] 0
  refine ⟨sweep, single, hsweep, hsingle, hstrides, ?_, hfinest⟩
  rw [Ne, ← hempty]
  obtain ⟨sweep', hsweep', hfronts⟩ := Rate.sample_sweep
  obtain rfl : sweep' = sweep := Except.ok.inj (hsweep'.symm.trans hsweep)
  intro hnil
  rw [hnil] at hfronts
  cases hfronts

end ModeSchedule
