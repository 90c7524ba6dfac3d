/-
ModeSchedule.Proofs.Search.Exhaustive — exhaustive search of a level is exact.

`Explored` is what holds after a number of rounds, in terms of words of blocks:
what is accepted comes from the candidates the level began with or from
completing words, all of these are covered, and every open word is covered or
waits to be extended. A round passes this on (`FullRound.explored`), because what
it drops is covered and a covered word covers all its continuations.

At the end no word is left waiting or the horizon is reached, so every
completing word is covered (`level_exact`). `exhaustive_level_exact` is the
statement for a request.
-/
import ModeSchedule.Proofs.Requests
import ModeSchedule.Proofs.Search.Coverage
import ModeSchedule.Proofs.Simulation.Blocks
import ModeSchedule.Proofs.Simulation.Spending

namespace ModeSchedule

namespace Rate

variable {settings : Settings Rat Rat} {modes : List (Mode Rat)} {stepCost : Rat}
  {stride : Nat} {previous : List (Candidate Rat)}

/-- Usage grows from an open word to every longer one. -/
theorem endOf_within (hdelta : 0 < settings.timeDelta) {u v : List Nat}
    (hu : Open (problem settings) modes stride u) (hv : ∀ i ∈ v, i < modes.length) :
    Usage.within (endOf (problem settings) modes stride u).resources
      (endOf (problem settings) modes stride (u ++ v)).resources = true := by
  rw [hu.endOf_append, Run.follow_eq_walk (Schedule.ofBlocks_inRange.mpr hv)]
  exact walk_within hdelta _ _

/-- What `k` rounds have explored that began with the accepted candidates
`previous`. -/
structure Explored (settings : Settings Rat Rat) (modes : List (Mode Rat)) (stride : Nat)
    (previous : List (Candidate Rat)) (k : Nat) (f : Frontier Rat Rat (Usage Rat)) : Prop where
  /-- Accepted candidates are old or complete a word. -/
  origin : ∀ s ∈ f.accepted, s ∈ previous ∨
    ∃ word, word.length ≤ k ∧ Completes (problem settings) modes stride word s
  /-- Partial candidates wait at the end of a word. -/
  pending : ∀ p ∈ f.partials, ∃ word, word.length = k ∧
    Pending (problem settings) modes stride word p
  kept : ∀ s ∈ previous, Covered f.accepted s.resources
  found : ∀ word s, word.length ≤ k → Completes (problem settings) modes stride word s →
    Covered f.accepted s.resources
  /-- Open words are covered or wait to be extended. -/
  waiting : ∀ word, word.length = k → Open (problem settings) modes stride word →
    Covered f.accepted (endOf (problem settings) modes stride word).resources ∨
      ∃ p ∈ f.partials, Pending (problem settings) modes stride word p

theorem start_explored (hmodes : modes ≠ []) :
    Explored settings modes stride previous 0
      (Level.startFrontier (workspace settings modes stepCost) previous) where
  origin := fun _ hs => Or.inl hs
  pending := by
    intro p hp
    obtain ⟨j, -, rfl⟩ := List.mem_map.mp hp
    exact ⟨[], rfl, pending_seed j⟩
  kept := fun s hs => covered_of_mem hs (Usage.isNumber_rat s.resources)
  found := by
    intro word s hlength hcompletes
    exact absurd (List.length_eq_zero_iff.mp (Nat.le_zero.mp hlength)) hcompletes.1
  waiting := by
    intro word hlength _
    obtain rfl := List.length_eq_zero_iff.mp hlength
    refine Or.inr ⟨(problem settings).seed 0, List.mem_map.mpr ⟨0, ?_, rfl⟩, pending_seed 0⟩
    exact List.mem_range.mpr (List.length_pos_of_ne_nil hmodes)

/-- Where no word waits, every completing word is covered, whatever its length. -/
theorem Explored.covers (hdelta : 0 < settings.timeDelta) {f : Frontier Rat Rat (Usage Rat)}
    {k : Nat} (hf : Explored settings modes stride previous k f) (hnone : f.partials = [])
    {word : List Nat} {s : Candidate Rat}
    (hcompletes : Completes (problem settings) modes stride word s) :
    Covered f.accepted s.resources := by
  rcases Nat.lt_or_ge k word.length with hlonger | hshort
  · have hlength : (word.take k).length = k := by
      rw [List.length_take, Nat.min_eq_left hlonger.le]
    have hrest : word.drop k ≠ [] := by
      rw [← List.length_pos_iff, List.length_drop]
      omega
    have hopen : Open (problem settings) modes stride (word.take k) := by
      rw [← List.take_append_drop k word] at hcompletes
      exact hcompletes.isOpen hrest
    have hwithin : Usage.within (endOf (problem settings) modes stride (word.take k)).resources
        s.resources = true := by
      rw [← hcompletes.endOf_eq]
      nth_rewrite 2 [← List.take_append_drop k word]
      exact endOf_within hdelta hopen fun i hi => hcompletes.inRange i (List.mem_of_mem_drop hi)
    rcases hf.waiting _ hlength hopen with hcovered | ⟨p, hp, -⟩
    · exact hcovered.mono hwithin
    · rw [hnone] at hp
      cases hp
  · exact hf.found word s hshort hcompletes

/-! ## One round -/

/-- A round of exhaustive search whose extension was not cut short: its children
are those of the partial candidates by all modes, and none is lost uncovered. -/
structure FullRound (settings : Settings Rat Rat) (modes : List (Mode Rat)) (stride : Nat)
    (f : Frontier Rat Rat (Usage Rat)) (r : Round Rat Rat (Usage Rat)) : Prop where
  proceeds : Round.Proceeds (problem settings) .exhaustive f r
  parent : ∀ c ∈ r.extension.children, ∃ p ∈ f.partials, ∃ i m, modes[i]? = some m ∧
    (Run.advance (problem settings) m.dynamics i stride p).solution = c
  child : ∀ p ∈ f.partials, ∀ i m, modes[i]? = some m →
    (Run.advance (problem settings) m.dynamics i stride p).solution ∈ r.extension.children
  covers : ∀ s ∈ f.accepted ++ r.complete, Covered r.after.accepted s.resources

namespace FullRound

variable {f : Frontier Rat Rat (Usage Rat)} {r : Round Rat Rat (Usage Rat)} {k : Nat}

theorem of_done (hstride : 0 < stride) {watch : Option (Stopwatch Rat)} {clock : Rat}
    (hr : r = Round.perform (workspace settings modes stepCost) .exhaustive stride watch f
      clock)
    (hdone : r.extension.ending = .done)
    (htraced : f.Traced (workspace settings modes stepCost)) :
    FullRound settings modes stride f r := by
  have hproceeds : Round.Proceeds (problem settings) .exhaustive f r := by
    rw [hr] at hdone ⊢
    exact Round.proceeds_of_done hdone
  have hextension : r.extension = Extension.grow (workspace settings modes stepCost)
      .free stride watch f.partials clock := by
    rw [hr, Round.perform_extension]
    rfl
  constructor
  case proceeds => exact hproceeds
  case parent =>
    intro c hc
    rw [hextension] at hc
    exact Extension.exists_parent hc
  case child =>
    intro p hp i m hm
    have hi : i < modes.length := (List.getElem?_eq_some_iff.mp hm).1
    rw [hextension] at hdone ⊢
    exact Extension.child_mem hdone hp rfl (List.mem_range.mpr hi) hm
  case covers =>
    exact round_covers hproceeds (round_determined hstride hr hproceeds
      (fun s _ => Usage.isNumber_rat s.resources) htraced)

/-- What was covered before the round is covered after it. -/
theorem still_covered (h : FullRound settings modes stride f r) {u : Usage Rat}
    (hu : Covered f.accepted u) : Covered r.after.accepted u :=
  hu.trans fun s hs => h.covers s (List.mem_append_left _ hs)

/-- A complete child is covered after the round; an incomplete one is covered or
waits to be extended. -/
theorem child_accounted (h : FullRound settings modes stride f r) {c : Candidate Rat}
    (hc : c ∈ r.extension.children) : Covered r.after.accepted c.resources ∨
      (problem settings).complete c = false ∧ c ∈ r.after.partials :=
  Rate.child_accounted h.proceeds h.covers (by decide) hc

/-- A child belongs to a word that is longer by the mode of its block, and that
is completing or pending as the child is complete or not. -/
theorem child_word (h : FullRound settings modes stride f r) (hstride : 0 < stride)
    (hf : Explored settings modes stride previous k f) {c : Candidate Rat}
    (hc : c ∈ r.extension.children) : ∃ word, word.length = k + 1 ∧
      ((problem settings).complete c = true → Completes (problem settings) modes stride word c) ∧
      ((problem settings).complete c = false → Pending (problem settings) modes stride word c) := by
  have hlocal := problem_local settings
  obtain ⟨p, hp, i, m, hm, rfl⟩ := h.parent c hc
  obtain ⟨word, hlength, hpending⟩ := hf.pending p hp
  rw [Run.advance_complete hlocal.orderly hm hstride]
  exact ⟨word ++ [i], by simp [hlength], hpending.completes hlocal hstride hm, hpending.extend hm⟩

/-- A word that is longer by a block than an open one is covered after the round,
unless it is open itself and waits. -/
theorem word_accounted (h : FullRound settings modes stride f r)
    (hdelta : 0 < settings.timeDelta) (hstride : 0 < stride)
    (hf : Explored settings modes stride previous k f) {word : List Nat} {i : Nat}
    (hlength : word.length = k) (hopen : Open (problem settings) modes stride word)
    (hi : i < modes.length) :
    Covered r.after.accepted (endOf (problem settings) modes stride (word ++ [i])).resources ∨
      Open (problem settings) modes stride (word ++ [i]) ∧
        ∃ p ∈ r.after.partials, Pending (problem settings) modes stride (word ++ [i]) p := by
  have hlocal := problem_local settings
  obtain ⟨m, hm⟩ := Run.exists_mode hi
  rcases hf.waiting word hlength hopen with hcovered | ⟨p, hp, hpending⟩
  · exact Or.inl ((h.still_covered hcovered).mono (endOf_within hdelta hopen (by simpa using hi)))
  · rw [hpending.endOf_eq hlocal hstride hm]
    rcases h.child_accounted (h.child p hp i m hm) with hcovered | ⟨hincomplete, hpartial⟩
    · exact Or.inl hcovered
    · rw [Run.advance_complete hlocal.orderly hm hstride] at hincomplete
      exact Or.inr ⟨(hpending.open_iff hlocal hstride hm).mpr hincomplete, _, hpartial,
        hpending.extend hm hincomplete⟩

/-- A full round explores all words that are longer by one block. -/
theorem explored (h : FullRound settings modes stride f r) (hdelta : 0 < settings.timeDelta)
    (hstride : 0 < stride) (hf : Explored settings modes stride previous k f) :
    Explored settings modes stride previous (k + 1) r.after where
  origin := by
    intro s hs
    rcases h.proceeds.mem_accepted hs with hs | ⟨hs, hcomplete⟩
    · rcases hf.origin s hs with hold | ⟨word, hlength, hcompletes⟩
      · exact Or.inl hold
      · exact Or.inr ⟨word, Nat.le_succ_of_le hlength, hcompletes⟩
    · obtain ⟨word, hlength, hcompletes, -⟩ := h.child_word hstride hf hs
      exact Or.inr ⟨word, hlength.le, hcompletes hcomplete⟩
  pending := by
    intro s hs
    obtain ⟨hchild, hincomplete⟩ := h.proceeds.mem_partials hs
    obtain ⟨word, hlength, -, hpending⟩ := h.child_word hstride hf hchild
    exact ⟨word, hlength, hpending hincomplete⟩
  kept := fun s hs => h.still_covered (hf.kept s hs)
  found := by
    intro word s hlength hcompletes
    rcases Nat.le_succ_iff.mp hlength with hlength | hlength
    · exact h.still_covered (hf.found word s hlength hcompletes)
    · obtain ⟨word, i, rfl⟩ := (List.eq_nil_or_concat' word).resolve_left hcompletes.1
      have hopen := hcompletes.isOpen (List.cons_ne_nil i [])
      have hi : i < modes.length := hcompletes.inRange i (by simp)
      rw [List.length_append, List.length_singleton, Nat.add_right_cancel_iff] at hlength
      rcases h.word_accounted hdelta hstride hf hlength hopen hi with hcovered | ⟨hlonger, -⟩
      · rwa [hcompletes.endOf_eq] at hcovered
      · exact absurd hlonger hcompletes.not_open
  waiting := by
    intro word hlength hopen
    have hne : word ≠ [] := List.ne_nil_of_length_eq_add_one hlength
    obtain ⟨word, i, rfl⟩ := (List.eq_nil_or_concat' word).resolve_left hne
    rw [List.length_append, List.length_singleton, Nat.add_right_cancel_iff] at hlength
    rcases h.word_accounted hdelta hstride hf hlength hopen.of_append (hopen.1 i (by simp)) with
      hcovered | ⟨-, hwaits⟩
    · exact Or.inl hcovered
    · exact Or.inr hwaits

end FullRound

/-! ## A whole level -/

section

variable {resolution : Resolution Rat} {watch : Stopwatch Rat} {clock : Rat}
  {l : Level Rat Rat (Usage Rat)}

theorem level_explored (hdelta : 0 < settings.timeDelta) (hmodes : modes ≠ [])
    (hstride : 0 < resolution.stride)
    (hl : l = Level.perform (workspace settings modes stepCost) .exhaustive resolution
      watch previous clock)
    (hdone : ∀ r ∈ l.rounds, r.extension.ending = .done)
    (hprevious : ∀ s ∈ previous, Replays (problem settings) modes s) :
    Explored settings modes resolution.stride previous l.rounds.length l.final := by
  subst hl
  refine (Level.perform_invariant (fun k f =>
    f.Traced (workspace settings modes stepCost) ∧
      Explored settings modes resolution.stride previous k f)
    ⟨Level.startFrontier_traced hprevious, start_explored hmodes⟩ ?_).2
  intro r hr k now hperform hbefore
  have hfull := FullRound.of_done hstride hperform (hdone r hr) hbefore.1
  constructor
  · rw [hperform]
    exact Round.perform_traced (problem_local settings) hstride hbefore.1
  · exact hfull.explored hdelta hstride hbefore.2

/-- An exhaustive level that is not cut short returns old candidates and outcomes
of completing words, and covers all of them. -/
theorem level_exact (hdelta : 0 < settings.timeDelta) (hmodes : modes ≠ [])
    (hstride : 0 < resolution.stride)
    (hl : l = Level.perform (workspace settings modes stepCost) .exhaustive resolution
      watch previous clock)
    (hunhurried : l.Unhurried)
    (hprevious : ∀ s ∈ previous, Replays (problem settings) modes s) :
    (∀ s ∈ l.final.accepted, s ∈ previous ∨ ∃ word, word.length ≤ resolution.blocks ∧
      Completes (problem settings) modes resolution.stride word s) ∧
    (∀ s ∈ previous, Covered l.final.accepted s.resources) ∧
    ∀ word s, word.length ≤ resolution.blocks →
      Completes (problem settings) modes resolution.stride word s →
        Covered l.final.accepted s.resources := by
  have hdone : ∀ r ∈ l.rounds, r.extension.ending = .done := by
    rw [hl] at hunhurried ⊢
    exact hunhurried.done rfl
  have hexplored := level_explored hdelta hmodes hstride hl hdone hprevious
  have hlength : l.rounds.length ≤ resolution.blocks := by
    rw [hl]
    exact Level.length_runRounds_le _ _ _
  refine ⟨?_, hexplored.kept, ?_⟩
  · intro s hs
    rcases hexplored.origin s hs with hold | ⟨word, hword, hcompletes⟩
    · exact Or.inl hold
    · exact Or.inr ⟨word, hword.trans hlength, hcompletes⟩
  · intro word s hword hcompletes
    have hend : l.rounds.length = resolution.blocks ∨ l.final.partials = [] := by
      subst hl
      exact Level.perform_exhausted hdone
    rcases hend with hall | hnone
    · exact hexplored.found word s (hall ▸ hword) hcompletes
    · exact hexplored.covers hdelta hnone hcompletes

end

/-! ## The horizon -/

/-- How many blocks of a stride fit into the horizon. -/
def blockCount (settings : Settings Rat Rat) (stride : Nat) : Nat :=
  ⌊settings.timeMax / (settings.timeDelta * stride)⌋₊

theorem ofStride_eq (settings : Settings Rat Rat) (stride : Nat) :
    Resolution.ofStride (problem settings) stride =
      .ok ⟨stride, settings.timeDelta * stride, blockCount settings stride⟩ :=
  ofStride_eq_ok.mpr ⟨stride, blockCount settings stride, Scalar.ofInt_rat stride,
    (problem settings).blocksWithin_rat _, rfl⟩

end Rate

/-! ## Requests -/

/-- The fronts that exhaustive levels of one search hand on: none or an empty one
to begin with, then what a level returns. -/
inductive HandedOn {K S R A : Type} [Scalar K] (P : Problem K S R A) (modes : List (Mode A)) :
    Option (Front K S R) → Prop
  | absent : HandedOn P modes none
  | empty : HandedOn P modes (some Front.empty)
  | level {previous : Option (Front K S R)} {stepCost : K} {count : Int}
      {watch : Option (Stopwatch K)} {clock : K} {l : Level K S R} :
      HandedOn P modes previous →
      Search.level (some P) modes stepCost .exhaustive (.whole count) previous watch clock =
        .ok l →
      HandedOn P modes (some l.front)

theorem HandedOn.replays {K S R A : Type} [Scalar K] {P : Problem K S R A} (hP : P.Local)
    {modes : List (Mode A)} {previous : Option (Front K S R)} (h : HandedOn P modes previous) :
    ∀ s ∈ (previous.map Front.solutions).getD [], Replays P modes s := by
  induction h with
  | absent => simp
  | empty => simp [Front.empty]
  | level _ hlevel ih =>
    obtain ⟨resolution, hcount, hresolution, rfl⟩ := Search.exists_resolution_of_level hlevel
    obtain ⟨_, _, -, -, rfl⟩ := ofStride_eq_ok.mp hresolution
    exact (Level.perform_traced hP (by simpa using hcount) ih).accepted

/-- A request for an exhaustive level is granted. -/
theorem Rate.level_granted (settings : Settings Rat Rat) {modes : List (Mode Rat)}
    (hmodes : modes ≠ []) (stepCost : Rat) {stride : Nat} (hstride : 0 < stride)
    (previous : Option (Front Rat Rat (Usage Rat))) (watch : Option (Stopwatch Rat)) (clock : Rat) :
    Search.level (some (problem settings)) modes stepCost .exhaustive (.whole stride) previous
      watch clock = .ok (Level.perform (workspace settings modes stepCost) .exhaustive
        ⟨stride, settings.timeDelta * stride, blockCount settings stride⟩
        (watch.getD (Stopwatch.started settings.timeout clock))
        ((previous.map Front.solutions).getD []) clock) := by
  have hpositive : requirePositive .stride (.whole stride : Given Rat) = .ok () :=
    requirePositive_whole.mpr (by exact_mod_cast hstride)
  refine Granted.bind.mpr ⟨problem settings, rfl, Granted.bind.mpr ⟨(), hpositive,
    Granted.bind.mpr ⟨(), requireModes_eq_ok.mpr hmodes, Granted.bind.mpr
      ⟨_, ofStride_eq settings stride, Granted.bind.mpr ⟨(), ?_, ?_⟩⟩⟩⟩⟩
  · exact requireMeasured_eq_ok.mpr fun _ _ => rfl
  · rw [Level.failure_eq_none rfl]
    rfl

/-- **Exhaustive search of a level is exact.** In the one-dimensional domain over
exact numbers, a level is granted for every list of modes that is not empty,
every positive stride and every front an earlier level may have handed on. Unless
its stopwatch runs out, what it returns are candidates of that front and outcomes
of completing words within the horizon, and for each of these it returns one that
uses no more energy and no more time. -/
theorem exhaustive_level_exact (settings : Settings Rat Rat) (hdelta : 0 < settings.timeDelta)
    (modes : List (Mode Rat)) (hmodes : modes ≠ []) (stepCost : Rat) (stride : Nat)
    (hstride : 0 < stride) (previous : Option (Front Rat Rat (Usage Rat)))
    (hprevious : HandedOn (Rate.problem settings) modes previous)
    (watch : Option (Stopwatch Rat)) (clock : Rat) :
    ∃ l, Search.level (some (Rate.problem settings)) modes stepCost .exhaustive (.whole stride)
        previous watch clock = .ok l ∧
      (l.Unhurried →
        (∀ s ∈ l.front.solutions, s ∈ (previous.map Front.solutions).getD [] ∨
          ∃ word, word.length ≤ Rate.blockCount settings stride ∧
            Completes (Rate.problem settings) modes stride word s) ∧
        (∀ word s, word.length ≤ Rate.blockCount settings stride →
          Completes (Rate.problem settings) modes stride word s →
            ∃ t ∈ l.front.solutions, t.resources.energy ≤ s.resources.energy ∧
              t.resources.time ≤ s.resources.time) ∧
        ∀ s ∈ (previous.map Front.solutions).getD [],
          ∃ t ∈ l.front.solutions, t.resources.energy ≤ s.resources.energy ∧
            t.resources.time ≤ s.resources.time) := by
  refine ⟨_, Rate.level_granted settings hmodes stepCost hstride previous watch clock, ?_⟩
  intro hunhurried
  obtain ⟨horigin, hkept, hfound⟩ := Rate.level_exact hdelta hmodes hstride rfl hunhurried
    (hprevious.replays (Rate.problem_local settings))
  refine ⟨horigin, fun word s hword hcompletes => ?_, fun s hs => ?_⟩
  · obtain ⟨t, ht, hts⟩ := hfound word s hword hcompletes
    exact ⟨t, ht, Usage.within_rat.mp hts⟩
  · obtain ⟨t, ht, hts⟩ := hkept s hs
    exact ⟨t, ht, Usage.within_rat.mp hts⟩

/-- Half a unit, then a unit: the second step goes past the band around the target. -/
theorem Rate.sample_completes : Completes (problem sampleSettings) sampleModes 1 [1, 0]
    { schedule := [⟨1, 1⟩, ⟨0, 1⟩], state := 31 / 30, resources := ⟨31 / 30, 23 / 15⟩
      distance := some (29 / 30) } :=
  ⟨by decide, ⟨_, 2, true⟩, by cbv, rfl, rfl, by decide⟩

theorem exhaustive_level_exact_sample : ∃ coarse fine,
    Search.level (some (Rate.problem Rate.sampleSettings)) Rate.sampleModes 0 .exhaustive
      (.whole 2) none none 0 = .ok coarse ∧
    Search.level (some (Rate.problem Rate.sampleSettings)) Rate.sampleModes 0 .exhaustive
      (.whole 1) (some coarse.front) none 0 = .ok fine ∧ fine.Unhurried ∧
    ∃ t ∈ fine.front.solutions, t.resources.energy ≤ 31 / 30 ∧ t.resources.time ≤ 23 / 15 := by
  obtain ⟨coarse, hcoarse, -⟩ := exhaustive_level_exact Rate.sampleSettings (by decide)
    Rate.sampleModes (by simp [Rate.sampleModes]) 0 2 (by decide) none .absent none 0
  obtain ⟨fine, hfine, hexact⟩ := exhaustive_level_exact Rate.sampleSettings (by decide)
    Rate.sampleModes (by simp [Rate.sampleModes]) 0 1 (by decide) (some coarse.front)
    (.level .absent hcoarse) none 0
  have hunhurried : fine.Unhurried := by
    obtain ⟨_, -, -, rfl⟩ := Search.exists_resolution_of_level hfine
    exact Level.unhurried_of_unlimited rfl
  have hblocks : Rate.blockCount Rate.sampleSettings 1 = 2 := by
    norm_num [Rate.blockCount, Rate.sampleSettings]
  obtain ⟨-, hfound, -⟩ := hexact hunhurried
  exact ⟨coarse, fine, hcoarse, hfine, hunhurried,
    hfound [1, 0] _ (by rw [hblocks]; decide) Rate.sample_completes⟩

end ModeSchedule
