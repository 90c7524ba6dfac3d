/-
ModeSchedule.Proofs.Search.Atomicity — a round is performed as a whole or not at all.

A request for a round fails on its own account before anything is extended
(`Search.upshot_refused`), or else it fails while it extends, when it comes to a candidate that
has no mode to go on with, and only if the stopwatch has let it come that far
(`Extension.failed_iff`). The edits of both lists come after that, and where the candidates can
be measured, no edit fails (`Round.work_run`). `Search.upshot` is what the caller sees: why the
request failed, if it did, and the lists as far as they have been edited by then.

`round_all_or_nothing` is the statement for requests.
-/
import ModeSchedule.Proofs.Search.Branching
import ModeSchedule.Proofs.Search.Replay

namespace ModeSchedule

/-! ## Candidates without a mode -/

/-- A schedule without a last mode among `count` modes. -/
def Schedule.Stranded (count : Nat) (s : Schedule) : Prop :=
  s = [] ∨ ∃ e, s.getLast? = some e ∧ count ≤ e.mode

theorem Schedule.stranded_iff {count : Nat} {s : Schedule} :
    s.Stranded count ↔ ∀ i, s.active? = some i → count ≤ i := by
  unfold Stranded active?
  rw [← List.getLast?_eq_none_iff]
  cases s.getLast? with
  | none => simp
  | some e => simp

variable {K S R A : Type} [Scalar K]

namespace Extension

variable {w : Workspace K S R A} {switching : Switching} {stride : Nat}
  {watch : Option (Stopwatch K)} {partials : List (Solution K S R)} {clock : K}

/-- An extension fails if it comes to a candidate without a mode to go on with before the
stopwatch expires. -/
theorem failed_iff :
    (∃ cause, (grow w switching stride watch partials clock).ending = .failed cause) ↔
      switching ≠ .free ∧ ∃ i s, partials[i]? = some s ∧ s.schedule.Stranded w.modes.length ∧
        ∀ j ≤ i, stopsAfter w switching stride watch partials clock j = false := by
  obtain ⟨k, hcourse⟩ := grow_course w switching stride watch partials clock
  constructor
  · rintro ⟨cause, hfailed⟩
    obtain ⟨hgoes, s, hs, herror⟩ := hcourse.failed cause hfailed
    rcases switching.candidates_cases w.modes.length s.schedule with
      ⟨hok, -⟩ | ⟨_, -, -, hrestricted, hrange⟩
    · rw [herror] at hok
      cases hok
    · refine ⟨hrestricted, k, s, hs, Schedule.stranded_iff.mpr hrange, fun j hj => ?_⟩
      rcases hj.lt_or_eq with hlt | rfl
      · exact hcourse.passed j hlt
      · exact hgoes
  · rintro ⟨hrestricted, i, s, hs, hstranded, hgoes⟩
    obtain ⟨cause, herror, -⟩ :=
      switching.candidates_of_no_active hrestricted (Schedule.stranded_iff.mp hstranded)
    -- The extension does not get past the candidate.
    have hle : k ≤ i := by
      refine not_lt.mp fun hlt => ?_
      have hmem : s ∈ partials.take k := by
        rw [← List.getElem?_take_of_lt hlt] at hs
        exact List.mem_of_getElem? hs
      obtain ⟨js, hjs⟩ := hcourse.able s hmem
      rw [herror] at hjs
      cases hjs
    cases hending : (grow w switching stride watch partials clock).ending with
    | done =>
      have hi : i < partials.length := (List.getElem?_eq_some_iff.mp hs).1
      have hk := (hcourse.done hending).1
      omega
    | expired =>
      have hstops := hcourse.expired hending
      rw [hgoes k hle] at hstops
      cases hstops
    | failed cause => exact ⟨cause, rfl⟩

theorem failed_kind {cause : PlanError}
    (h : (grow w switching stride watch partials clock).ending = .failed cause) :
    cause.kind = .search := by
  obtain ⟨k, hcourse⟩ := grow_course w switching stride watch partials clock
  obtain ⟨-, s, -, herror⟩ := hcourse.failed cause h
  rcases switching.candidates_cases w.modes.length s.schedule with
    ⟨hok, -⟩ | ⟨_, hcause, hkind, -⟩
  · rw [herror] at hok
    cases hok
  · obtain rfl := Except.error.inj (herror.symm.trans hcause)
    exact hkind

end Extension

/-! ## Rounds -/

namespace Round

variable {w : Workspace K S R A} {algorithm : Algorithm} {stride : Nat}
  {watch : Option (Stopwatch K)} {f : Frontier K S R} {clock : K} {r : Round K S R}

theorem failure?_eq_some {cause : PlanError} :
    (perform w algorithm stride watch f clock).failure? = some cause ↔
      (Extension.grow w algorithm.switching stride watch f.partials clock).ending =
        .failed cause := by
  unfold failure?
  rw [perform_extension]
  split
  · next other hending => simp [hending]
  · next hnot => simpa using hnot cause

/-- Only the search for a single machine can fail in a round. -/
theorem fails_iff (w : Workspace K S R A) (algorithm : Algorithm) (stride : Nat)
    (watch : Option (Stopwatch K)) (f : Frontier K S R) (clock : K) :
    (∃ cause, (perform w algorithm stride watch f clock).failure? = some cause) ↔
      algorithm = .singleMachine ∧ ∃ i s, f.partials[i]? = some s ∧
        s.schedule.Stranded w.modes.length ∧
          ∀ j ≤ i, Extension.stopsAfter w .none stride watch f.partials clock j = false := by
  simp only [failure?_eq_some, Extension.failed_iff]
  cases algorithm <;> simp [Algorithm.switching]

omit [Scalar K] in
/-- Nothing becomes accepted but what is complete. -/
theorem Proceeds.accepted_subperm {P : Problem K S R A} (h : Proceeds P algorithm f r) :
    r.after.accepted.Subperm (f.accepted ++ r.complete) := by
  rw [h.accepted]
  unfold settleAccepted merge
  split
  · exact (List.sublist_append_left _ _).subperm
  · exact (Pruning.deduplicate_subperm _ _ _).trans (Pruning.undominated_sublist _ _).subperm

end Round

/-! ## Requests -/

namespace Search

variable {problem : Option (Problem K S R A)} {P : Problem K S R A} {modes : List (Mode A)}
  {stepCost : K} {algorithm : Algorithm} {n : Int} {watch : Option (Stopwatch K)}
  {before : Frontier K S R} {clock : K}

/-- What a request for a round comes to: why it fails, if it does, and the lists as the work
done by then leaves them. -/
def upshot (problem : Option (Problem K S R A)) (modes : List (Mode A)) (stepCost : K)
    (algorithm : Algorithm) (stride : Given K) (watch : Option (Stopwatch K))
    (before : Frontier K S R) (clock : K) : Option PlanError × Frontier K S R :=
  match (workOn problem modes stepCost algorithm stride watch).run (Round.begun before clock) with
  | .ok _ r => (none, r.after)
  | .error cause r => (some cause, r.after)

theorem upshot_refused (stepCost : K) (algorithm : Algorithm) (watch : Option (Stopwatch K))
    (before : Frontier K S R) (clock : K) (h : problem = none ∨ n ≤ 0 ∨ modes = []) :
    ∃ cause, upshot problem modes stepCost algorithm (.whole n) watch before clock =
      (some cause, before) ∧ cause.kind = .precondition := by
  cases problem with
  | none => exact ⟨.noProblem, rfl, rfl⟩
  | some P =>
    by_cases hn : n ≤ 0
    · have hstride : requirePositive .stride (.whole n : Given K) =
          .error (.notPositive .stride (toString n)) := by
        simp [requirePositive, Given.atMostZero?, Given.integer?, Given.spelling, hn]
      refine ⟨.notPositive .stride (toString n), ?_, rfl⟩
      rw [upshot, workOn, hstride]
      rfl
    · have hstride : requirePositive .stride (.whole n : Given K) = .ok () :=
        requirePositive_whole.mpr (not_le.mp hn)
      obtain rfl : modes = [] := by simpa [hn] using h
      refine ⟨.noModes, ?_, rfl⟩
      rw [upshot, workOn, hstride]
      rfl

/-- A request that is proper is worked on. -/
theorem workOn_granted (hn : 0 < n) (hmodes : modes ≠ []) :
    (workOn (some P) modes stepCost algorithm (.whole n) watch).run (Round.begun before clock) =
      (Round.work ⟨P, modes, stepCost⟩ P.misfit? algorithm n.toNat watch).run
        (Round.begun before clock) := by
  have hstride : requirePositive .stride (.whole n : Given K) = .ok () :=
    requirePositive_whole.mpr hn
  rw [workOn, hstride, requireModes_eq_ok.mpr hmodes]
  rfl

section

variable (hn : 0 < n) (hmodes : modes ≠ [])
  (hmeasured : ∀ c ∈ (Round.perform ⟨P, modes, stepCost⟩ algorithm n.toNat watch before
    clock).compared, P.misfit? c.state = none)
include hn hmodes hmeasured

theorem workOn_run :
    let r := Round.perform ⟨P, modes, stepCost⟩ algorithm n.toNat watch before clock
    (workOn (some P) modes stepCost algorithm (.whole n) watch).run (Round.begun before clock) =
      match r.failure? with
      | some cause => .error cause r
      | none => .ok () r := by
  intro r
  have hextension : r.extension = Extension.grow ⟨P, modes, stepCost⟩ algorithm.switching
      n.toNat watch before.partials clock := Round.perform_extension
  have hchildren := fun c hc => hmeasured c (r.children_subset_compared hc)
  have haccepted := fun hne c hc =>
    hmeasured c (r.accepted_subset_compared hne (by rwa [Round.perform_before]))
  rw [hextension] at hchildren haccepted
  have hled : r = Round.led P algorithm before _ := Round.perform_eq ..
  rw [workOn_granted hn hmodes, Round.work_run hchildren haccepted, ← hled, Round.failure?,
    hextension]
  cases (Extension.grow ⟨P, modes, stepCost⟩ algorithm.switching n.toNat watch before.partials
    clock).ending <;> rfl

theorem upshot_granted :
    let r := Round.perform ⟨P, modes, stepCost⟩ algorithm n.toNat watch before clock
    upshot (some P) modes stepCost algorithm (.whole n) watch before clock =
      (r.failure?, r.after) := by
  intro r
  rw [upshot, workOn_run hn hmodes hmeasured]
  cases r.failure? <;> rfl

/-- A request that is proper gives the round, failed or not. -/
theorem round_granted :
    round (some P) modes stepCost algorithm (.whole n) watch before clock =
      .ok (Round.perform ⟨P, modes, stepCost⟩ algorithm n.toNat watch before clock) := by
  rw [round, workOn_run hn hmodes hmeasured]
  cases hfailure : (Round.perform ⟨P, modes, stepCost⟩ algorithm n.toNat watch before
      clock).failure? with
  | some cause => simp only [hfailure, Option.isSome_some, if_true]
  | none => rfl

end

end Search

/-- **A round is all or nothing.** Let all candidates that are compared be measurable. A request
for a round is refused for itself exactly if there is no problem, the stride is not positive
or there are no modes. Otherwise the round fails exactly if a single machine is searched for
and some candidate has no last mode in range, while the stopwatch has not expired after any
candidate before it. There are no other reasons, and for either one both lists stay as they
were. Where nothing fails, the children that no accepted candidate dominates are divided: the
complete ones join the accepted ones, and the incomplete ones are left to be extended. So no
complete candidate is, and only complete ones have joined those that were accepted. -/
theorem round_all_or_nothing (problem : Option (Problem K S R A)) (modes : List (Mode A))
    (stepCost : K) (algorithm : Algorithm) (n : Int) (watch : Option (Stopwatch K))
    (before : Frontier K S R) (clock : K)
    (hmeasured : ∀ P ∈ problem, ∀ c ∈ (Round.perform ⟨P, modes, stepCost⟩ algorithm n.toNat watch
      before clock).compared, P.misfit? c.state = none) :
    let improper := problem = none ∨ n ≤ 0 ∨ modes = []
    let upshot := Search.upshot problem modes stepCost algorithm (.whole n) watch before clock
    let failure? := upshot.1
    let after := upshot.2
    ((∃ cause, failure? = some cause ∧ cause.kind = .precondition) ↔ improper) ∧
    ((∃ cause, failure? = some cause ∧ cause.kind = .search) ↔
      ¬improper ∧ algorithm = .singleMachine ∧ ∃ P ∈ problem, ∃ i s,
        before.partials[i]? = some s ∧ s.schedule.Stranded modes.length ∧
          ∀ j ≤ i, Extension.stopsAfter ⟨P, modes, stepCost⟩ .none n.toNat watch before.partials
            clock j = false) ∧
    (∀ cause, failure? = some cause →
      (cause.kind = .precondition ∨ cause.kind = .search) ∧ after = before) ∧
    (failure? = none → ∃ P ∈ problem,
      let children := (Extension.grow ⟨P, modes, stepCost⟩ algorithm.switching n.toNat watch
        before.partials clock).children
      let surviving := Pruning.undominatedBy P.strictlyBetter before.accepted children
      let complete := surviving.filter P.complete
      let incomplete := surviving.filter fun s => !P.complete s
      after.partials = Round.keepPartials P algorithm incomplete ∧
      after.accepted =
        Round.settleAccepted P complete (Round.merge P before.accepted complete) ∧
      (∀ s ∈ after.partials, P.complete s = false) ∧
      after.accepted.Subperm (before.accepted ++ complete) ∧
        ∀ s ∈ complete, P.complete s = true) := by
  intro improper upshot failure? after
  by_cases himproper : improper
  · obtain ⟨cause, hrefused, hkind⟩ :=
      Search.upshot_refused stepCost algorithm watch before clock himproper
    have hupshot : upshot = (some cause, before) := hrefused
    simp [failure?, after, hupshot, hkind, himproper]
  · obtain ⟨hproblem, hn, hmodes⟩ : problem ≠ none ∧ 0 < n ∧ modes ≠ [] := by
      simpa [improper, not_or] using himproper
    obtain ⟨P, rfl⟩ := Option.ne_none_iff_exists'.mp hproblem
    have hgranted : upshot = _ := Search.upshot_granted hn hmodes (hmeasured P rfl)
    have hfails := Round.fails_iff ⟨P, modes, stepCost⟩ algorithm n.toNat watch before clock
    rcases Round.perform_cases ⟨P, modes, stepCost⟩ algorithm n.toNat watch before clock with
      ⟨cause, hfailure, hafter⟩ | ⟨hfailure, hr⟩
    · have hupshot : upshot = (some cause, before) := by rw [hgranted, hfailure, hafter]
      have hkind : cause.kind = .search :=
        Extension.failed_kind (Round.failure?_eq_some.mp hfailure)
      have hstranded := hfails.mp ⟨cause, hfailure⟩
      simpa [failure?, after, hupshot, hkind, himproper] using hstranded
    · have hupshot : upshot = (none, (Round.perform ⟨P, modes, stepCost⟩ algorithm n.toNat watch
          before clock).after) := by rw [hgranted, hfailure]
      have hnever := hfails.not.mp (by simp [hfailure])
      simp only [failure?, after, hupshot]
      have hcomplete := hr.complete
      have hincomplete := hr.incomplete
      rw [hr.surviving, Round.perform_extension] at hcomplete hincomplete
      refine ⟨by simp [himproper], by simpa [himproper] using hnever, by simp, fun _ =>
        ⟨P, rfl, ?_, ?_, fun s hs => (hr.mem_partials hs).2, ?_,
          fun s hs => (List.mem_filter.mp hs).2⟩⟩
      · rw [← hincomplete]
        exact hr.partials
      · rw [← hcomplete]
        exact hr.accepted
      · rw [← hcomplete]
        exact hr.accepted_subperm

/-- The second of two candidates has no mode to go on with: the round fails, and changes
nothing. A stopwatch that expires after the first one saves it. -/
theorem round_all_or_nothing_sample :
    let P := Rate.problem Rate.sampleSettings
    let before : Frontier Rat Rat (Usage Rat) := ⟨[P.seed 0, P.start], []⟩
    let upshot (watch : Option (Stopwatch Rat)) :=
      Search.upshot (some P) Rate.sampleModes 1 .singleMachine (.whole 1) watch before 0
    (∃ cause, (upshot none).1 = some cause ∧ cause.kind = .search) ∧ (upshot none).2 = before ∧
      ¬∃ cause, (upshot (some (Stopwatch.started (some 1) 0))).1 = some cause ∧
        cause.kind = .search := by
  intro P before upshot
  obtain ⟨-, hfails, hkeeps, -⟩ := round_all_or_nothing (some P) Rate.sampleModes 1
    .singleMachine 1 none before 0 (by rintro _ ⟨rfl⟩ _ _; rfl)
  obtain ⟨-, hsaved, -, -⟩ := round_all_or_nothing (some P) Rate.sampleModes 1
    .singleMachine 1 (some (Stopwatch.started (some 1) 0)) before 0 (by rintro _ ⟨rfl⟩ _ _; rfl)
  have hfailure : ∃ cause, (upshot none).1 = some cause ∧ cause.kind = .search := by
    refine hfails.mpr ⟨by decide, rfl, P, rfl, 1, P.start, rfl, Or.inl rfl, fun j _ => ?_⟩
    cases j <;> rfl
  refine ⟨hfailure, ?_, fun hagain => ?_⟩
  · obtain ⟨cause, hcause, -⟩ := hfailure
    exact (hkeeps cause hcause).2
  · obtain ⟨-, -, _, ⟨rfl⟩, i, s, hs, hstranded, hgoes⟩ := hsaved.mp hagain
    cases i with
    | zero =>
      obtain rfl := Option.some.inj hs
      simp [Schedule.Stranded, P, Problem.seed, Problem.start, Rate.sampleModes] at hstranded
    | succ i =>
      have hexpires : Extension.stopsAfter ⟨P, Rate.sampleModes, 1⟩ .none 1
          (some (Stopwatch.started (some 1) 0)) before.partials 0 1 = true := by cbv
      cases hexpires.symm.trans (hgoes 1 (Nat.le_add_left 1 i))

end ModeSchedule
