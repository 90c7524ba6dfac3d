/-
ModeSchedule.Proofs.Search.Rounds — what a round does, and what a level keeps.

From the course of an extension it follows that a child comes from a candidate that was
extended, by a run of one mode it may go on with (`exists_candidate`, `exists_parent`), and
that an extension that was not cut short makes the child for every candidate and every such
mode (`child_mem`).

`Round.perform_cases` says everything that a round can do: it fails and changes
nothing, or it proceeds as `Round.Proceeds` tells. From it come the origins of
the candidates that a round leaves.

`Level.perform_invariant` carries a property of frontiers from one round to the
next through a whole level; the property may count the rounds. Where it is asked
for of each round on the way, `Level.runRounds_before` has it.
-/
import ModeSchedule.Proofs.Search.Branching
import ModeSchedule.Proofs.Search.Edits
import ModeSchedule.Search.Level

namespace ModeSchedule

variable {K S R A : Type} [Scalar K]

/-! ## Children -/

namespace Extension

variable {w : Workspace K S R A} {switching : Switching} {stride : Nat}
  {watch : Option (Stopwatch K)} {partials : List (Solution K S R)} {clock : K}

theorem mem_branch {s : Solution K S R} {js : List Nat} {run : Run K S R} :
    run ∈ branch w stride s js ↔
      ∃ i ∈ js, ∃ m, w.modes[i]? = some m ∧ Run.advance w.problem m.dynamics i stride s = run := by
  simp only [branch, List.mem_filterMap, Option.map_eq_some_iff]

/-- Every child is a run of a mode that an extended candidate may go on with, and
starts at that candidate. -/
theorem exists_candidate {c : Solution K S R}
    (h : c ∈ (grow w switching stride watch partials clock).children) :
    ∃ s ∈ partials, ∃ js, switching.candidates w.modes.length s.schedule = .ok js ∧
      ∃ i ∈ js, ∃ m, w.modes[i]? = some m ∧
        (Run.advance w.problem m.dynamics i stride s).solution = c := by
  obtain ⟨k, hcourse⟩ := grow_course w switching stride watch partials clock
  rw [hcourse.children] at h
  obtain ⟨s, hs, run, hrun, rfl⟩ := mem_childrenOf.mp h
  obtain ⟨js, hjs⟩ := hcourse.able s hs
  rw [← branch_eq_offspring hjs] at hrun
  obtain ⟨i, hi, m, hm, hadvance⟩ := mem_branch.mp hrun
  exact ⟨s, List.mem_of_mem_take hs, js, hjs, i, hi, m, hm, congrArg Run.solution hadvance⟩

/-- Every child is a run of one mode that starts at an extended candidate. -/
theorem exists_parent {c : Solution K S R}
    (h : c ∈ (grow w switching stride watch partials clock).children) :
    ∃ s ∈ partials, ∃ i m, w.modes[i]? = some m ∧
      (Run.advance w.problem m.dynamics i stride s).solution = c := by
  obtain ⟨s, hs, _, -, i, -, m, hm, hc⟩ := exists_candidate h
  exact ⟨s, hs, i, m, hm, hc⟩

/-- An extension that was not cut short has a child for every candidate and
every mode it may go on with. -/
theorem child_mem (hdone : (grow w switching stride watch partials clock).ending = .done)
    {s : Solution K S R} (hs : s ∈ partials) {js : List Nat}
    (hjs : switching.candidates w.modes.length s.schedule = .ok js) {i : Nat} (hi : i ∈ js)
    {m : Mode A} (hm : w.modes[i]? = some m) :
    (Run.advance w.problem m.dynamics i stride s).solution ∈
      (grow w switching stride watch partials clock).children := by
  obtain ⟨k, hcourse⟩ := grow_course w switching stride watch partials clock
  rw [hcourse.children, List.take_of_length_le (hcourse.done hdone).1.ge]
  refine mem_childrenOf.mpr ⟨s, hs, _, ?_, rfl⟩
  rw [← branch_eq_offspring hjs]
  exact mem_branch.mpr ⟨i, hi, m, hm, rfl⟩

/-- An extension of candidates each of which may go on does not fail. -/
theorem grow_ending_ne_failed
    (h : ∀ s ∈ partials, ∃ js, switching.candidates w.modes.length s.schedule = .ok js)
    (cause : PlanError) :
    (grow w switching stride watch partials clock).ending ≠ .failed cause := by
  obtain ⟨k, hcourse⟩ := grow_course w switching stride watch partials clock
  intro hfailed
  obtain ⟨-, s, hs, herror⟩ := hcourse.failed cause hfailed
  obtain ⟨js, hjs⟩ := h s (List.mem_of_getElem? hs)
  rw [herror] at hjs
  cases hjs

/-- Under free switching no candidate is without a mode. -/
theorem grow_free_ending (cause : PlanError) :
    (grow w .free stride watch partials clock).ending ≠ .failed cause :=
  grow_ending_ne_failed (fun _ _ => ⟨_, rfl⟩) cause

/-- Without a limit no extension is cut short by the stopwatch. -/
theorem grow_unlimited_ending {watch : Stopwatch K} (hwatch : watch.limit = none) :
    (grow w switching stride (some watch) partials clock).ending ≠ .expired := by
  obtain ⟨k, hcourse⟩ := grow_course w switching stride (some watch) partials clock
  intro hexpired
  have hstops := hcourse.expired hexpired
  cases k with
  | zero => cases hstops
  | succ k => simp [stopsAfter, Stopwatch.expired, hwatch] at hstops

/-- An extension that was not cut short ends before the limit is reached. -/
theorem not_expired_of_done {watch : Stopwatch K} (hne : partials ≠ [])
    (hdone : (grow w switching stride (some watch) partials clock).ending = .done) :
    watch.expired (grow w switching stride (some watch) partials clock).clock = false := by
  obtain ⟨k, hcourse⟩ := grow_course w switching stride (some watch) partials clock
  obtain ⟨hall, hgoes⟩ := hcourse.done hdone
  rw [hcourse.time]
  cases k with
  | zero => exact absurd (List.eq_nil_of_length_eq_zero hall.symm) hne
  | succ k => simpa [stopsAfter] using hgoes

end Extension

/-! ## One round -/

namespace Round

variable {w : Workspace K S R A} {algorithm : Algorithm} {stride : Nat}
  {watch : Option (Stopwatch K)} {f : Frontier K S R} {clock : K}

omit [Scalar K] in
theorem mem_merge {P : Problem K S R A} {accepted complete : List (Solution K S R)}
    {s : Solution K S R} (h : s ∈ merge P accepted complete) : s ∈ accepted ∨ s ∈ complete := by
  unfold merge at h
  split at h
  · exact Or.inl h
  · exact List.mem_append.mp (Pruning.mem_of_mem_undominated h)

omit [Scalar K] in
theorem mem_settleAccepted {P : Problem K S R A} {complete merged : List (Solution K S R)}
    {s : Solution K S R} (h : s ∈ settleAccepted P complete merged) : s ∈ merged := by
  unfold settleAccepted at h
  split at h
  · exact h
  · exact Pruning.mem_of_mem_deduplicate h

omit [Scalar K] in
theorem mem_keepPartials {P : Problem K S R A} {incomplete : List (Solution K S R)}
    {s : Solution K S R} (h : s ∈ keepPartials P algorithm incomplete) : s ∈ incomplete := by
  cases algorithm with
  | heuristic => exact (List.mem_filter.mp h).1
  | exhaustive => exact h
  | singleMachine => exact h

/-- The course of a round that does not fail. -/
structure Proceeds (P : Problem K S R A) (algorithm : Algorithm) (f : Frontier K S R)
    (r : Round K S R) : Prop where
  surviving : r.surviving =
    Pruning.undominatedBy P.strictlyBetter f.accepted r.extension.children
  complete : r.complete = r.surviving.filter P.complete
  incomplete : r.incomplete = r.surviving.filter fun s => !P.complete s
  partials : r.after.partials = keepPartials P algorithm r.incomplete
  accepted : r.after.accepted = settleAccepted P r.complete (merge P f.accepted r.complete)

namespace Proceeds

variable {P : Problem K S R A} {r : Round K S R} {s : Solution K S R}

omit [Scalar K] in
theorem mem_complete (h : Proceeds P algorithm f r) :
    s ∈ r.complete ↔ s ∈ r.surviving ∧ P.complete s = true := by
  rw [h.complete, List.mem_filter]

omit [Scalar K] in
theorem mem_incomplete (h : Proceeds P algorithm f r) :
    s ∈ r.incomplete ↔ s ∈ r.surviving ∧ P.complete s = false := by
  rw [h.incomplete, List.mem_filter, Bool.not_eq_true']

omit [Scalar K] in
theorem surviving_subset (h : Proceeds P algorithm f r) : r.surviving ⊆ r.extension.children := by
  intro s hs
  rw [h.surviving] at hs
  exact (List.mem_filter.mp hs).1

omit [Scalar K] in
theorem complete_subset (h : Proceeds P algorithm f r) : r.complete ⊆ r.extension.children :=
  fun _ hs => h.surviving_subset (h.mem_complete.mp hs).1

omit [Scalar K] in
/-- What is left accepted was so before, or is a complete child. -/
theorem mem_accepted (h : Proceeds P algorithm f r) (hs : s ∈ r.after.accepted) :
    s ∈ f.accepted ∨ s ∈ r.extension.children ∧ P.complete s = true := by
  rw [h.accepted] at hs
  rcases mem_merge (mem_settleAccepted hs) with hs | hs
  · exact Or.inl hs
  · exact Or.inr ⟨h.complete_subset hs, (h.mem_complete.mp hs).2⟩

omit [Scalar K] in
/-- What is left to be extended is an incomplete child. -/
theorem mem_partials (h : Proceeds P algorithm f r) (hs : s ∈ r.after.partials) :
    s ∈ r.extension.children ∧ P.complete s = false := by
  rw [h.partials] at hs
  obtain ⟨hsurviving, hincomplete⟩ := h.mem_incomplete.mp (mem_keepPartials hs)
  exact ⟨h.surviving_subset hsurviving, hincomplete⟩

end Proceeds

@[simp] theorem perform_before : (perform w algorithm stride watch f clock).before = f := by
  rw [perform_eq, led]
  split <;> rfl

@[simp] theorem perform_extension :
    (perform w algorithm stride watch f clock).extension =
      Extension.grow w algorithm.switching stride watch f.partials clock := by
  rw [perform_eq, led]
  split <;> rfl

omit [Scalar K] in
theorem edited_proceeds (P : Problem K S R A) (algorithm : Algorithm) (f : Frontier K S R)
    (extension : Extension K S R) : Proceeds P algorithm f (edited P algorithm f extension) :=
  ⟨rfl, rfl, rfl, rfl, rfl⟩

/-- A round fails and changes nothing, or it proceeds. -/
theorem perform_cases (w : Workspace K S R A) (algorithm : Algorithm) (stride : Nat)
    (watch : Option (Stopwatch K)) (f : Frontier K S R) (clock : K) :
    (∃ cause, (perform w algorithm stride watch f clock).failure? = some cause ∧
        (perform w algorithm stride watch f clock).after = f) ∨
      ((perform w algorithm stride watch f clock).failure? = none ∧
        Proceeds w.problem algorithm f (perform w algorithm stride watch f clock)) := by
  unfold failure?
  rw [perform_extension, perform_eq, led]
  cases (Extension.grow w algorithm.switching stride watch f.partials clock).ending with
  | failed cause => exact Or.inl ⟨cause, rfl, rfl⟩
  | done => exact Or.inr ⟨rfl, edited_proceeds ..⟩
  | expired => exact Or.inr ⟨rfl, edited_proceeds ..⟩

/-- A round whose extension was not cut short proceeds. -/
theorem proceeds_of_done
    (hdone : (perform w algorithm stride watch f clock).extension.ending = .done) :
    Proceeds w.problem algorithm f (perform w algorithm stride watch f clock) := by
  rcases perform_cases w algorithm stride watch f clock with ⟨_, hfailure, -⟩ | ⟨-, hproceeds⟩
  · simp only [failure?, hdone] at hfailure
    cases hfailure
  · exact hproceeds

/-- Under free switching a round proceeds. -/
theorem proceeds_of_free (halgorithm : algorithm.switching = .free) :
    (perform w algorithm stride watch f clock).failure? = none ∧
      Proceeds w.problem algorithm f (perform w algorithm stride watch f clock) := by
  rcases perform_cases w algorithm stride watch f clock with ⟨_, hfailure, -⟩ | hproceeds
  · unfold failure? at hfailure
    rw [perform_extension, halgorithm] at hfailure
    split at hfailure
    · next cause hending => exact absurd hending (Extension.grow_free_ending cause)
    · cases hfailure
  · exact hproceeds

/-- What a round leaves accepted was so before, or is a complete child. -/
theorem mem_accepted {s : Solution K S R}
    (h : s ∈ (perform w algorithm stride watch f clock).after.accepted) :
    s ∈ f.accepted ∨
      s ∈ (perform w algorithm stride watch f clock).extension.children ∧
        w.problem.complete s = true := by
  rcases perform_cases w algorithm stride watch f clock with ⟨_, -, hafter⟩ | ⟨-, hr⟩
  · rw [hafter] at h
    exact Or.inl h
  · exact hr.mem_accepted h

/-- What a round leaves to be extended was so before, or is an incomplete child. -/
theorem mem_partials {s : Solution K S R}
    (h : s ∈ (perform w algorithm stride watch f clock).after.partials) :
    s ∈ f.partials ∨
      s ∈ (perform w algorithm stride watch f clock).extension.children ∧
        w.problem.complete s = false := by
  rcases perform_cases w algorithm stride watch f clock with ⟨_, -, hafter⟩ | ⟨-, hr⟩
  · rw [hafter] at h
    exact Or.inl h
  · exact Or.inr (hr.mem_partials h)

omit [Scalar K] in
/-- The children of a round are compared in it. -/
theorem children_subset_compared (r : Round K S R) : r.extension.children ⊆ r.compared := by
  intro s hs
  unfold compared
  split
  · next hnil => rw [hnil] at hs; cases hs
  · exact List.mem_append_left _ hs

omit [Scalar K] in
/-- Where there are children, they are compared with what was accepted before. -/
theorem accepted_subset_compared (r : Round K S R) (h : r.extension.children ≠ []) :
    r.before.accepted ⊆ r.compared := by
  intro s hs
  unfold compared
  split
  · next hnil => exact absurd hnil h
  · exact List.mem_append_right _ hs

end Round

/-! ## Levels -/

namespace Level

variable {w : Workspace K S R A} {algorithm : Algorithm} {stride : Nat} {watch : Stopwatch K}

/-- The frontier that rounds lead to. -/
def reached (start : Frontier K S R) (rounds : List (Round K S R)) : Frontier K S R :=
  match rounds.getLast? with
  | some r => r.after
  | none => start

omit [Scalar K] in
theorem reached_cons (start : Frontier K S R) (r : Round K S R) (rounds : List (Round K S R)) :
    reached start (r :: rounds) = reached r.after rounds := by
  cases rounds with
  | nil => rfl
  | cons r' rounds => simp [reached, List.getLast?_cons]

theorem runRounds_empty {n : Nat} {f : Frontier K S R} {clock : K} (hempty : f.partials = []) :
    runRounds w algorithm stride watch n f clock = [] := by
  cases n with
  | zero => rfl
  | succ n => simp only [runRounds, hempty, List.isEmpty_nil, if_true]

/-- Where something is left to be extended, a round is performed; then the level
ends, or goes on with what the round left. -/
theorem runRounds_cons (w : Workspace K S R A) (algorithm : Algorithm) (stride : Nat)
    (watch : Stopwatch K) (n : Nat) {f : Frontier K S R} (clock : K) (hne : f.partials ≠ []) :
    ∃ first later,
      runRounds w algorithm stride watch (n + 1) f clock = first :: later ∧
      first = Round.perform w algorithm stride (some watch) f clock ∧
      ((first.failure?.isSome || watch.expired first.clock) = true ∧ later = [] ∨
        (first.failure?.isSome || watch.expired first.clock) = false ∧
          later = runRounds w algorithm stride watch n first.after first.clock) := by
  simp only [runRounds, List.isEmpty_iff, hne, if_false]
  split
  · next h => exact ⟨_, _, rfl, rfl, Or.inl ⟨h, rfl⟩⟩
  · next h => exact ⟨_, _, rfl, rfl, Or.inr ⟨by simpa only [Bool.not_eq_true] using h, rfl⟩⟩

/-- A property that every round passes on, counting the rounds, holds where the
rounds lead to. -/
theorem runRounds_invariant (Inv : Nat → Frontier K S R → Prop) (n : Nat) {k : Nat}
    {f : Frontier K S R} {clock : K} (hstart : Inv k f)
    (hstep : ∀ r ∈ runRounds w algorithm stride watch n f clock, ∀ j now,
      r = Round.perform w algorithm stride (some watch) r.before now →
        Inv j r.before → Inv (j + 1) r.after) :
    Inv (k + (runRounds w algorithm stride watch n f clock).length)
      (reached f (runRounds w algorithm stride watch n f clock)) := by
  induction n generalizing k f clock with
  | zero => exact hstart
  | succ n ih =>
    simp only [runRounds] at hstep ⊢
    split
    · exact hstart
    · next hne =>
      simp only [hne, if_false, Bool.false_eq_true] at hstep
      have hfirst : Inv (k + 1) (Round.perform w algorithm stride (some watch) f clock).after := by
        refine hstep _ ?_ k clock (by rw [Round.perform_before]) (by rwa [Round.perform_before])
        split <;> exact List.mem_cons_self
      split
      · exact hfirst
      · next hgo =>
        simp only [hgo, if_false, Bool.false_eq_true] at hstep
        have hrest := ih hfirst fun r hr => hstep r (List.mem_cons_of_mem _ hr)
        rw [reached_cons, List.length_cons, Nat.add_comm _ 1, ← Nat.add_assoc]
        exact hrest

/-- A property that every round passes on, counting the rounds, holds where each
round begins. -/
theorem runRounds_before (Inv : Nat → Frontier K S R → Prop)
    (hstep : ∀ j g now, Inv j g →
      Inv (j + 1) (Round.perform w algorithm stride (some watch) g now).after)
    (n : Nat) {k : Nat} {f : Frontier K S R} {clock : K} (hstart : Inv k f) :
    ∀ i r, (runRounds w algorithm stride watch n f clock)[i]? = some r → Inv (k + i) r.before := by
  induction n generalizing k f clock with
  | zero => simp [runRounds]
  | succ n ih =>
    intro i r hr
    rcases eq_or_ne f.partials [] with hempty | hne
    · rw [runRounds_empty hempty] at hr
      cases hr
    · obtain ⟨first, later, hcons, hfirst, hlater⟩ :=
        runRounds_cons w algorithm stride watch n clock hne
      rw [hcons] at hr
      cases i with
      | zero =>
        obtain rfl := Option.some.inj hr
        rwa [hfirst, Round.perform_before]
      | succ i =>
        rcases hlater with ⟨-, rfl⟩ | ⟨-, rfl⟩
        · cases hr
        · rw [Nat.add_comm i, ← Nat.add_assoc]
          refine ih ?_ i r hr
          rw [hfirst]
          exact hstep k f clock hstart

/-- Every round extends candidates: it is not performed on none. -/
theorem mem_runRounds {n : Nat} {f : Frontier K S R} {clock : K} {r : Round K S R}
    (h : r ∈ runRounds w algorithm stride watch n f clock) :
    r.before.partials ≠ [] ∧
      ∃ now, r = Round.perform w algorithm stride (some watch) r.before now := by
  induction n generalizing f clock with
  | zero => simp [runRounds] at h
  | succ n ih =>
    simp only [runRounds] at h
    split at h
    · cases h
    · next hne =>
      have hfirst : (Round.perform w algorithm stride (some watch) f clock).before.partials ≠ [] ∧
          ∃ now, Round.perform w algorithm stride (some watch) f clock =
            Round.perform w algorithm stride (some watch)
              (Round.perform w algorithm stride (some watch) f clock).before now := by
        rw [Round.perform_before]
        exact ⟨fun hnil => hne (List.isEmpty_iff.mpr hnil), clock, rfl⟩
      split at h
      · rw [List.mem_singleton.mp h]
        exact hfirst
      · rcases List.mem_cons.mp h with rfl | h
        · exact hfirst
        · exact ih h

theorem length_runRounds_le (n : Nat) (f : Frontier K S R) (clock : K) :
    (runRounds w algorithm stride watch n f clock).length ≤ n := by
  induction n generalizing f clock with
  | zero => simp [runRounds]
  | succ n ih =>
    simp only [runRounds]
    split
    · simp
    · split
      · simp
      · simpa using ih _ _

/-- Rounds that neither fail nor find the limit reached go on until the horizon
is covered or nothing is left to be extended. -/
theorem runRounds_exhausted (n : Nat) {f : Frontier K S R} {clock : K}
    (hfail : ∀ r ∈ runRounds w algorithm stride watch n f clock, r.failure? = none)
    (hwatch : ∀ r ∈ runRounds w algorithm stride watch n f clock, watch.expired r.clock = false) :
    (runRounds w algorithm stride watch n f clock).length = n ∨
      (reached f (runRounds w algorithm stride watch n f clock)).partials = [] := by
  induction n generalizing f clock with
  | zero => exact Or.inl rfl
  | succ n ih =>
    simp only [runRounds] at hfail hwatch ⊢
    split
    · next hempty => exact Or.inr (List.isEmpty_iff.mp hempty)
    · next hne =>
      simp only [hne, if_false, Bool.false_eq_true] at hfail hwatch
      have hgo : ((Round.perform w algorithm stride (some watch) f clock).failure?.isSome ||
          watch.expired (Round.perform w algorithm stride (some watch) f clock).clock) = false := by
        rw [hfail _ (by split <;> exact List.mem_cons_self),
          hwatch _ (by split <;> exact List.mem_cons_self)]
        rfl
      simp only [hgo, if_false, Bool.false_eq_true] at hfail hwatch ⊢
      rcases ih (fun r hr => hfail r (List.mem_cons_of_mem _ hr))
        (fun r hr => hwatch r (List.mem_cons_of_mem _ hr)) with hlen | hempty
      · exact Or.inl (by rw [List.length_cons, hlen])
      · exact Or.inr (by rwa [reached_cons])

variable {resolution : Resolution K} {accepted : List (Solution K S R)} {clock : K}

/-- What every round of a level passes on holds of the frontier it reaches. -/
theorem perform_invariant (Inv : Nat → Frontier K S R → Prop)
    (hstart : Inv 0 (startFrontier w accepted))
    (hstep : ∀ r ∈ (perform w algorithm resolution watch accepted clock).rounds, ∀ k now,
      r = Round.perform w algorithm resolution.stride (some watch) r.before now →
        Inv k r.before → Inv (k + 1) r.after) :
    Inv (perform w algorithm resolution watch accepted clock).rounds.length
      (perform w algorithm resolution watch accepted clock).final := by
  have h := runRounds_invariant Inv resolution.blocks hstart hstep
  rwa [Nat.zero_add] at h

/-- No reading of the stopwatch finds its limit reached. -/
def Unhurried (l : Level K S R) : Prop := ∀ r ∈ l.rounds, r.extension.ending ≠ .expired

theorem unhurried_of_unlimited (hwatch : watch.limit = none) :
    (perform w algorithm resolution watch accepted clock).Unhurried := by
  intro r hr
  obtain ⟨-, now, hperform⟩ := mem_runRounds hr
  rw [hperform, Round.perform_extension]
  exact Extension.grow_unlimited_ending hwatch

/-- Under free switching no level fails. -/
theorem failure_eq_none (halgorithm : algorithm.switching = .free) :
    (perform w algorithm resolution watch accepted clock).failure? = none := by
  unfold failure?
  cases hlast : (perform w algorithm resolution watch accepted clock).rounds.getLast? with
  | none => rfl
  | some r =>
    obtain ⟨-, now, hperform⟩ := mem_runRounds (List.mem_of_getLast? hlast)
    rw [Option.bind_some, hperform]
    exact (Round.proceeds_of_free halgorithm).1

/-- Under free switching, the extensions of an unhurried level are not cut short. -/
theorem Unhurried.done (halgorithm : algorithm.switching = .free)
    (h : (perform w algorithm resolution watch accepted clock).Unhurried) :
    ∀ r ∈ (perform w algorithm resolution watch accepted clock).rounds,
      r.extension.ending = .done := by
  intro r hr
  obtain ⟨-, now, hperform⟩ := mem_runRounds hr
  have hexpired := h r hr
  have hfailed : ∀ cause, r.extension.ending ≠ .failed cause := by
    rw [hperform, Round.perform_extension, halgorithm]
    exact Extension.grow_free_ending
  cases hending : r.extension.ending with
  | done => rfl
  | expired => exact absurd hending hexpired
  | failed cause => exact absurd hending (hfailed cause)

/-- A level whose extensions are not cut short covers the horizon, or leaves
nothing to be extended. -/
theorem perform_exhausted
    (hdone : ∀ r ∈ (perform w algorithm resolution watch accepted clock).rounds,
      r.extension.ending = .done) :
    (perform w algorithm resolution watch accepted clock).rounds.length = resolution.blocks ∨
      (perform w algorithm resolution watch accepted clock).final.partials = [] := by
  refine runRounds_exhausted resolution.blocks ?_ ?_
  · intro r hr
    simp only [Round.failure?, hdone r hr]
  · intro r hr
    obtain ⟨hne, now, hperform⟩ := mem_runRounds hr
    have hending := hdone r hr
    unfold Round.clock
    rw [hperform, Round.perform_extension] at hending ⊢
    exact Extension.not_expired_of_done hne hending

/-- What a level leaves accepted it began with, or compared as a complete child. -/
theorem mem_final_accepted {s : Solution K S R}
    (h : s ∈ (perform w algorithm resolution watch accepted clock).final.accepted) :
    s ∈ accepted ∨ s ∈ (perform w algorithm resolution watch accepted clock).compared ∧
      w.problem.complete s = true := by
  refine perform_invariant (fun _ f => ∀ s ∈ f.accepted, s ∈ accepted ∨
    s ∈ (perform w algorithm resolution watch accepted clock).compared ∧
      w.problem.complete s = true) (fun s hs => Or.inl hs) ?_ s h
  intro r hr _ now hperform hbefore s hs
  have hchild := Round.mem_accepted (hperform ▸ hs)
  rw [← hperform] at hchild
  rcases hchild with hs | ⟨hs, hcomplete⟩
  · exact hbefore s hs
  · exact Or.inr ⟨List.mem_flatMap.mpr ⟨r, hr, Round.children_subset_compared r hs⟩, hcomplete⟩

end Level
end ModeSchedule
