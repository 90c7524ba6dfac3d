/-
ModeSchedule.Proofs.Search.Edits — what the edits of a round come to.

Each part of the work on a round has a lemma that says how it runs, as long as the candidates
that it compares can be measured: then only the extension can fail, and it comes before the
first edit (`work_run`). What the edits make of the candidates accepted before and of the
children is a function of them, `Round.led`, and `perform_eq` says so of a round.
-/
import ModeSchedule.Proofs.Pruning
import ModeSchedule.Proofs.Requests
import ModeSchedule.Search.Round

namespace ModeSchedule

variable {K S R A : Type} {P : Problem K S R A} {misfit? : S → Option Misfit}
  {algorithm : Algorithm}

/-- Two candidates without a misfit can be compared. -/
theorem Algorithm.compare_eq_ok {x y : Solution K S R} (hx : misfit? x.state = none)
    (hy : misfit? y.state = none) :
    algorithm.compare P misfit? x y = .ok (algorithm.better P x y) := by
  have hone : requireFit misfit? [x] = .ok () := requireFit_eq_ok.mpr (by simp [hx])
  have htwo : requireFit misfit? [x, y] = .ok () := requireFit_eq_ok.mpr (by simp [hx, hy])
  unfold Algorithm.compare
  split
  · cases algorithm <;> simp only [hone, htwo] <;> rfl
  · rfl

namespace Round

variable {r : Round K S R} {extension : Extension K S R}

/-! ## What a round makes of its candidates -/

/-- The accepted candidates once newly complete ones have joined, pruned but
not yet deduplicated. -/
def merge (P : Problem K S R A) (accepted complete : List (Solution K S R)) :
    List (Solution K S R) :=
  if complete.isEmpty then accepted
  else Pruning.undominated P.strictlyBetter (accepted ++ complete)

/-- The merged candidates deduplicated, unless nothing has joined. -/
def settleAccepted (P : Problem K S R A) (complete merged : List (Solution K S R)) :
    List (Solution K S R) :=
  if complete.isEmpty then merged else Pruning.deduplicate P.precedes P.same merged

/-- The incomplete candidates that the next round extends. -/
def keepPartials (P : Problem K S R A) (algorithm : Algorithm)
    (incomplete : List (Solution K S R)) : List (Solution K S R) :=
  match algorithm with
  | .heuristic => Pruning.undominatedBy P.probablyBetter incomplete incomplete
  | _ => incomplete

/-- A round whose extension has not failed, after all edits. -/
def edited (P : Problem K S R A) (algorithm : Algorithm) (before : Frontier K S R)
    (extension : Extension K S R) : Round K S R :=
  let surviving := Pruning.undominatedBy P.strictlyBetter before.accepted extension.children
  let complete := surviving.filter P.complete
  let incomplete := surviving.filter fun s => !P.complete s
  let undominated := merge P before.accepted complete
  { before, extension, surviving, complete, incomplete, undominated
    after :=
      { partials := keepPartials P algorithm incomplete
        accepted := settleAccepted P complete undominated } }

/-- The round that an extension leads to. -/
def led (P : Problem K S R A) (algorithm : Algorithm) (before : Frontier K S R)
    (extension : Extension K S R) : Round K S R :=
  match extension.ending with
  | .failed _ => { begun before extension.clock with extension }
  | _ => edited P algorithm before extension

/-! ## How the parts of a round run -/

theorem run_liftExcept {α : Type} {x : Except PlanError α} {a : α} (h : x = .ok a)
    (r : Round K S R) : (liftExcept x : EStateM PlanError (Round K S R) α).run r = .ok a r := by
  rw [h]
  rfl

theorem proceed_run (h : ∀ c ∈ extension.children, misfit? c.state = none) :
    (proceed misfit? extension).run r =
      match extension.ending with
      | .failed cause => .error cause { r with extension }
      | _ => .ok () { r with extension } := by
  simp only [proceed, EStateM.run_bind, run_liftExcept (requireFit_eq_ok.mpr h),
    EStateM.run_modify]
  cases extension.ending <;> rfl

theorem divide_run (hchildren : ∀ c ∈ r.extension.children, misfit? c.state = none)
    (haccepted : r.extension.children ≠ [] →
      ∀ c ∈ r.after.accepted, misfit? c.state = none) :
    let surviving :=
      Pruning.undominatedBy P.strictlyBetter r.after.accepted r.extension.children
    (divide P misfit?).run r = .ok ()
      { r with
        surviving
        complete := surviving.filter P.complete
        incomplete := surviving.filter fun s => !P.complete s } := by
  intro surviving
  have hpruned : Pruning.undominatedByM (Algorithm.exhaustive.compare P misfit?)
      r.after.accepted r.extension.children = .ok surviving :=
    Pruning.undominatedByM_eq_ok fun y hy x hx =>
      Algorithm.compare_eq_ok (haccepted (List.ne_nil_of_mem hx) y hy) (hchildren x hx)
  have hmeasured : requireFit misfit? surviving = .ok () :=
    requireFit_eq_ok.mpr fun s hs => hchildren s (List.mem_filter.mp hs).1
  simp only [divide, EStateM.run_bind, EStateM.run_get, run_liftExcept hpruned,
    run_liftExcept hmeasured, EStateM.run_set, List.partition_eq_filter_filter,
    Function.comp_def]

theorem join_run (hbegun : r.undominated = r.after.accepted)
    (hmeasured : r.complete ≠ [] →
      ∀ c ∈ r.after.accepted ++ r.complete, misfit? c.state = none) :
    let undominated := merge P r.after.accepted r.complete
    (join P misfit?).run r = .ok ()
      { r.accept (settleAccepted P r.complete undominated) with undominated } := by
  intro undominated
  cases hcomplete : r.complete.isEmpty with
  | true =>
    have hsame : undominated = r.after.accepted := by
      simp only [undominated, merge, hcomplete, if_true]
    have hidle : (join P misfit?).run r = .ok () r := by
      simp only [join, EStateM.run_bind, EStateM.run_get, hcomplete]
      rfl
    rw [hidle, settleAccepted, if_pos hcomplete, hsame]
    obtain ⟨_, _, _, _, _, _, after⟩ := r
    obtain rfl : _ = after.accepted := hbegun
    rfl
  | false =>
    have hne : r.complete ≠ [] := fun hnil => by simp [hnil] at hcomplete
    have hpruned : Pruning.undominatedM (Algorithm.exhaustive.compare P misfit?)
        (r.after.accepted ++ r.complete) = .ok undominated := by
      simp only [undominated, merge, hcomplete, Bool.false_eq_true, if_false]
      exact Pruning.undominatedM_eq_ok fun y hy x hx =>
        Algorithm.compare_eq_ok (hmeasured hne y hy) (hmeasured hne x hx)
    simp only [join, EStateM.run_bind, EStateM.run_get, EStateM.run_modify, hcomplete,
      Bool.not_false, if_true, accept, run_liftExcept hpruned, settleAccepted,
      Bool.false_eq_true, if_false, Pruning.deduplicate]

/-- Where the candidates cannot be compared once the complete ones have joined, the list is
left with these in it. -/
theorem join_run_error {cause : PlanError} (hne : r.complete ≠ [])
    (h : Pruning.undominatedM (Algorithm.exhaustive.compare P misfit?)
      (r.after.accepted ++ r.complete) = .error cause) :
    (join P misfit?).run r = .error cause (r.accept (r.after.accepted ++ r.complete)) := by
  have hcomplete : r.complete.isEmpty = false := by simpa using hne
  simp only [join, EStateM.run_bind, EStateM.run_get, EStateM.run_modify, hcomplete,
    Bool.not_false, if_true, accept, h]
  rfl

theorem retain_run (hmeasured : ∀ c ∈ r.incomplete, misfit? c.state = none) :
    (retain P misfit? algorithm).run r = .ok ()
      { r with after := { r.after with partials := keepPartials P algorithm r.incomplete } } := by
  cases algorithm with
  | heuristic =>
    have hpruned : Pruning.undominatedByM (Algorithm.heuristic.compare P misfit?) r.incomplete
        r.incomplete = .ok (keepPartials P .heuristic r.incomplete) :=
      Pruning.undominatedByM_eq_ok fun y hy x hx =>
        Algorithm.compare_eq_ok (hmeasured y hy) (hmeasured x hx)
    simp only [retain, EStateM.run_bind, EStateM.run_get, EStateM.run_modify,
      run_liftExcept hpruned]
  | exhaustive => rfl
  | singleMachine => rfl

/-! ## How a round runs -/

variable {before : Frontier K S R} {clock : K}

/-- If the children can be measured, and so can, if there are any, the candidates accepted
before, then no edit fails. -/
theorem edits_run (hchildren : ∀ c ∈ extension.children, misfit? c.state = none)
    (haccepted : extension.children ≠ [] → ∀ c ∈ before.accepted, misfit? c.state = none) :
    (do divide P misfit?; join P misfit?; retain P misfit? algorithm : Work K S R Unit).run
        { begun before clock with extension } =
      .ok () (edited P algorithm before extension) := by
  have hsurviving : ∀ c ∈ Pruning.undominatedBy P.strictlyBetter before.accepted
      extension.children, misfit? c.state = none :=
    fun c hc => hchildren c (List.mem_filter.mp hc).1
  have hdivide := divide_run (P := P) (r := { begun before clock with extension }) hchildren
    haccepted
  rw [EStateM.run_bind, hdivide]
  dsimp only
  rw [EStateM.run_bind, join_run rfl ?_]
  · dsimp only
    rw [retain_run fun c hc => hsurviving c (List.mem_filter.mp hc).1]
    rfl
  · intro hne c hc
    rcases List.mem_append.mp hc with hc | hc
    · refine haccepted (fun hnil => hne ?_) c hc
      simp [hnil, begun, Pruning.undominatedBy]
    · exact hsurviving c (List.mem_filter.mp hc).1

variable [Scalar K] {w : Workspace K S R A} {stride : Nat} {watch : Option (Stopwatch K)}

/-- All work on a round, if what it compares can be measured: only the extension can fail, and
then nothing has been edited. -/
theorem work_run
    (hchildren : ∀ c ∈ (Extension.grow w algorithm.switching stride watch before.partials
      clock).children, misfit? c.state = none)
    (haccepted : (Extension.grow w algorithm.switching stride watch before.partials
      clock).children ≠ [] → ∀ c ∈ before.accepted, misfit? c.state = none) :
    let extension := Extension.grow w algorithm.switching stride watch before.partials clock
    (work w misfit? algorithm stride watch).run (begun before clock) =
      match extension.ending with
      | .failed cause => .error cause (led w.problem algorithm before extension)
      | _ => .ok () (led w.problem algorithm before extension) := by
  intro extension
  have hwork : (work w misfit? algorithm stride watch).run (begun before clock) =
      (do proceed misfit? extension; divide w.problem misfit?; join w.problem misfit?
          retain w.problem misfit? algorithm : Work K S R Unit).run (begun before clock) := rfl
  rw [hwork, EStateM.run_bind, proceed_run hchildren, led]
  cases hending : extension.ending with
  | failed cause => rfl
  | done => exact edits_run hchildren haccepted
  | expired => exact edits_run hchildren haccepted

/-- A round is what its extension leads to. -/
theorem perform_eq (w : Workspace K S R A) (algorithm : Algorithm) (stride : Nat)
    (watch : Option (Stopwatch K)) (before : Frontier K S R) (clock : K) :
    perform w algorithm stride watch before clock = led w.problem algorithm before
      (Extension.grow w algorithm.switching stride watch before.partials clock) := by
  rw [perform, work_run (fun _ _ => rfl) (fun _ _ _ => rfl)]
  split <;> rfl

end Round
end ModeSchedule
