/-
ModeSchedule.Proofs.Swarm.Improvement — refining a result keeps its shape and worsens nothing.

The leader of a refinement is the given candidate or a trial that is fitter
(`refine_leads`), so the candidate it ends with costs no more than the given one
(`refine_noWorse`). The candidates of a front are refined one after the other, as are
the fronts of a result, and all of them draw from one generator. Nothing is asked of
the draws, so what holds of one candidate holds at every place
(`refineSolutions_related`, `refineOutcome_refines`).

Two results of one shape are compared at every place, in order (`findings_eq`), and a
number that has not grown is not found worse on both sides (`not_both_worsened`).
`refinement_keeps_shape` is the statement for a whole result.
-/
import ModeSchedule.Proofs.Swarm.Tracking
import ModeSchedule.Report.Comparison
import ModeSchedule.Swarm.Refine
import ModeSchedule.Tapping.Machine

namespace ModeSchedule.Swarm

/-! ## One candidate -/

section

variable {G K S R A : Type} [Scalar K]

/-- The second candidate costs no more than the first one, if that costs anything:
if it is complete, so is the second one. -/
def NoWorse (P : Problem K S R A) (s t : Solution K S R) : Prop :=
  ∀ x ∈ fitnessOf P s, ∃ y ∈ fitnessOf P t, y ≤ x

variable [Scalar.Ordered K] {source : Source G K} {P : Problem K S R A} {q : Parameters K}
  {modes : List (Mode A)} {s : Solution K S R} {g g' : G} {r : Refinement K S R}

theorem noWorse_of_not_fitter {t : Solution K S R} (hs : IsCost (fitnessOf P s))
    (ht : IsCost (fitnessOf P t)) (h : fitter (fitnessOf P s) (fitnessOf P t) = false) :
    NoWorse P s t := by
  intro x hx
  rw [Option.mem_def] at hx
  rw [hx] at h
  cases hy : fitnessOf P t with
  | none =>
    have hx' : Scalar.exact x ≠ .undefined := hs x hx
    simp [hy, fitter, hx'] at h
  | some y =>
    simp only [hy, fitter, decide_eq_false_iff_not] at h
    refine ⟨y, rfl, ?_⟩
    by_contra hle
    exact h ((Scalar.not_le (ht y hy) (hs x hx)).mp hle)

omit [Scalar.Ordered K] in
/-- Without rounds the given candidate leads. -/
theorem leads_of_no_generations (hstart : r.start = Leader.ofSolution P s)
    (hnone : r.generations = []) :
    Leads (Leader.ofSolution P s) (r.trialsOf q.rounds) r.leader ∧
      r.leader.fitness = fitnessOf P r.solution := by
  have hleader : r.leader = Leader.ofSolution P s := by
    rw [Refinement.leader, hnone, List.getLast?_nil, hstart]
  rw [Refinement.solution, hleader]
  exact ⟨.start (by simp [Refinement.trialsOf, hnone]), rfl⟩

/-- The given candidate leads a refinement to its end, or a trial does that is the
best of all. -/
theorem refine_leads (h : refine source P q modes s g = .ok (r, g'))
    (hinput : IsCost (fitnessOf P s)) (hcosts : ∀ e ∈ r.trialsOf q.rounds, IsCost e.fitness) :
    Leads (Leader.ofSolution P s) (r.trialsOf q.rounds) r.leader ∧
      r.leader.fitness = fitnessOf P r.solution := by
  obtain ⟨hstart, ⟨-, hnone⟩ | ⟨hschedule, -⟩⟩ := refine_cases h
  · exact leads_of_no_generations hstart hnone
  · have htracked := refine_tracked hschedule h hinput hcosts
    rcases Nat.eq_zero_or_pos q.rounds with hzero | hrounds
    · have hnone : r.generations = [] := List.eq_nil_of_length_eq_zero (htracked.length.trans hzero)
      exact leads_of_no_generations hstart hnone
    · obtain ⟨_, -, -, hleads⟩ := htracked.last hrounds
      exact ⟨hleads, hleads.fitness_eq rfl (htracked.fitness_eq q.rounds)⟩

/-- A refined candidate costs no more than the given one. -/
theorem refine_noWorse (h : refine source P q modes s g = .ok (r, g'))
    (hinput : IsCost (fitnessOf P s)) (hcosts : ∀ e ∈ r.trialsOf q.rounds, IsCost e.fitness) :
    NoWorse P s r.solution := by
  obtain ⟨hleads, hfitness⟩ := refine_leads h hinput hcosts
  obtain ⟨hmem, hleast⟩ := hleads.least
  rw [hfitness] at hmem hleast
  refine noWorse_of_not_fitter hinput ?_ (hleast _ List.mem_cons_self)
  rcases List.mem_cons.mp hmem with heq | hmem
  · rw [heq]
    exact hinput
  · obtain ⟨e, he, heq⟩ := List.mem_map.mp hmem
    rw [← heq]
    exact hcosts e he

end

/-! ## Fronts and results -/

/-- What stands in a place of one of two related lists has its match in the same place
of the other one. -/
theorem exists_match {α β : Type} {rel : α → β → Prop} {xs : List α} {ys : List β}
    (h : List.Forall₂ rel xs ys) {i : Nat} {x : α} (hx : xs[i]? = some x) :
    ∃ y, ys[i]? = some y ∧ rel x y := by
  obtain ⟨hi, rfl⟩ := List.getElem?_eq_some_iff.mp hx
  have hi' : i < ys.length := h.length_eq ▸ hi
  exact ⟨ys[i], List.getElem?_eq_getElem hi', h.get hi hi'⟩

section

variable {G K S R A : Type} [Scalar K] {source : Source G K} {P : Problem K S R A}
  {q : Parameters K} {modes : List (Mode A)} {g g' : G}

/-- The second front has the numbers of the first one, and in the places of its
candidates others that are related to them. -/
structure Refines (rel : Solution K S R → Solution K S R → Prop) (f f' : Front K S R) : Prop where
  stepLength : f'.stepLength = f.stepLength
  stride : f'.stride = f.stride
  rounds : f'.rounds = f.rounds
  runtime : f'.runtime = f.runtime
  solutions : List.Forall₂ rel f.solutions f'.solutions

variable {rel : Solution K S R → Solution K S R → Prop}

/-- What relates each candidate to its refinement, whatever the draws before it were,
relates the candidates of a front. -/
theorem refineSolutions_related
    (hrel : ∀ s g r g', refine source P q modes s g = .ok (r, g') → rel s r.solution)
    {xs : List (Solution K S R)} {rs : List (Refinement K S R)}
    (h : refineSolutions source (some P) q modes xs g = .ok (rs, g')) :
    List.Forall₂ rel xs (rs.map Refinement.solution) := by
  induction xs generalizing g rs with
  | nil =>
    simp only [refineSolutions, Except.ok.injEq, Prod.mk.injEq] at h
    rw [← h.1]
    exact .nil
  | cons s xs ih =>
    obtain ⟨_, hP, h⟩ := Granted.bind.mp h
    obtain rfl := Except.ok.inj hP
    obtain ⟨⟨r, middle⟩, hr, h⟩ := Granted.bind.mp h
    obtain ⟨⟨rest, last⟩, hrest, h⟩ := Granted.bind.mp h
    simp only [Pure.pure, Except.pure, Except.ok.injEq, Prod.mk.injEq] at h
    obtain ⟨rfl, rfl⟩ := h
    exact .cons (hrel s g r middle hr) (ih hrest)

theorem refineOutcome_refines
    (hrel : ∀ s g r g', refine source P q modes s g = .ok (r, g') → rel s r.solution)
    {o : Outcome K S R} {rs : List (FrontRefinement K S R)}
    (h : refineOutcome source (some P) q modes o g = .ok (rs, g')) :
    List.Forall₂ (Refines rel) o (rs.map FrontRefinement.refined) := by
  induction o generalizing g rs with
  | nil =>
    simp only [refineOutcome, Except.ok.injEq, Prod.mk.injEq] at h
    rw [← h.1]
    exact .nil
  | cons f o ih =>
    obtain ⟨⟨r, middle⟩, hr, h⟩ := Granted.bind.mp h
    obtain ⟨⟨rest, last⟩, hrest, h⟩ := Granted.bind.mp h
    simp only [Pure.pure, Except.pure, Except.ok.injEq, Prod.mk.injEq] at h
    obtain ⟨rfl, rfl⟩ := h
    obtain ⟨⟨refinements, _⟩, hrefinements, hr⟩ := Granted.bind.mp hr
    simp only [Pure.pure, Except.pure, Except.ok.injEq, Prod.mk.injEq] at hr
    obtain ⟨rfl, rfl⟩ := hr
    exact .cons ⟨rfl, rfl, rfl, rfl, refineSolutions_related hrel hrefinements⟩ (ih hrest)

end

/-- Of a complete candidate, what costs no more is complete, too. -/
theorem NoWorse.complete {S R A : Type} {P : Problem Rat S R A} {s t : Solution Rat S R}
    (h : NoWorse P s t) (hs : P.complete s = true) :
    P.complete t = true ∧ P.cost t.resources ≤ P.cost s.resources := by
  have hcost : ∀ u : Solution Rat S R, fitnessOf P u =
      if P.complete u then some (P.cost u.resources) else none := by
    intro u
    rfl
  obtain ⟨y, hy, hle⟩ := h (P.cost s.resources) (by rw [hcost, if_pos hs]; rfl)
  rw [hcost, Option.mem_def] at hy
  split at hy
  · next ht =>
    rw [← Option.some.inj hy] at hle
    exact ⟨ht, hle⟩
  · cases hy

end ModeSchedule.Swarm

namespace ModeSchedule

/-! ## Comparing results of one shape -/

namespace Outcome

variable {K S : Type} {o o' : Outcome K S (Usage K)}

/-- As many fronts, and as many candidates in each of them. -/
abbrev Alike (o o' : Outcome K S (Usage K)) : Prop :=
  List.Forall₂ (fun f f' : Front K S (Usage K) => f.solutions.length = f'.solutions.length) o o'

/-- The comparisons of two fronts, candidate by candidate. -/
def paired (number : Nat) (f f' : Front K S (Usage K)) : List (Comparison K) :=
  (f.solutions.zip f'.solutions).zipIdx.map fun ((s, t), j) =>
    { front := number, place := j + 1, before := s.resources, after := t.resources }

/-- The numbers of the first of two lists of one length are those of their pairs. -/
theorem zipIdx_zip {α β : Type} {xs : List α} {ys : List β} (h : xs.length = ys.length) :
    xs.zipIdx = (xs.zip ys).zipIdx.map fun x => (x.1.1, x.2) := by
  have hfst : (xs.zip ys).map Prod.fst = xs := List.map_fst_zip h.le
  conv_lhs => rw [← hfst, List.zipIdx_map]
  rfl

theorem compareFronts_eq {f f' : Front K S (Usage K)}
    (h : f.solutions.length = f'.solutions.length) (number : Nat) :
    compareFronts number f f' = (paired number f f').map .compared := by
  simp [compareFronts, paired, h]

/-- Results of one shape differ in their candidates only. -/
theorem findings_eq (h : Alike o o') :
    findings o o' =
      ((o.zip o').zipIdx.flatMap fun x => paired (x.2 + 1) x.1.1 x.1.2).map .compared := by
  simp only [findings, h.length_eq, bne_self_eq_false, Bool.false_eq_true, if_false,
    List.map_flatMap]
  refine List.flatMap_congr fun x hx => ?_
  have hmem : x.1 ∈ o.zip o' := (List.mem_zipIdx' hx).2 ▸ List.getElem_mem _
  exact compareFronts_eq ((List.forall₂_iff_zip.mp h).2 hmem) _

theorem comparisons_eq [Scalar K] (h : Alike o o') :
    comparisons o o' = (o.zip o').zipIdx.flatMap fun x => paired (x.2 + 1) x.1.1 x.1.2 := by
  rw [comparisons, findings_eq h, List.filterMap_map]
  exact List.filterMap_some

/-- There is one comparison for each candidate, in order. -/
theorem comparisons_places [Scalar K] (h : Alike o o') :
    (comparisons o o').map (fun c => (c.front, c.place, c.before)) =
      o.zipIdx.flatMap fun (f, i) =>
        f.solutions.zipIdx.map fun (s, j) => (i + 1, j + 1, s.resources) := by
  rw [comparisons_eq h, List.map_flatMap, zipIdx_zip h.length_eq, List.flatMap_map]
  refine List.flatMap_congr fun x hx => ?_
  have hmem : x.1 ∈ o.zip o' := (List.mem_zipIdx' hx).2 ▸ List.getElem_mem _
  simp only [zipIdx_zip ((List.forall₂_iff_zip.mp h).2 hmem), paired, List.map_map]
  rfl

theorem mem_comparisons [Scalar K] (h : Alike o o') {c : Comparison K}
    (hc : c ∈ comparisons o o') :
    ∃ (i j : Nat) (f f' : Front K S (Usage K)) (s t : Solution K S (Usage K)),
      o[i]? = some f ∧ o'[i]? = some f' ∧ f.solutions[j]? = some s ∧ f'.solutions[j]? = some t ∧
        c = ⟨i + 1, j + 1, s.resources, t.resources⟩ := by
  rw [comparisons_eq h] at hc
  obtain ⟨⟨⟨f, f'⟩, i⟩, hi, hc⟩ := List.mem_flatMap.mp hc
  obtain ⟨⟨⟨s, t⟩, j⟩, hj, rfl⟩ := List.mem_map.mp hc
  have hfronts := List.getElem?_zip_eq_some.mp (List.mem_zipIdx_iff_getElem?.mp hi)
  have hsolutions := List.getElem?_zip_eq_some.mp (List.mem_zipIdx_iff_getElem?.mp hj)
  exact ⟨i, j, f, f', s, t, hfronts.1, hfronts.2, hsolutions.1, hsolutions.2, rfl⟩

end Outcome

/-- The cost of a usage is the sum of its numbers. -/
theorem Usage.cost_rat (u : Usage Rat) : Usage.cost u = u.energy + u.time := by
  change 0 + u.energy + u.time = u.energy + u.time
  rw [zero_add]

/-- Of two numbers whose sum has not grown, not both have. -/
theorem Comparison.not_both_worsened {c : Comparison Rat}
    (h : c.after.energy + c.after.time ≤ c.before.energy + c.before.time) :
    ¬(c.time = .worsened ∧ c.energy = .worsened) := by
  have hgrown : ∀ x y : Rat, Change.between x y = .worsened → x < y := by
    intro x y hxy
    unfold Change.between at hxy
    split at hxy
    · cases hxy
    · split at hxy
      · assumption
      · cases hxy
  rintro ⟨htime, henergy⟩
  have ht := hgrown _ _ htime
  have he := hgrown _ _ henergy
  linarith

/-! ## Whole results -/

namespace Swarm

/-- **Refining a result keeps its shape and worsens nothing.** Where a usage costs
the sum of its energy and its time, as in the one-dimensional domain and for both
tapping machines, every refinement that is granted yields as many fronts, with the
numbers they had and as many candidates, and no candidate costs more than the one
in its place did. Comparing the two results yields one comparison for each
candidate, in order. A complete candidate stays complete, its energy and time do
not add up to more, and it is not found to be worse in both. -/
theorem refinement_keeps_shape :
    (∀ settings : Settings Rat Rat, (Rate.problem settings).cost = Usage.cost) ∧
    (∀ (setup : Tapping.Setup Rat)
      (move : Linear.Drive Rat → Rat → Tapping.State Rat → Tapping.State Rat),
      (Tapping.machine setup move).cost = Usage.cost) ∧
    ∀ {G S A : Type} (source : Source G Rat) (P : Problem Rat S (Usage Rat) A)
      (_ : P.cost = Usage.cost) (q : Parameters Rat) (modes : List (Mode A))
      (o : Outcome Rat S (Usage Rat)) (g g' : G) (rs : List (FrontRefinement Rat S (Usage Rat)))
      (_ : refineOutcome source (some P) q modes o g = .ok (rs, g')),
      let o' := rs.map FrontRefinement.refined
      List.Forall₂ (Refines (NoWorse P)) o o' ∧
      Outcome.findings o o' = (Outcome.comparisons o o').map .compared ∧
      (Outcome.comparisons o o').map (fun c => (c.front, c.place, c.before)) =
        (o.zipIdx.flatMap fun (f, i) =>
          f.solutions.zipIdx.map fun (s, j) => (i + 1, j + 1, s.resources)) ∧
      ∀ (i j : Nat) (f : Front Rat S (Usage Rat)) (s : Solution Rat S (Usage Rat)),
        o[i]? = some f → f.solutions[j]? = some s → P.complete s = true →
        ∃ f' t, o'[i]? = some f' ∧ f'.solutions[j]? = some t ∧ P.complete t = true ∧
          t.resources.energy + t.resources.time ≤ s.resources.energy + s.resources.time ∧
          ∀ c ∈ Outcome.comparisons o o', c.front = i + 1 → c.place = j + 1 →
            c.before = s.resources ∧ c.after = t.resources ∧
              ¬(c.time = .worsened ∧ c.energy = .worsened) := by
  refine ⟨fun _ => rfl, fun _ _ => rfl, ?_⟩
  intro G S A source P hcost q modes o g g' rs h o'
  have hrefines : List.Forall₂ (Refines (NoWorse P)) o o' := by
    refine refineOutcome_refines (fun s g r g' hr => ?_) h
    exact refine_noWorse hr (fun x _ => Scalar.isNumber_rat x)
      (fun e _ x _ => Scalar.isNumber_rat x)
  have halike : Outcome.Alike o o' := hrefines.imp fun _ _ hf => hf.solutions.length_eq
  refine ⟨hrefines, ?_, Outcome.comparisons_places halike, ?_⟩
  · rw [Outcome.findings_eq halike, Outcome.comparisons_eq halike]
  · intro i j f s hf hs hcomplete
    obtain ⟨f', hf', hfront⟩ := exists_match hrefines hf
    obtain ⟨t, ht, hnoWorse⟩ := exists_match hfront.solutions hs
    obtain ⟨hcompleted, hle⟩ := hnoWorse.complete hcomplete
    rw [hcost, Usage.cost_rat, Usage.cost_rat] at hle
    refine ⟨f', t, hf', ht, hcompleted, hle, fun c hc hfrontNumber hplace => ?_⟩
    obtain ⟨i', j', e, e', u, v, he, he', hu, hv, rfl⟩ := Outcome.mem_comparisons halike hc
    obtain rfl : i' = i := Nat.succ.inj hfrontNumber
    obtain rfl : j' = j := Nat.succ.inj hplace
    -- The places are the same, so the candidates are.
    obtain rfl : f = e := Option.some.inj (hf.symm.trans he)
    obtain rfl : f' = e' := Option.some.inj (hf'.symm.trans he')
    obtain rfl : s = u := Option.some.inj (hs.symm.trans hu)
    obtain rfl : t = v := Option.some.inj (ht.symm.trans hv)
    exact ⟨rfl, rfl, Comparison.not_both_worsened hle⟩

/-! ## A result of two fronts -/

/-- One candidate in the first front and none in the second one. -/
def sampleOutcome : Outcome Rat Rat (Usage Rat) :=
  [{ solutions := [sampleCandidate], stepLength := 2, stride := 2, rounds := 1, runtime := 3 },
   { solutions := [], stepLength := 1, stride := 1, rounds := 2, runtime := 4 }]

theorem sample_refineOutcome : ∃ rs g, refineOutcome sampleSource
      (some (Rate.problem sampleSettings)) sampleParameters Rate.sampleModes
      sampleOutcome 0 = .ok (rs, g) ∧
    (Outcome.comparisons sampleOutcome (rs.map FrontRefinement.refined)).map
      (fun c => (c.front, c.place, c.energy, c.time)) = [(1, 1, .improved, .improved)] := by
  have h : (refineOutcome sampleSource (some (Rate.problem sampleSettings)) sampleParameters
      Rate.sampleModes sampleOutcome 0).map
        (fun x => (Outcome.comparisons sampleOutcome (x.1.map FrontRefinement.refined)).map
          (fun c => (c.front, c.place, c.energy, c.time))) =
      .ok [(1, 1, .improved, .improved)] := by cbv
  obtain ⟨⟨rs, g⟩, hrs, hseen⟩ := Granted.map.mp h
  exact ⟨rs, g, hrs, hseen⟩

theorem refinement_keeps_shape_sample : ∃ rs g, refineOutcome sampleSource
      (some (Rate.problem sampleSettings)) sampleParameters Rate.sampleModes
      sampleOutcome 0 = .ok (rs, g) ∧
    List.Forall₂ (Refines (NoWorse (Rate.problem sampleSettings))) sampleOutcome
      (rs.map FrontRefinement.refined) ∧
    (Outcome.findings sampleOutcome (rs.map FrontRefinement.refined)).length = 1 ∧
    ∃ f t, (rs.map FrontRefinement.refined)[0]? = some f ∧ f.solutions[0]? = some t ∧
      (Rate.problem sampleSettings).complete t = true ∧
      t.resources.energy + t.resources.time ≤ (41 / 5 : Rat) := by
  obtain ⟨rs, g, hrs, hcompared⟩ := sample_refineOutcome
  obtain ⟨hrefines, hfindings, -, hplaces⟩ := refinement_keeps_shape.2.2 sampleSource
    (Rate.problem sampleSettings) rfl sampleParameters Rate.sampleModes sampleOutcome 0 g rs
    hrs
  obtain ⟨f, t, hf, ht, hcomplete, hle, -⟩ := hplaces 0 0 _ sampleCandidate rfl rfl (by cbv)
  have hsum :
      sampleCandidate.resources.energy + sampleCandidate.resources.time = (41 / 5 : Rat) := by
    decide +kernel
  refine ⟨rs, g, hrs, hrefines, ?_, f, t, hf, ht, hcomplete, hsum ▸ hle⟩
  rw [hfindings, List.length_map]
  simpa using congrArg List.length hcompared

end Swarm
end ModeSchedule
