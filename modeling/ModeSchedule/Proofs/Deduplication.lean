/-
ModeSchedule.Proofs.Deduplication — what is left of a list without its repetitions.

Deduplication sorts a list and drops what is the same as the last candidate it kept. It
loses nothing that is not the same as something kept, whatever the list (`Distilled`). What
it leaves of a consistent list does not depend on how it sorts, either: of the candidates
that have used the same it is the first one, and they stand in the order of usage
(`deduplication_conserves`).

Sameness is not transitive, and candidates with one schedule do not compare. So a list in
which they have used different amounts need not come out in order, and then deduplicating
it again makes another list of it. It leaves it as it is exactly if the candidates stand in
the order of usage (`deduplication_settles`).
-/
import ModeSchedule.Proofs.Stability
import ModeSchedule.Proofs.Likeness
import ModeSchedule.Proofs.Search.Fronts

namespace ModeSchedule

/-! ## Lists that deduplication leaves as they are -/

namespace Pruning

open Insertion

variable {α : Type} {before same : α → α → Bool} {xs : List α} {p : α → Bool} {x : α}

/-- A list without neighbours that are the same stays as it is if sorting leaves it so. -/
theorem deduplicate_eq_self_iff (h : xs.IsChain fun a b => same a b = false) :
    deduplicate before same xs = xs ↔ sort before xs = xs := by
  unfold deduplicate
  constructor
  · intro heq
    -- Nothing was dropped, as nothing is missing.
    have hlength : (collapse same (sort before xs)).length = (sort before xs).length := by
      rw [heq, (sort_perm before xs).length_eq]
    rw [← (collapse_sublist same _).eq_of_length hlength, heq]
  · intro hsort
    rw [hsort, collapse_of_isChain h]

/-- Of members that do not compare, the first one is kept and no other, if none but these
are the same as one of them. -/
theorem filter_collapse (hx : xs.find? p = some x) (hp : Abreast before p xs)
    (hclosed : ∀ z ∈ xs, same z x = true → p z = true)
    (hordered : (collapse same xs).Pairwise fun a b => before a b = true) :
    (collapse same xs).filter p = [x] := by
  obtain ⟨hpx, front, back, rfl, hfront⟩ := List.find?_eq_some_iff_append.mp hx
  have hnew : ∀ z ∈ front, same z x = false := by
    intro z hz
    rw [← Bool.not_eq_true]
    intro hsame
    have hpz := hfront z hz
    rw [hclosed z (by simp [hz]) hsame] at hpz
    cases hpz
  have hkept : x ∈ collapse same (front ++ x :: back) := by
    cases front with
    | nil => exact head_mem_collapse same x back
    | cons y front => exact mem_collapse_of_new hnew
  have hselected : x ∈ (collapse same (front ++ x :: back)).filter p :=
    List.mem_filter.mpr ⟨hkept, hpx⟩
  have hone : ((collapse same (front ++ x :: back)).filter p).length ≤ 1 := by
    refine length_filter_le_one hordered fun a ha b hb hpa hpb => ?_
    have hsub := (collapse_sublist same (front ++ x :: back)).subset
    simp [hp a (hsub ha) b (hsub hb) hpa hpb]
  obtain ⟨y, hy⟩ := List.length_eq_one_iff.mp
    (Nat.le_antisymm hone (List.length_pos_of_mem hselected))
  rw [hy] at hselected ⊢
  rw [List.mem_singleton.mp hselected]

end Pruning

/-! ## The one-dimensional domain -/

namespace Rate

open Pruning UsageOrder

variable {K : Type} [Scalar K] {settings : Settings K K} {xs once : List (Candidate K)}
  {a b s : Candidate K}

/-- The second candidate has used the same as the first. -/
def usesAs (s r : Candidate K) : Bool := Usage.equals s.resources r.resources

/-- What is left of a list of candidates without repetitions. -/
structure Distilled (xs kept : List (Candidate K)) : Prop where
  /-- Nothing is new, and nothing occurs more often than before. -/
  sublist : ∃ arranged : List (Candidate K), arranged.Perm xs ∧ kept.Sublist arranged
  /-- No neighbours are the same. -/
  apart : kept.IsChain fun a b => byValue.same a b = false
  /-- What is not left is the same as something that is. -/
  represented : ∀ s ∈ xs, s ∈ kept ∨ ∃ t ∈ kept, byValue.same t s = true
  /-- The candidates of a consistent list come out in the order of usage. -/
  ascending : Consistent xs → Ascending kept
  /-- Of those that have used the same, the first one is left and no other. -/
  first : Consistent xs → ∀ s ∈ xs, ∃ t,
    xs.find? (usesAs s) = some t ∧ kept.filter (usesAs s) = [t]

/-- Deduplication is granted, and is the collapse of a sorted list. -/
theorem deduplicate_eq (settings : Settings K K) (xs : List (Candidate K)) :
    Search.deduplicate (some (problem settings)) xs =
      .ok (deduplicate (problem settings).precedes (problem settings).same xs) := rfl

theorem equals_of_same (h : Consistent xs) (ha : a ∈ xs) (hb : b ∈ xs)
    (hsame : byValue.same a b = true) : Usage.equals a.resources b.resources = true := by
  simp only [same, byValue, Bool.or_eq_true, beq_iff_eq] at hsame
  exact hsame.elim (h.resources a ha b hb) id

/-- What precedes another candidate has used less. -/
theorem less_of_precedes (h : Solution.precedes Usage.less a b = true) :
    Usage.less a.resources b.resources = true :=
  (Bool.and_eq_true_iff.mp h).2

variable [Scalar.Ordered K]

/-- Candidates that have used the same do not come one before the other. -/
theorem abreast_usesAs (s : Candidate K) (xs : List (Candidate K)) :
    Insertion.Abreast (problem settings).precedes (usesAs s) xs := by
  intro a _ b _ ha hb
  rw [← Bool.not_eq_true]
  intro hab
  have hne := Usage.equals_eq_false_of_less (less_of_precedes hab)
  rw [Usage.equals_trans (Usage.equals_symm ha) hb] at hne
  cases hne

theorem collapse_distilled {arrange : List (Candidate K) → List (Candidate K)}
    (harrange : Insertion.IsStableSort (problem settings).precedes arrange)
    (xs : List (Candidate K)) : Distilled xs (collapse (problem settings).same (arrange xs)) := by
  have hperm := harrange.perm xs
  have hordered : Consistent xs → (collapse (problem settings).same (arrange xs)).Pairwise
      fun a b => (problem settings).precedes a b = true := by
    intro h
    have hranking := precedes_ranking h
    refine collapse_pairwise (hranking.mono hperm.subset) (harrange.sorted hranking) ?_
    exact fun a ha b hb hab => precedes_total (h.numbers a (hperm.subset ha))
      (h.numbers b (hperm.subset hb)) hab
  refine ⟨⟨_, hperm, collapse_sublist _ _⟩, collapse_isChain _ _, ?_, ?_, ?_⟩
  · intro s hs
    have hkept : ∃ t ∈ collapse (problem settings).same (arrange xs),
        t = s ∨ (problem settings).same t s = true := exists_collapsed (hperm.mem_iff.mpr hs)
    obtain ⟨t, ht, rfl | hts⟩ := hkept
    · exact Or.inl ht
    · exact Or.inr ⟨t, ht, hts⟩
  · exact fun h => (hordered h).imp less_of_precedes
  · intro h s hs
    have habreast : Insertion.Abreast (problem settings).precedes (usesAs s) xs :=
      abreast_usesAs s xs
    -- The first one after sorting is the first one before, as sorting is stable.
    have hfind : (arrange xs).find? (usesAs s) = xs.find? (usesAs s) := by
      rw [← List.head?_filter, ← List.head?_filter,
        harrange.stable (precedes_ranking h) habreast]
    have hself : usesAs s s = true := Usage.equals_refl (h.numbers s hs)
    obtain ⟨t, ht⟩ := Option.isSome_iff_exists.mp (List.find?_isSome.mpr ⟨s, hs, hself⟩)
    refine ⟨t, ht, filter_collapse (hfind.trans ht) (habreast.mono hperm.subset) ?_ (hordered h)⟩
    intro z hz hzt
    have hst : usesAs s t = true := List.find?_some ht
    have heq := equals_of_same h (hperm.subset hz) (List.mem_of_find?_eq_some ht) hzt
    exact Usage.equals_trans hst (Usage.equals_symm heq)

theorem precedes_oneWay (xs : List (Candidate K)) :
    Insertion.OneWay (problem settings).precedes xs := by
  intro a _ b _ hab
  rw [← Bool.not_eq_true]
  intro hba
  have hnot := Usage.less_asymm (less_of_precedes hab)
  rw [less_of_precedes hba] at hnot
  cases hnot

/-- A list without neighbours that are the same is in the order of usage if no candidate
precedes the one in front of it. -/
theorem stepwise_iff (hnumbers : ∀ s ∈ once, s.resources.IsNumber)
    (hapart : once.IsChain fun a b => byValue.same a b = false) :
    Insertion.Stepwise (problem settings).precedes once ↔ Ascending once := by
  have : IsTrans (Candidate K) fun a b => Usage.less a.resources b.resources = true :=
    ⟨fun _ _ _ => Usage.less_trans⟩
  constructor
  · intro h
    refine List.IsChain.pairwise (List.isChain_iff_getElem.mpr fun i hi => ?_)
    have hnot : (problem settings).precedes once[i + 1] once[i] = false :=
      List.isChain_iff_getElem.mp h i hi
    have htotal := precedes_total (hnumbers _ (List.getElem_mem _))
      (hnumbers _ (List.getElem_mem _)) (List.isChain_iff_getElem.mp hapart i hi)
    exact less_of_precedes (htotal.resolve_right ((Bool.not_eq_true _).mpr hnot))
  · intro h
    refine h.isChain.imp fun a b hab => ?_
    rw [← Bool.not_eq_true]
    intro hba
    have hnot := Usage.less_asymm hab
    rw [less_of_precedes hba] at hnot
    cases hnot

/-- What deduplication leaves of a list, it leaves as it is once more exactly if it is in the
order of usage. -/
theorem deduplicate_again_iff (settings : Settings K K)
    (hnumbers : ∀ s ∈ once, s.resources.IsNumber)
    (hapart : once.IsChain fun a b => byValue.same a b = false) :
    Search.deduplicate (some (problem settings)) once = .ok once ↔ Ascending once := by
  calc Search.deduplicate (some (problem settings)) once = .ok once
      ↔ deduplicate (problem settings).precedes (problem settings).same once = once := by
        rw [deduplicate_eq, Except.ok.injEq]
    _ ↔ Insertion.sort (problem settings).precedes once = once := deduplicate_eq_self_iff hapart
    _ ↔ Insertion.Stepwise (problem settings).precedes once :=
        Insertion.sort_eq_self_iff (precedes_oneWay once)
    _ ↔ Ascending once := stepwise_iff hnumbers hapart

/-- In a consistent list in the order of usage no two candidates are the same. -/
theorem pairwise_apart (h : Consistent once) (hascending : Ascending once) :
    once.Pairwise fun a b => byValue.same a b = false ∧ byValue.same b a = false := by
  refine hascending.imp_of_mem fun ha hb hab => ?_
  have hne := Usage.equals_eq_false_of_less hab
  constructor
  · rw [← Bool.not_eq_true]
    intro hsame
    rw [equals_of_same h ha hb hsame] at hne
    cases hne
  · rw [← Bool.not_eq_true]
    intro hsame
    rw [Usage.equals_symm (equals_of_same h hb ha hsame)] at hne
    cases hne

end Rate

/-- **Deduplication conserves a list, and puts a consistent one in order.** In the
one-dimensional domain, what it leaves of a list is a part of the list rearranged. No
neighbours in it are the same, and each candidate that it dropped is the same as one that it
left. If the list is consistent, what is left stands in the strict order of usage, and holds
for each usage that occurs in the list the first candidate with that usage and no other.

All this is due to the collapse of neighbours, and holds for it after any stable sort. -/
theorem deduplication_conserves {K : Type} [Scalar K] [Scalar.Ordered K] (settings : Settings K K)
    (xs : List (Rate.Candidate K)) :
    (∃ kept, Search.deduplicate (some (Rate.problem settings)) xs = .ok kept ∧
      Rate.Distilled xs kept) ∧
    ∀ arrange, Insertion.IsStableSort (Rate.problem settings).precedes arrange →
      Rate.Distilled xs (Pruning.collapse (Rate.problem settings).same (arrange xs)) := by
  have hdistilled : ∀ arrange, Insertion.IsStableSort (Rate.problem settings).precedes arrange →
      Rate.Distilled xs (Pruning.collapse (Rate.problem settings).same (arrange xs)) :=
    fun _ harrange => Rate.collapse_distilled harrange xs
  exact ⟨⟨_, Rate.deduplicate_eq settings xs, hdistilled _ (Insertion.sort_isStableSort _)⟩,
    hdistilled⟩

/-- A candidate of one step of a mode that has used a given energy and no time. -/
def Rate.spent (mode : Nat) (energy : Rat) : Rate.Candidate Rat :=
  { schedule := [⟨mode, 1⟩], state := 0, resources := ⟨energy, 0⟩, distance := none }

/-- A candidate that occurs twice, and two that have used the same. -/
def Rate.consistentSample : List (Rate.Candidate Rat) :=
  [Rate.spent 1 2, Rate.spent 0 1, Rate.spent 2 2, Rate.spent 0 1]

theorem Rate.consistentSample_consistent : UsageOrder.Consistent Rate.consistentSample where
  numbers s _ := Usage.isNumber_rat s.resources
  resources := by
    intro a ha b hb
    simp only [consistentSample, List.mem_cons, List.not_mem_nil, or_false] at ha hb
    rcases ha with rfl | rfl | rfl | rfl <;> rcases hb with rfl | rfl | rfl | rfl <;>
      simp [spent, Usage.equals]

theorem Rate.deduplicate_consistentSample :
    Search.deduplicate (some (Rate.problem Rate.sampleSettings)) Rate.consistentSample =
      .ok [Rate.spent 0 1, Rate.spent 1 2] := by
  cbv

theorem deduplication_conserves_sample : ∃ kept,
    Search.deduplicate (some (Rate.problem Rate.sampleSettings)) Rate.consistentSample =
      .ok kept ∧
    kept = [Rate.spent 0 1, Rate.spent 1 2] ∧ Ascending kept ∧
    (∃ t, Rate.consistentSample.find? (Rate.usesAs (Rate.spent 2 2)) = some t ∧
      kept.filter (Rate.usesAs (Rate.spent 2 2)) = [t]) ∧
    ∀ arrange, Insertion.IsStableSort (Rate.problem Rate.sampleSettings).precedes arrange →
      Ascending (Pruning.collapse (Rate.problem Rate.sampleSettings).same
        (arrange Rate.consistentSample)) := by
  obtain ⟨⟨kept, hkept, hdistilled⟩, hany⟩ :=
    deduplication_conserves Rate.sampleSettings Rate.consistentSample
  have hconsistent := Rate.consistentSample_consistent
  refine ⟨kept, hkept, ?_, hdistilled.ascending hconsistent,
    hdistilled.first hconsistent _ (by simp [Rate.consistentSample]),
    fun arrange harrange => (hany arrange harrange).ascending hconsistent⟩
  exact Except.ok.inj (hkept.symm.trans Rate.deduplicate_consistentSample)

/-- **Deduplication settles consistent lists.** In the one-dimensional domain, it leaves no
neighbours that are the same of any list in which all resources are numbers. To deduplicate
what it leaves once more changes nothing exactly if the candidates stand in the strict order
of usage; they do if the list was consistent, and then no two of them are the same. -/
theorem deduplication_settles {K : Type} [Scalar K] [Scalar.Ordered K] (settings : Settings K K)
    (xs : List (Rate.Candidate K)) (hnumbers : ∀ s ∈ xs, s.resources.IsNumber) :
    ∃ once, Search.deduplicate (some (Rate.problem settings)) xs = .ok once ∧
      once.IsChain (fun a b => (Rate.problem settings).same a b = false) ∧
      (Search.deduplicate (some (Rate.problem settings)) once = .ok once ↔ Ascending once) ∧
      (UsageOrder.Consistent xs →
        Search.deduplicate (some (Rate.problem settings)) once = .ok once ∧
        once.Pairwise fun a b => (Rate.problem settings).same a b = false ∧
          (Rate.problem settings).same b a = false) := by
  have hdistilled : Rate.Distilled xs (Pruning.deduplicate (Rate.problem settings).precedes
      (Rate.problem settings).same xs) :=
    Rate.collapse_distilled (Insertion.sort_isStableSort _) xs
  have hsub : Pruning.deduplicate (Rate.problem settings).precedes (Rate.problem settings).same xs
      ⊆ xs := fun _ => Pruning.mem_of_mem_deduplicate
  have hagain := Rate.deduplicate_again_iff settings
    (fun s hs => hnumbers s (hsub hs)) hdistilled.apart
  refine ⟨_, Rate.deduplicate_eq settings xs, hdistilled.apart, hagain, fun h => ?_⟩
  exact ⟨hagain.mpr (hdistilled.ascending h),
    Rate.pairwise_apart (h.mono hsub) (hdistilled.ascending h)⟩

theorem deduplication_settles_sample : ∃ once,
    Search.deduplicate (some (Rate.problem Rate.sampleSettings)) Rate.consistentSample =
      .ok once ∧
    once = [Rate.spent 0 1, Rate.spent 1 2] ∧
    Search.deduplicate (some (Rate.problem Rate.sampleSettings)) once = .ok once ∧
    once.Pairwise fun a b => (Rate.problem Rate.sampleSettings).same a b = false ∧
      (Rate.problem Rate.sampleSettings).same b a = false := by
  obtain ⟨once, honce, -, -, hsettles⟩ := deduplication_settles Rate.sampleSettings
    Rate.consistentSample fun s _ => Usage.isNumber_rat s.resources
  obtain ⟨hagain, hapart⟩ := hsettles Rate.consistentSample_consistent
  refine ⟨once, honce, ?_, hagain, hapart⟩
  exact Except.ok.inj (honce.symm.trans Rate.deduplicate_consistentSample)

/-- Candidates of two modes, of which the second has used different amounts. -/
def Rate.disputed : List (Rate.Candidate Rat) :=
  [Rate.spent 0 0, Rate.spent 1 1, Rate.spent 1 0, Rate.spent 0 0]

/-- Other lists need not settle: one candidate is left twice, and is dropped only when the
list is deduplicated again. -/
theorem deduplication_unsettled :
    (¬∀ (settings : Settings Rat Rat) (xs : List (Rate.Candidate Rat)), ∃ once,
      Search.deduplicate (some (Rate.problem settings)) xs = .ok once ∧
        Search.deduplicate (some (Rate.problem settings)) once = .ok once) ∧
    ¬∀ (settings : Settings Rat Rat) (xs : List (Rate.Candidate Rat)), ∃ once,
      Search.deduplicate (some (Rate.problem settings)) xs = .ok once ∧
        once.Pairwise fun a b => (Rate.problem settings).same a b = false := by
  have honce : Search.deduplicate (some (Rate.problem Rate.sampleSettings)) Rate.disputed =
      .ok [Rate.spent 0 0, Rate.spent 1 1, Rate.spent 0 0] := by
    cbv
  have hagain : Search.deduplicate (some (Rate.problem Rate.sampleSettings))
      [Rate.spent 0 0, Rate.spent 1 1, Rate.spent 0 0] =
        .ok [Rate.spent 0 0, Rate.spent 1 1] := by
    cbv
  constructor
  · intro hall
    obtain ⟨once, hxs, hrepeated⟩ := hall Rate.sampleSettings Rate.disputed
    obtain rfl := Except.ok.inj (honce.symm.trans hxs)
    have hlength := congrArg List.length (Except.ok.inj (hagain.symm.trans hrepeated))
    simp at hlength
  · intro hall
    obtain ⟨once, hxs, hapart⟩ := hall Rate.sampleSettings Rate.disputed
    obtain rfl := Except.ok.inj (honce.symm.trans hxs)
    have hsame :
        (Rate.problem Rate.sampleSettings).same (Rate.spent 0 0) (Rate.spent 0 0) = false :=
      (List.pairwise_cons.mp hapart).1 _ (by simp)
    simp [Rate.problem, UsageOrder.problem, UsageOrder.same] at hsame

end ModeSchedule
