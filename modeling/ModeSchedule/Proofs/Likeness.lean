/-
ModeSchedule.Proofs.Likeness — lists of candidates that use the same.

Dominance asks whether two candidates have one schedule. Where a schedule
identifies its candidate (`Identified`), that question is idle: a candidate does
not beat itself, anyway. So dominance depends on usage alone (`strictlyBetter_congr`),
and which of several candidates with equal usage a list holds does not matter.

`Echoes` says that a list has a candidate of equal usage for each one of another
list. Two lists that echo each other prune alike (`better_of_echoes`,
`undominated_echoes`, `deduplicate_echoes`), and once they are in strict order they
correspond member by member (`forall₂_of_echoes`).
-/
import ModeSchedule.Proofs.Dominance
import ModeSchedule.Proofs.Pruning

namespace ModeSchedule

variable {K : Type} [Scalar K] [Scalar.Ordered K]

/-! ## Equal usages -/

namespace Usage

variable {u u' v v' x : Usage K}

theorem equals_symm (h : equals u v = true) : equals v u = true :=
  equals_iff.mpr (equals_iff.mp h).symm

theorem equals_trans (huv : equals u v = true) (hvx : equals v x = true) : equals u x = true := by
  rw [equals_iff] at huv hvx ⊢
  exact ⟨within_trans huv.1 hvx.1, within_trans hvx.2 huv.2⟩

theorem within_congr (hu : equals u u' = true) (hv : equals v v' = true) :
    within u v = within u' v' := by
  rw [equals_iff] at hu hv
  rw [Bool.eq_iff_iff]
  exact ⟨fun h => within_trans hu.2 (within_trans h hv.1),
    fun h => within_trans hu.1 (within_trans h hv.2)⟩

theorem equals_congr (hu : equals u u' = true) (hv : equals v v' = true) :
    equals u v = equals u' v' := by
  rw [Bool.eq_iff_iff, equals_iff, equals_iff, within_congr hu hv, within_congr hv hu]

theorem less_of_equals (hu : equals u u' = true) (hv : equals v v' = true)
    (h : less u v = true) : less u' v' = true := by
  simp only [equals_iff, within_iff] at hu hv
  rw [less_iff] at h ⊢
  rcases h with h | ⟨⟨hle, hge⟩, h⟩
  · exact Or.inl (Scalar.lt_of_le_of_lt hu.2.1 (Scalar.lt_of_lt_of_le h hv.1.1))
  · refine Or.inr ⟨⟨?_, ?_⟩, Scalar.lt_of_le_of_lt hu.2.2 (Scalar.lt_of_lt_of_le h hv.1.2)⟩
    · exact Scalar.Ordered.le_trans hu.2.1 (Scalar.Ordered.le_trans hle hv.1.1)
    · exact Scalar.Ordered.le_trans hv.2.1 (Scalar.Ordered.le_trans hge hu.1.1)

end Usage

/-! ## Candidates with equal usage -/

variable {S : Type}

/-- The two candidates use the same. -/
abbrev Alike (s t : Solution K S (Usage K)) : Prop := Usage.equals s.resources t.resources = true

/-- Each candidate of the first list is like one of the second. -/
def Echoes (xs ys : List (Solution K S (Usage K))) : Prop := ∀ s ∈ xs, ∃ t ∈ ys, Alike s t

/-- The resources are numbers, and the schedule identifies the candidate. -/
structure Identified (xs : List (Solution K S (Usage K))) : Prop where
  numbers : ∀ a ∈ xs, a.resources.IsNumber
  unique : ∀ a ∈ xs, ∀ b ∈ xs, a.schedule = b.schedule → a = b

variable {xs ys : List (Solution K S (Usage K))} {a a' b b' c c' : Solution K S (Usage K)}
  {complete : Solution K S (Usage K) → Bool}

omit [Scalar.Ordered K] in
theorem Identified.mono (h : Identified xs) (hsub : ys ⊆ xs) : Identified ys where
  numbers a ha := h.numbers a (hsub ha)
  unique a ha b hb := h.unique a (hsub ha) b (hsub hb)

omit [Scalar.Ordered K] in
theorem Identified.undominated
    {better : Solution K S (Usage K) → Solution K S (Usage K) → Bool} (h : Identified xs) :
    Identified (Pruning.undominated better xs) :=
  h.mono fun _ ha => Pruning.mem_of_mem_undominated ha

omit [Scalar.Ordered K] in
theorem Identified.determined (h : Identified xs) : UsageOrder.Determined xs where
  numbers := h.numbers
  resources a ha b hb hschedule := congrArg Solution.resources (h.unique a ha b hb hschedule)

theorem forall₂_echoes (h : List.Forall₂ Alike xs ys) : Echoes xs ys ∧ Echoes ys xs := by
  induction h with
  | nil => exact ⟨by simp [Echoes], by simp [Echoes]⟩
  | @cons s t xs ys hst _ ih =>
    constructor
    · intro z hz
      rcases List.mem_cons.mp hz with rfl | hz
      · exact ⟨t, List.mem_cons_self, hst⟩
      · obtain ⟨y, hy, hzy⟩ := ih.1 z hz
        exact ⟨y, List.mem_cons_of_mem t hy, hzy⟩
    · intro z hz
      rcases List.mem_cons.mp hz with rfl | hz
      · exact ⟨s, List.mem_cons_self, Usage.equals_symm hst⟩
      · obtain ⟨y, hy, hzy⟩ := ih.2 z hz
        exact ⟨y, List.mem_cons_of_mem s hy, hzy⟩

omit [Scalar.Ordered K] in
theorem Echoes.append {xs' ys' : List (Solution K S (Usage K))} (h : Echoes xs ys)
    (h' : Echoes xs' ys') : Echoes (xs ++ xs') (ys ++ ys') := by
  intro s hs
  rcases List.mem_append.mp hs with hs | hs
  · obtain ⟨t, ht, hst⟩ := h s hs
    exact ⟨t, List.mem_append_left _ ht, hst⟩
  · obtain ⟨t, ht, hst⟩ := h' s hs
    exact ⟨t, List.mem_append_right _ ht, hst⟩

/-! ## Pruning -/

namespace UsageOrder

/-- Between candidates that their schedules identify, dominance is a matter of usage. -/
theorem strictlyBetter_eq_usage (hab : a.schedule = b.schedule → a = b)
    (ha : a.resources.IsNumber) : byValue.strictlyBetter complete a b =
      (complete a && Usage.within a.resources b.resources &&
        !Usage.equals a.resources b.resources) := by
  by_cases hschedule : a.schedule = b.schedule
  · obtain rfl := hab hschedule
    simp [strictlyBetter_irrefl, Usage.equals_refl ha]
  · have hne : (a.schedule != b.schedule) = true := bne_iff_ne.mpr hschedule
    simp [strictlyBetter, byValue, hne]

theorem strictlyBetter_congr (hab : a.schedule = b.schedule → a = b)
    (hab' : a'.schedule = b'.schedule → a' = b') (ha : a.resources.IsNumber)
    (ha' : a'.resources.IsNumber) (hcomplete : complete a = complete a') (haa : Alike a a')
    (hbb : Alike b b') :
    byValue.strictlyBetter complete a b = byValue.strictlyBetter complete a' b' := by
  rw [strictlyBetter_eq_usage hab ha, strictlyBetter_eq_usage hab' ha', hcomplete,
    Usage.within_congr haa hbb, Usage.equals_congr haa hbb]

/-- What dominates a candidate is echoed by what dominates a candidate like it. -/
theorem better_of_echoes (h : Identified (c :: xs)) (h' : Identified (c' :: ys))
    (hxs : ∀ s ∈ xs, complete s = true) (hys : ∀ s ∈ ys, complete s = true) (hechoes : Echoes xs ys)
    (hcc : Alike c c') (hbetter : ∃ s ∈ xs, byValue.strictlyBetter complete s c = true) :
    ∃ t ∈ ys, byValue.strictlyBetter complete t c' = true := by
  obtain ⟨s, hs, hbetter⟩ := hbetter
  obtain ⟨t, ht, hst⟩ := hechoes s hs
  have hs' : s ∈ c :: xs := List.mem_cons_of_mem c hs
  have ht' : t ∈ c' :: ys := List.mem_cons_of_mem c' ht
  refine ⟨t, ht, ?_⟩
  rw [← strictlyBetter_congr (h.unique s hs' c List.mem_cons_self)
    (h'.unique t ht' c' List.mem_cons_self) (h.numbers s hs') (h'.numbers t ht')
    (by rw [hxs s hs, hys t ht]) hst hcc]
  exact hbetter

/-- Lists that echo each other have like members that nothing dominates. -/
theorem undominated_echoes (h : Identified xs) (h' : Identified ys)
    (hxs : ∀ s ∈ xs, complete s = true) (hys : ∀ s ∈ ys, complete s = true)
    (hthere : Echoes xs ys) (hback : Echoes ys xs) :
    Echoes (Pruning.undominated (byValue.strictlyBetter complete) xs)
      (Pruning.undominated (byValue.strictlyBetter complete) ys) := by
  intro s hs
  have hmem : s ∈ xs := Pruning.mem_of_mem_undominated hs
  obtain ⟨t, ht, hst⟩ := hthere s hmem
  have hnone := Pruning.not_better_of_mem_undominated (strictlyBetter_irrefl s) hs
  refine ⟨t, Pruning.mem_undominated_of ht fun z hz => ?_, hst⟩
  by_contra hbetter
  rw [Bool.not_eq_false] at hbetter
  obtain ⟨y, hy, hys⟩ := better_of_echoes (h'.mono (List.cons_subset.mpr ⟨ht, List.Subset.refl ys⟩))
    (h.mono (List.cons_subset.mpr ⟨hmem, List.Subset.refl xs⟩)) hys hxs hback
    (Usage.equals_symm hst) ⟨z, hz, hbetter⟩
  rw [hnone y hy] at hys
  cases hys

/-- Deduplication leaves a candidate like each one that it drops. -/
theorem deduplicate_echoes {before : Solution K S (Usage K) → Solution K S (Usage K) → Bool}
    (h : Identified ys) (hechoes : Echoes xs ys) :
    Echoes (Pruning.deduplicate before byValue.same xs)
      (Pruning.deduplicate before byValue.same ys) := by
  intro s hs
  obtain ⟨t, ht, hst⟩ := hechoes s (Pruning.mem_of_mem_deduplicate hs)
  have hkept : ∃ z ∈ Pruning.deduplicate before byValue.same ys,
      z = t ∨ byValue.same z t = true := Pruning.exists_deduplicated ht
  obtain ⟨z, hz, rfl | hsame⟩ := hkept
  · exact ⟨z, hz, hst⟩
  · refine ⟨z, hz, Usage.equals_trans hst ?_⟩
    simp only [same, byValue, Bool.or_eq_true, beq_iff_eq] at hsame
    rcases hsame with hschedule | hequals
    · obtain rfl := h.unique z (Pruning.mem_of_mem_deduplicate hz) t ht hschedule
      exact Usage.equals_refl (h.numbers z ht)
    · exact Usage.equals_symm hequals

end UsageOrder

/-! ## Strict order -/

/-- In the order of usages, each candidate before every later one. -/
abbrev Ascending (xs : List (Solution K S (Usage K))) : Prop :=
  xs.Pairwise fun a b => Usage.less a.resources b.resources = true

/-- What echoes a list without its least member does not need the least member. -/
theorem echoes_tail (hx : Ascending (a :: xs)) (hab : Alike a b)
    (h : Echoes (a :: xs) (b :: ys)) : Echoes xs ys := by
  intro s hs
  obtain ⟨t, ht, hst⟩ := h s (List.mem_cons_of_mem a hs)
  rcases List.mem_cons.mp ht with rfl | ht
  · have hless := (List.pairwise_cons.mp hx).1 s hs
    have has := Usage.equals_trans hab (Usage.equals_symm hst)
    rw [Usage.equals_eq_false_of_less hless] at has
    cases has
  · exact ⟨t, ht, hst⟩

/-- The least members of lists that echo each other are alike. -/
theorem alike_heads (hx : Ascending (a :: xs)) (hy : Ascending (b :: ys))
    (hthere : Echoes (a :: xs) (b :: ys)) (hback : Echoes (b :: ys) (a :: xs)) : Alike a b := by
  obtain ⟨t, ht, hat⟩ := hthere a List.mem_cons_self
  obtain ⟨s, hs, hbs⟩ := hback b List.mem_cons_self
  rcases List.mem_cons.mp ht with rfl | ht
  · exact hat
  · rcases List.mem_cons.mp hs with rfl | hs
    · exact Usage.equals_symm hbs
    · -- The first would come before the second, and the second before the first.
      have hless := Usage.less_of_equals hat (Usage.equals_symm hbs)
        ((List.pairwise_cons.mp hx).1 s hs)
      rw [Usage.less_asymm ((List.pairwise_cons.mp hy).1 t ht)] at hless
      cases hless

/-- Lists in strict order that echo each other correspond member by member. -/
theorem forall₂_of_echoes (hx : Ascending xs) (hy : Ascending ys) (hthere : Echoes xs ys)
    (hback : Echoes ys xs) : List.Forall₂ Alike xs ys := by
  induction xs generalizing ys with
  | nil =>
    cases ys with
    | nil => exact .nil
    | cons b ys =>
      obtain ⟨s, hs, -⟩ := hback b List.mem_cons_self
      cases hs
  | cons a xs ih =>
    cases ys with
    | nil =>
      obtain ⟨t, ht, -⟩ := hthere a List.mem_cons_self
      cases ht
    | cons b ys =>
      have hab := alike_heads hx hy hthere hback
      exact .cons hab (ih (List.pairwise_cons.mp hx).2 (List.pairwise_cons.mp hy).2
        (echoes_tail hx hab hthere) (echoes_tail hy (Usage.equals_symm hab) hback))

end ModeSchedule
