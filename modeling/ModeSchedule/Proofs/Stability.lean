/-
ModeSchedule.Proofs.Stability — what sorting leaves as it was.

Sorting by a ranking of the members is stable: those that do not compare stay one behind
the other (`sort_filter`). `IsStableSort` collects what is known of this sort and of any
other stable one, so that what follows from it does not depend on the algorithm. By a
ranking, such a sort has no choice (`IsStableSort.eq_sort`).

A list in order is one run, and is left as it is by whatever it is sorted (`sort_of_stepwise`).
No other list is, if the relation holds one way at most (`sort_eq_self_iff`).
-/
import ModeSchedule.Proofs.Sorting

namespace ModeSchedule.Insertion

variable {α : Type} {before : α → α → Bool} {xs left right out : List α}
  {rs rs' : List (List α)} {x y last : α} {p : α → Bool}

/-! ## Members that do not compare -/

/-- Of the members that are selected none comes before another. -/
def Abreast (before : α → α → Bool) (p : α → Bool) (xs : List α) : Prop :=
  ∀ a ∈ xs, ∀ b ∈ xs, p a = true → p b = true → before a b = false

theorem Abreast.mono {ys : List α} (h : Abreast before p xs) (hsub : ys ⊆ xs) :
    Abreast before p ys :=
  fun a ha b hb => h a (hsub ha) b (hsub hb)

/-- A member of the right run that is taken comes before all that is left of the left one: before
the next of them because the two were compared there. -/
theorem Woven.before_left {b : α} {ts : List (α ⊕ α)}
    (h : Woven (fun a b => before b a) left (b :: right) (.inr b :: ts))
    (hrank : Ranking before (left ++ b :: right)) (hleft : Sorted before left)
    (hright : Sorted before (b :: right)) : ∀ a ∈ left, before b a = true := by
  induction ts generalizing b right with
  | nil => simp [← h.firsts]
  | cons t ts ih =>
    have hcrossing := h.crossing
    obtain ⟨_, ⟨⟩, hrest⟩ := h.of_inr
    cases t with
    | inl a =>
      obtain ⟨left, rfl, -⟩ := hrest.of_inl
      have hba : before b a = true := (List.isChain_cons_cons.mp hcrossing).1
      refine List.forall_mem_cons.mpr ⟨hba, fun a' ha' => ?_⟩
      have haa' := (List.pairwise_cons.mp hleft).1 a' ha'
      refine (hrank.between b (by simp) a' (by simp [ha']) a (by simp) hba).resolve_right ?_
      simp [haa']
    | inr b' =>
      obtain ⟨right, rfl, -⟩ := hrest.of_inr
      have hsub : left ++ b' :: right ⊆ left ++ b :: b' :: right :=
        ((List.sublist_cons_self b (b' :: right)).append_left left).subset
      have hbb' := (List.pairwise_cons.mp hright).1 b' (by simp)
      intro a ha
      have hba := ih hrest (hrank.mono hsub) (List.pairwise_cons.mp hright).2 a ha
      refine (hrank.between b' (by simp) b (by simp) a (by simp [ha]) hba).resolve_left ?_
      simp [hbb']

/-- Of the members that are selected, those of the left run are taken first. -/
theorem Interwoven.filter (h : Interwoven (fun a b => before b a) left right out)
    (hrank : Ranking before (left ++ right)) (hleft : Sorted before left)
    (hright : Sorted before right) (hp : Abreast before p (left ++ right)) :
    out.filter p = (left ++ right).filter p := by
  obtain ⟨ts, hts, rfl⟩ := h
  induction ts generalizing left right with
  | nil =>
    obtain ⟨rfl, rfl, -⟩ := hts
    rfl
  | cons t ts ih =>
    cases t with
    | inl a =>
      obtain ⟨left, rfl, hrest⟩ := hts.of_inl
      have hsub : left ++ right ⊆ a :: left ++ right := List.subset_cons_self a _
      have hfilter := ih (hrank.mono hsub) (List.pairwise_cons.mp hleft).2 hright (hp.mono hsub)
        hrest
      simp [List.filter_cons, hfilter]
    | inr b =>
      obtain ⟨right, rfl, hrest⟩ := hts.of_inr
      have hsub : left ++ right ⊆ left ++ b :: right :=
        ((List.sublist_cons_self b right).append_left left).subset
      have hfilter := ih (hrank.mono hsub) hleft (List.pairwise_cons.mp hright).2 (hp.mono hsub)
        hrest
      cases hb : p b with
      | false => simp [hb, hfilter]
      | true =>
        have hbefore := hts.before_left hrank hleft hright
        have hnone : left.filter p = [] := by
          refine List.filter_eq_nil_iff.mpr fun a ha hpa => ?_
          have hnot := hp b (by simp) a (by simp [ha]) hb hpa
          rw [hbefore a ha] at hnot
          cases hnot
        simp [hb, hfilter, hnone]

theorem MergeStep.filter (h : MergeStep before rs rs') (hrank : Ranking before rs.flatten)
    (hrs : ∀ run ∈ rs, Stepwise before run) (hp : Abreast before p rs.flatten) :
    rs'.flatten.filter p = rs.flatten.filter p := by
  obtain @⟨left, right, out, front, back, hout⟩ := h
  have hsub : left ++ right ⊆ (front ++ left :: right :: back).flatten := by
    intro a ha
    rcases List.mem_append.mp ha with ha | ha <;> simp [ha]
  have hpart := hrank.mono hsub
  have hleft : Sorted before left :=
    sorted_of_stepwise (hpart.mono (List.subset_append_left _ _)) (hrs left (by simp))
  have hright : Sorted before right :=
    sorted_of_stepwise (hpart.mono (List.subset_append_right _ _)) (hrs right (by simp))
  have hmerged := hout.filter hpart hleft hright (hp.mono hsub)
  simp [hmerged]

theorem Merges.filter (h : Merges before rs rs') (hrank : Ranking before rs.flatten)
    (hrs : ∀ run ∈ rs, Stepwise before run) (hp : Abreast before p rs.flatten) :
    rs'.flatten.filter p = rs.flatten.filter p := by
  induction h with
  | refl => rfl
  | tail hsteps hstep ih =>
    have hsub := (Merges.perm hsteps).subset
    have hruns := Merges.stepwise hsteps hrank.oneWay hrs
    rw [hstep.filter (hrank.mono hsub) hruns (hp.mono hsub), ih]

/-- Of members that are all related at most one is selected, if no two selected ones are. -/
theorem length_filter_le_one {R : α → α → Prop} (h : xs.Pairwise R)
    (hp : ∀ a ∈ xs, ∀ b ∈ xs, p a = true → p b = true → ¬R a b) : (xs.filter p).length ≤ 1 := by
  by_contra hmany
  have hselected : ∀ i (hi : i < (xs.filter p).length),
      (xs.filter p)[i] ∈ xs ∧ p (xs.filter p)[i] = true :=
    fun i hi => List.mem_filter.mp (List.getElem_mem hi)
  obtain ⟨h0, hp0⟩ := hselected 0 (by omega)
  obtain ⟨h1, hp1⟩ := hselected 1 (by omega)
  exact hp _ h0 _ h1 hp0 hp1
    (List.pairwise_iff_getElem.mp (h.filter p) 0 1 (by omega) (by omega) Nat.one_pos)

/-- To reverse a descending run does not matter to the one member that is selected. -/
theorem filter_reverse_of_descending (hrun : xs.Pairwise fun a b => before b a = true)
    (hp : Abreast before p xs) : xs.reverse.filter p = xs.filter p := by
  have hone : (xs.filter p).length ≤ 1 :=
    length_filter_le_one hrun fun a ha b hb hpa hpb => by simp [hp b hb a ha hpb hpa]
  rw [List.filter_reverse]
  cases hfilter : xs.filter p with
  | nil => rfl
  | cons a tail =>
    rw [hfilter, List.length_cons] at hone
    obtain rfl := List.eq_nil_of_length_eq_zero (show tail.length = 0 by omega)
    rfl

theorem initialRun_filter (h : Ranking before xs) (hp : Abreast before p xs) :
    ((initialRun before xs).1 ++ (initialRun before xs).2).filter p = xs.filter p := by
  rcases initialRun_cases before xs with ⟨happend, -⟩ | ⟨run, hrun, happend, hchain⟩
  · rw [happend]
  · have hsub : run ⊆ xs := happend ▸ List.subset_append_left run _
    have hdescending : run.Pairwise fun a b => before b a = true :=
      pairwise_of_isChain hchain fun a ha b hb c hc hba hcb =>
        h.trans (hsub hc) (hsub hb) (hsub ha) hcb hba
    rw [hrun, List.filter_append, filter_reverse_of_descending hdescending (hp.mono hsub),
      ← List.filter_append, happend]

theorem Cut.filter {pieces : List (List α)} (hcut : Cut before xs pieces)
    (h : Ranking before xs) (hp : Abreast before p xs) :
    pieces.flatten.filter p = xs.filter p := by
  induction hcut with
  | nil => rfl
  | @single xs _ x _ ih =>
    have hsub : xs ⊆ x :: xs := List.subset_cons_self x xs
    rw [List.flatten_cons, List.singleton_append, List.filter_cons, List.filter_cons,
      ih (h.mono hsub) (hp.mono hsub)]
  | @run xs _ _ ih =>
    have hsub : (initialRun before xs).2 ⊆ xs := fun a ha =>
      (initialRun_perm before xs).subset (List.mem_append_right _ ha)
    rw [List.flatten_cons, List.filter_append, ih (h.mono hsub) (hp.mono hsub),
      ← List.filter_append, initialRun_filter h hp]

/-- Sorting by a ranking leaves members that do not compare as they were, one after the
other. -/
theorem sort_filter (h : Ranking before xs) (hp : Abreast before p xs) :
    (sort before xs).filter p = xs.filter p := by
  rcases eq_or_ne xs [] with rfl | hxs
  · rw [sort_nil]
  · obtain ⟨pieces, hcut, hmerges⟩ := sort_merges before hxs
    have hsub := hcut.perm.subset
    have hmerged := Merges.filter hmerges (h.mono hsub) (hcut.stepwise h.oneWay) (hp.mono hsub)
    simpa [hcut.filter h hp] using hmerged

/-! ## Any stable sort -/

/-- What a stable sort promises, whatever its algorithm: it permutes a list. By a ranking
of the members, it puts them in order, and leaves those that do not compare as they were. -/
structure IsStableSort (before : α → α → Bool) (arrange : List α → List α) : Prop where
  perm : ∀ xs, (arrange xs).Perm xs
  sorted : ∀ {xs}, Ranking before xs → Sorted before (arrange xs)
  stable : ∀ {xs} {p : α → Bool}, Ranking before xs → Abreast before p xs →
    (arrange xs).filter p = xs.filter p

theorem sort_isStableSort (before : α → α → Bool) : IsStableSort before (sort before) where
  perm := sort_perm before
  sorted := sort_sorted
  stable := sort_filter

/-- The members that do not compare with one of them. -/
def ties (before : α → α → Bool) (y a : α) : Bool := !before a y && !before y a

theorem ties_iff {a : α} : ties before y a = true ↔ before a y = false ∧ before y a = false := by
  simp [ties]

/-- Members that do not compare with one member do not compare with each other. -/
theorem Ranking.abreast_ties (h : Ranking before xs) (hy : y ∈ xs) :
    Abreast before (ties before y) xs := by
  intro a ha b hb hya hyb
  rw [ties_iff] at hya hyb
  rw [← Bool.not_eq_true]
  intro hab
  rcases h.between a ha y hy b hb hab with hay | hyb'
  · rw [hya.1] at hay; cases hay
  · rw [hyb.2] at hyb'; cases hyb'

/-- No member of a list in order comes before the first one. -/
theorem not_before_head {a : α} (hxs : Sorted before (y :: xs)) (hy : before y y = false)
    (ha : a ∈ y :: xs) : before a y = false := by
  rcases List.mem_cons.mp ha with rfl | ha
  · exact hy
  · exact (List.pairwise_cons.mp hxs).1 a ha

/-- Two lists in order are the same if they have the same members, and those that do not compare
with a member stand in them one behind the other in the same way. -/
theorem Ranking.eq_of_sorted {ys zs : List α} (h : Ranking before ys) (hperm : ys.Perm zs)
    (hys : Sorted before ys) (hzs : Sorted before zs)
    (hties : ∀ y ∈ ys, ys.filter (ties before y) = zs.filter (ties before y)) : ys = zs := by
  induction ys generalizing zs with
  | nil => exact hperm.nil_eq
  | cons y ys ih =>
    cases zs with
    | nil => exact hperm.eq_nil
    | cons z zs =>
      have hy : before y y = false := h.irrefl List.mem_cons_self
      have hz : before z z = false := h.irrefl (hperm.mem_iff.mpr List.mem_cons_self)
      -- Each list begins with a member that none in the other one comes before.
      have hzy := not_before_head hys hy (hperm.mem_iff.mpr List.mem_cons_self)
      have hyz := not_before_head hzs hz (hperm.mem_iff.mp List.mem_cons_self)
      have hfirst := hties y List.mem_cons_self
      rw [List.filter_cons_of_pos (ties_iff.mpr ⟨hy, hy⟩),
        List.filter_cons_of_pos (ties_iff.mpr ⟨hzy, hyz⟩)] at hfirst
      obtain rfl : y = z := (List.cons.inj hfirst).1
      have hrest : ∀ a ∈ ys, ys.filter (ties before a) = zs.filter (ties before a) := by
        intro a ha
        have hboth := hties a (List.mem_cons_of_mem y ha)
        rw [List.filter_cons, List.filter_cons] at hboth
        split at hboth
        · exact (List.cons.inj hboth).2
        · exact hboth
      rw [ih (h.mono (List.subset_cons_self y ys)) hperm.cons_inv (List.pairwise_cons.mp hys).2
        (List.pairwise_cons.mp hzs).2 hrest]

/-- By a ranking of the members, every stable sort gives the same list. -/
theorem IsStableSort.eq_sort {arrange : List α → List α} (harrange : IsStableSort before arrange)
    (h : Ranking before xs) : arrange xs = sort before xs := by
  have hperm : (arrange xs).Perm (sort before xs) :=
    (harrange.perm xs).trans (sort_perm before xs).symm
  have hsub := (harrange.perm xs).subset
  refine (h.mono hsub).eq_of_sorted hperm (harrange.sorted h) (sort_sorted h) fun y hy => ?_
  have habreast := h.abreast_ties (hsub hy)
  rw [harrange.stable h habreast, sort_filter h habreast]

/-! ## Lists in order -/

/-- Where nothing breaks the run, it goes on to the end. -/
theorem splitRun_of_isChain {step : α → α → Bool}
    (h : (last :: xs).IsChain fun a b => step b a = true) : splitRun step last xs = (xs, []) := by
  induction xs generalizing last with
  | nil => rfl
  | cons x xs ih =>
    obtain ⟨hx, hrest⟩ := List.isChain_cons_cons.mp h
    simp [splitRun, hx, ih hrest]

theorem initialRun_of_stepwise (h : Stepwise before xs) : initialRun before xs = (xs, []) := by
  cases xs with
  | nil => rfl
  | cons x xs =>
    cases xs with
    | nil => rfl
    | cons y rest =>
      obtain ⟨hyx, hrest⟩ := List.isChain_cons_cons.mp h
      have hrun : splitRun (fun b a => !before b a) y rest = (rest, []) :=
        splitRun_of_isChain (hrest.imp fun a b hab => by simpa using hab)
      simp [initialRun, hyx, hrun]

/-- A list in order is sorted already, whatever it is sorted by. -/
theorem sort_of_stepwise (h : Stepwise before xs) : sort before xs = xs := by
  cases xs with
  | nil => exact sort_nil before
  | cons x xs => simp [sort, runs, initialRun_of_stepwise h, push, collapse]

/-- Lists in order are what sorting leaves as they are. -/
theorem sort_eq_self_iff (hone : OneWay before xs) :
    sort before xs = xs ↔ Stepwise before xs := by
  refine ⟨fun h => ?_, sort_of_stepwise⟩
  rw [← h]
  exact sort_stepwise hone

end ModeSchedule.Insertion
