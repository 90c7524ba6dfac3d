/-
ModeSchedule.Proofs.Disorder — sorting by a relation that need not rank the members.

All that is asked of the relation here is that it holds one way at most. It may go round in a
circle, and then there is no order for a list to come out in (`not_sorted_of_circle`). Sorting
goes over from one run to another only where it compared the two members, so neighbours are in
order nevertheless (`sort_stepwise`), and to sort once more changes nothing (`sort_sort`).

Members further apart are in order wherever the relation ranks those from one to the other
(`sorted_of_stepwise`). That is all there is to be had: if it does not rank the members of a list,
there is an arrangement of the list that does not come out in order (`sort_sorted_iff_ranking`).
-/
import ModeSchedule.Proofs.Stability

namespace ModeSchedule.Insertion

variable {α : Type} {before : α → α → Bool} {xs part front : List α}
  {rs rs' : List (List α)} {x y last : α}

/-- In a part of a list the neighbours are those of the list. -/
theorem stepwise_part (hxs : Stepwise before xs) (hpart : part <:+: xs) : Stepwise before part := by
  obtain ⟨front, back, rfl⟩ := hpart
  exact (List.isChain_append.mp (List.isChain_append.mp hxs).1).2.1

/-! ## What stays one behind the other -/

theorem MergeStep.sublist (h : MergeStep before rs rs') (hpart : ∃ run ∈ rs, part.Sublist run) :
    ∃ run ∈ rs', part.Sublist run := by
  obtain @⟨left, right, out, front, back, hout⟩ := h
  obtain ⟨run, hrun, hsub⟩ := hpart
  have hmerged : out ∈ front ++ out :: back := by simp
  simp only [List.mem_append, List.mem_cons] at hrun
  rcases hrun with hfront | rfl | rfl | hback
  · exact ⟨run, by simp [hfront], hsub⟩
  · exact ⟨out, hmerged, hsub.trans hout.sublists.1⟩
  · exact ⟨out, hmerged, hsub.trans hout.sublists.2⟩
  · exact ⟨run, by simp [hback], hsub⟩

/-- What stands in one run, one member behind the other, does so after any number of merges. -/
theorem Merges.sublist (h : Merges before rs rs') (hpart : ∃ run ∈ rs, part.Sublist run) :
    ∃ run ∈ rs', part.Sublist run := by
  induction h with
  | refl => exact hpart
  | tail _ hstep ih => exact hstep.sublist ih

/-- A run goes on as long as nothing breaks it. -/
theorem prefix_splitRun {step : α → α → Bool}
    (h : (last :: front).IsChain fun a b => step b a = true) (rest : List α) :
    front <+: (splitRun step last (front ++ rest)).1 := by
  induction front generalizing last with
  | nil => exact List.nil_prefix
  | cons x front ih =>
    obtain ⟨hx, hfront⟩ := List.isChain_cons_cons.mp h
    simpa [splitRun, hx] using ih hfront

/-- Where a list begins with members in order, they stand in its first run. -/
theorem sublist_runs_of_stepwise (h : Stepwise before (x :: y :: front)) (least : Nat)
    (rest : List α) :
    ∃ run ∈ runs before least (x :: y :: front ++ rest), (x :: y :: front).Sublist run := by
  obtain ⟨hyx, hfront⟩ := List.isChain_cons_cons.mp h
  have hrun : front <+: (splitRun (fun b a => !before b a) y (front ++ rest)).1 :=
    prefix_splitRun (hfront.imp fun a b hab => by simpa using hab) rest
  have hinitial : (x :: y :: front).Sublist (initialRun before (x :: y :: front ++ rest)).1 := by
    simpa [initialRun, hyx] using hrun.sublist
  have hinserted := foldl_insert_merges before (initialRun before (x :: y :: front ++ rest)).1
    ((initialRun before (x :: y :: front ++ rest)).2.take
      (least - (initialRun before (x :: y :: front ++ rest)).1.length))
  obtain ⟨run, hrun, hsub⟩ := Merges.sublist hinserted ⟨_, List.mem_cons_self, hinitial⟩
  rw [List.mem_singleton.mp hrun] at hsub
  refine ⟨_, ?_, hsub⟩
  rw [List.cons_append, runs]
  exact List.mem_cons_self

/-- Where a list begins with members in order, they stay one behind the other. -/
theorem sublist_sort_of_stepwise (h : Stepwise before (x :: y :: front)) (rest : List α) :
    (x :: y :: front).Sublist (sort before (x :: y :: front ++ rest)) := by
  have hmerges := sort_merges_runs before (List.cons_ne_nil x (y :: front ++ rest))
  obtain ⟨run, hrun, hsub⟩ := Merges.sublist hmerges (sublist_runs_of_stepwise h _ rest)
  rwa [List.mem_singleton.mp hrun] at hsub

section

variable (hasymm : ∀ a b, before a b = true → before b a = false)
include hasymm

/-- What was sorted is left as it is. -/
theorem sort_sort (xs : List α) : sort before (sort before xs) = sort before xs :=
  sort_of_stepwise (sort_stepwise fun a _ b _ => hasymm a b)

/-! ## Circles -/

/-- In a list in order, what comes before another member stands in front of it. -/
theorem index_lt_of_before (hxs : Sorted before xs) {i j : Nat} (hi : i < xs.length)
    (hj : j < xs.length) (h : before xs[i] xs[j] = true) : i < j := by
  by_contra hnot
  have hback : before xs[i] xs[j] = false := by
    rcases Nat.eq_or_lt_of_le (Nat.le_of_not_lt hnot) with rfl | hlt
    · exact hasymm _ _ h
    · exact List.pairwise_iff_getElem.mp hxs j i hj hi hlt
  rw [h] at hback
  cases hback

/-- A list with three members in a circle is not in order. -/
theorem not_sorted_of_circle {a b c : α} (ha : a ∈ xs) (hb : b ∈ xs) (hc : c ∈ xs)
    (hac : before a c = true) (hcb : before c b = true) (hba : before b a = true) :
    ¬Sorted before xs := by
  intro hxs
  obtain ⟨i, hi, rfl⟩ := List.getElem_of_mem ha
  obtain ⟨j, hj, rfl⟩ := List.getElem_of_mem hb
  obtain ⟨k, hk, rfl⟩ := List.getElem_of_mem hc
  have hik := index_lt_of_before hasymm hxs hi hk hac
  have hkj := index_lt_of_before hasymm hxs hk hj hcb
  have hji := index_lt_of_before hasymm hxs hj hi hba
  omega

/-! ## Arrangements -/

/-- A list comes out in order from every arrangement exactly if the relation ranks its
members. -/
theorem sort_sorted_iff_ranking :
    (∀ ys, ys.Perm xs → Sorted before (sort before ys)) ↔ Ranking before xs := by
  constructor
  · intro hall
    refine ⟨fun a _ b _ => hasymm a b, fun a ha b hb c hc hac => ?_⟩
    by_contra hnot
    obtain ⟨hab, hbc⟩ : before a b = false ∧ before b c = false := by simpa using hnot
    -- The three are in order of neighbours from the last to the first, and stay so.
    have hstepwise : Stepwise before [c, b, a] := by simp [hab, hbc]
    have hcb : c ≠ b := by rintro rfl; simp [hac] at hab
    have hca : c ≠ a := by rintro rfl; simpa [hac] using hasymm c c hac
    have hba : b ≠ a := by rintro rfl; simp [hac] at hbc
    have hsub : [c, b, a] ⊆ xs := by simp [ha, hb, hc]
    obtain ⟨part, hpart, hsublist⟩ :=
      List.subperm_of_subset (show [c, b, a].Nodup by simp [hcb, hca, hba]) hsub
    obtain ⟨rest, hrest⟩ := hsublist.exists_perm_append
    have hperm : ([c, b, a] ++ rest).Perm xs := (hpart.symm.append_right rest).trans hrest.symm
    have hsorted := (hall _ hperm).sublist (sublist_sort_of_stepwise hstepwise rest)
    have hnotac : before a c = false := (List.pairwise_cons.mp hsorted).1 a (by simp)
    rw [hac] at hnotac
    cases hnotac
  · exact fun h ys hperm => sort_sorted (h.mono hperm.subset)

end

end ModeSchedule.Insertion
