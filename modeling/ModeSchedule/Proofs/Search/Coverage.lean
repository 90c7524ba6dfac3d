/-
ModeSchedule.Proofs.Search.Coverage — what a round drops is covered.

A usage is covered by a list of candidates if one of them uses no more. Three
prunings run in a round; each drops a candidate only for one that covers it:

* a child, for an accepted candidate that dominates it (`child_covered`);
* an accepted or complete candidate, for one that dominates it, and
* one that counts as the same as another (`round_covers` for both).

So what was covered before a round is covered after it, and where no other
pruning takes place, every child is accounted for (`child_accounted`).
-/
import ModeSchedule.Proofs.Search.Fronts

namespace ModeSchedule

variable {K S : Type} [Scalar K]

/-- Some candidate of the list uses no more of either resource. -/
def Covered (xs : List (Solution K S (Usage K))) (u : Usage K) : Prop :=
  ∃ t ∈ xs, Usage.within t.resources u = true

section

variable [Scalar.Ordered K] {xs ys : List (Solution K S (Usage K))} {u v : Usage K}
  {complete : Solution K S (Usage K) → Bool}

theorem Covered.mono (h : Covered xs u) (huv : Usage.within u v = true) : Covered xs v := by
  obtain ⟨t, ht, htu⟩ := h
  exact ⟨t, ht, Usage.within_trans htu huv⟩

theorem covered_of_mem {s : Solution K S (Usage K)} (hs : s ∈ xs) (hnumber : s.resources.IsNumber) :
    Covered xs s.resources :=
  ⟨s, hs, Usage.within_refl hnumber⟩

/-- What covers the members of a list covers what they cover. -/
theorem Covered.trans (h : Covered xs u) (hys : ∀ s ∈ xs, Covered ys s.resources) :
    Covered ys u := by
  obtain ⟨t, ht, htu⟩ := h
  exact (hys t ht).mono htu

namespace UsageOrder

theorem undominated_covers (h : Determined xs) {s : Solution K S (Usage K)} (hs : s ∈ xs) :
    Covered (Pruning.undominated (byValue.strictlyBetter complete) xs) s.resources := by
  obtain ⟨t, ht, rfl | hbetter⟩ := Pruning.exists_undominated
    (fun a _ => strictlyBetter_irrefl a)
    (fun a ha b _ c hc hab hbc => strictlyBetter_trans h ha hc hab hbc) hs
  · exact covered_of_mem ht (h.numbers _ hs)
  · exact ⟨t, ht, (strictlyBetter_iff.mp hbetter).2.2.1⟩

theorem deduplicate_covers {before : Solution K S (Usage K) → Solution K S (Usage K) → Bool}
    (h : Determined xs) {s : Solution K S (Usage K)} (hs : s ∈ xs) :
    Covered (Pruning.deduplicate before byValue.same xs) s.resources := by
  have hkept : ∃ t ∈ Pruning.deduplicate before byValue.same xs,
      t = s ∨ byValue.same t s = true := Pruning.exists_deduplicated hs
  obtain ⟨t, ht, rfl | hsame⟩ := hkept
  · exact covered_of_mem ht (h.numbers _ hs)
  · simp only [same, byValue, Bool.or_eq_true, beq_iff_eq] at hsame
    rcases hsame with hschedule | hequals
    · refine ⟨t, ht, ?_⟩
      rw [h.resources t (Pruning.mem_of_mem_deduplicate ht) s hs hschedule]
      exact Usage.within_refl (h.numbers s hs)
    · exact ⟨t, ht, (Usage.equals_iff.mp hequals).1⟩

end UsageOrder
end

namespace Rate

variable {settings : Settings K K} {algorithm : Algorithm} {f : Frontier K K (Usage K)}
  {r : Round K K (Usage K)}

theorem strictlyBetter_eq (settings : Settings K K) : (problem settings).strictlyBetter =
    UsageOrder.byValue.strictlyBetter (problem settings).complete := rfl

/-- A child survives unless an accepted candidate covers it. -/
theorem child_covered (hproceeds : Round.Proceeds (problem settings) algorithm f r)
    {c : Candidate K} (hc : c ∈ r.extension.children) :
    Covered f.accepted c.resources ∨ c ∈ r.surviving := by
  cases hany : f.accepted.any fun a => (problem settings).strictlyBetter a c with
  | true =>
    obtain ⟨a, ha, hbetter⟩ := List.any_eq_true.mp hany
    rw [strictlyBetter_eq] at hbetter
    exact Or.inl ⟨a, ha, (UsageOrder.strictlyBetter_iff.mp hbetter).2.2.1⟩
  | false =>
    rw [hproceeds.surviving]
    exact Or.inr (List.mem_filter.mpr ⟨hc, by rw [hany]; rfl⟩)

/-- What a round leaves accepted covers what was accepted before and what the
round has completed. -/
theorem round_covers [Scalar.Ordered K]
    (hproceeds : Round.Proceeds (problem settings) algorithm f r)
    (h : UsageOrder.Determined (f.accepted ++ r.complete)) :
    ∀ s ∈ f.accepted ++ r.complete, Covered r.after.accepted s.resources := by
  intro s hs
  rw [hproceeds.accepted]
  unfold Round.settleAccepted Round.merge
  split
  · next hnil =>
    rw [List.isEmpty_iff.mp hnil, List.append_nil] at hs h
    exact covered_of_mem hs (h.numbers s hs)
  · have hkept : UsageOrder.Determined (Pruning.undominated (problem settings).strictlyBetter
        (f.accepted ++ r.complete)) := h.mono fun t ht => Pruning.mem_of_mem_undominated ht
    have hundominated : Covered (Pruning.undominated (problem settings).strictlyBetter
        (f.accepted ++ r.complete)) s.resources := UsageOrder.undominated_covers h hs
    exact hundominated.trans fun t ht => UsageOrder.deduplicate_covers hkept ht

/-- Where incomplete candidates are not pruned, a complete child is covered after the
round, and an incomplete one is covered or waits to be extended. -/
theorem child_accounted [Scalar.Ordered K]
    (hproceeds : Round.Proceeds (problem settings) algorithm f r)
    (hcovers : ∀ s ∈ f.accepted ++ r.complete, Covered r.after.accepted s.resources)
    (hkeeps : algorithm ≠ .heuristic) {c : Candidate K} (hc : c ∈ r.extension.children) :
    Covered r.after.accepted c.resources ∨
      (problem settings).complete c = false ∧ c ∈ r.after.partials := by
  rcases child_covered hproceeds hc with hcovered | hsurviving
  · exact Or.inl (hcovered.trans fun s hs => hcovers s (List.mem_append_left _ hs))
  · cases hcomplete : (problem settings).complete c with
    | true =>
      have hjoins : c ∈ r.complete := hproceeds.mem_complete.mpr ⟨hsurviving, hcomplete⟩
      exact Or.inl (hcovers c (List.mem_append_right _ hjoins))
    | false =>
      have hwaits : c ∈ r.incomplete := hproceeds.mem_incomplete.mpr ⟨hsurviving, hcomplete⟩
      refine Or.inr ⟨rfl, ?_⟩
      rw [hproceeds.partials]
      cases algorithm with
      | heuristic => exact absurd rfl hkeeps
      | exhaustive => exact hwaits
      | singleMachine => exact hwaits

end Rate
end ModeSchedule
