/-
ModeSchedule.Proofs.Pruning — what pruning keeps, and what covers what it drops.

Nothing that pruning keeps is new, and of the members it keeps none dominates
another one at a different position (`undominated_pairwise`, for any relation).

What is dropped is accounted for as well: by a member that dominates it, which
is kept itself if domination is transitive and irreflexive among the members
(`exists_undominated`), or by one that counts as the same (`exists_collapsed`). Where
domination is not transitive, a relation that contains it and is may take its place
(`Descent`): it leads to members that nothing dominates, and there are no cycles. Such a
relation are chains of domination, if none leads back to its start (`descent_of_acyclic`).
-/
import ModeSchedule.Proofs.Sorting
import ModeSchedule.Search.Pruning

namespace ModeSchedule.Pruning

open Insertion

variable {α : Type} {better before same : α → α → Bool} {xs : List α}

/-! ## Domination among the members -/

theorem mem_placed {p : α × Nat} (h : p ∈ xs.zipIdx) : p.1 ∈ xs :=
  List.mem_of_getElem? (List.mem_zipIdx_iff_getElem?.mp h)

theorem mem_of_mem_undominated {x : α} (h : x ∈ undominated better xs) : x ∈ xs := by
  obtain ⟨p, hp, rfl⟩ := List.mem_map.mp h
  exact mem_placed (List.mem_filter.mp hp).1

theorem undominated_sublist (better : α → α → Bool) (xs : List α) :
    (undominated better xs).Sublist xs := by
  have hplaced := (List.filter_sublist (p := fun x => !xs.zipIdx.any fun y =>
    y.2 != x.2 && better y.1 x.1) (l := xs.zipIdx)).map Prod.fst
  rwa [List.zipIdx_map_fst] at hplaced

/-- Different members have different positions. -/
theorem placed_pairwise (xs : List α) : xs.zipIdx.Pairwise fun a b => a.2 ≠ b.2 := by
  have h : (xs.zipIdx.map Prod.snd).Nodup := by
    rw [List.zipIdx_map_snd]
    exact List.nodup_range'
  exact List.pairwise_map.mp h

/-- Of the members kept, none dominates another. -/
theorem undominated_pairwise (better : α → α → Bool) (xs : List α) :
    (undominated better xs).Pairwise fun a b => better a b = false ∧ better b a = false := by
  refine List.pairwise_map.mpr (((placed_pairwise xs).filter _).imp_of_mem ?_)
  intro a b ha hb hne
  rw [List.mem_filter] at ha hb
  have hkept : ∀ x y : α × Nat, x ∈ xs.zipIdx →
      (!xs.zipIdx.any fun z => z.2 != y.2 && better z.1 y.1) = true → x.2 ≠ y.2 →
        better x.1 y.1 = false := by
    intro x y hx hy hxy
    simp only [Bool.not_eq_true', List.any_eq_false] at hy
    have h := hy x hx
    simp only [Bool.and_eq_true, bne_iff_ne, ne_eq, not_and, Bool.not_eq_true] at h
    exact h hxy
  exact ⟨hkept a b ha.1 hb.2 hne, hkept b a hb.1 ha.2 hne.symm⟩

/-- A member that nothing dominates is kept. -/
theorem mem_undominated_of {x : α} (hx : x ∈ xs) (h : ∀ y ∈ xs, better y x = false) :
    x ∈ undominated better xs := by
  obtain ⟨i, hi, rfl⟩ := List.mem_iff_getElem.mp hx
  refine List.mem_map.mpr ⟨(xs[i], i), List.mem_filter.mpr ⟨?_, ?_⟩, rfl⟩
  · exact List.mem_zipIdx_iff_getElem?.mpr (List.getElem?_eq_getElem hi)
  · simp only [Bool.not_eq_true', List.any_eq_false]
    intro z hz
    simp [h z.1 (mem_placed hz)]

/-- Whether a placed member is dominated from another position, or from anywhere, is the
same if nothing dominates itself. -/
theorem any_placed_eq {p : α × Nat} (hirrefl : better p.1 p.1 = false) (hp : p ∈ xs.zipIdx) :
    (xs.zipIdx.any fun y => y.2 != p.2 && better y.1 p.1) = xs.any fun y => better y p.1 := by
  rw [Bool.eq_iff_iff, List.any_eq_true, List.any_eq_true]
  constructor
  · rintro ⟨y, hy, hbetter⟩
    exact ⟨y.1, mem_placed hy, (Bool.and_eq_true_iff.mp hbetter).2⟩
  · rintro ⟨y, hy, hbetter⟩
    obtain ⟨i, hi, rfl⟩ := List.mem_iff_getElem.mp hy
    have hplaced : (xs[i], i) ∈ xs.zipIdx :=
      List.mem_zipIdx_iff_getElem?.mpr (List.getElem?_eq_getElem hi)
    refine ⟨(xs[i], i), hplaced, Bool.and_eq_true_iff.mpr ⟨bne_iff_ne.mpr ?_, hbetter⟩⟩
    rintro rfl
    -- The member itself.
    have hself := List.mem_zipIdx_iff_getElem?.mp hp
    rw [List.getElem?_eq_getElem hi] at hself
    rw [Option.some.inj hself, hirrefl] at hbetter
    cases hbetter

/-- Nothing dominates a member that is kept. -/
theorem not_better_of_mem_undominated {x : α} (hirrefl : better x x = false)
    (h : x ∈ undominated better xs) : ∀ y ∈ xs, better y x = false := by
  obtain ⟨p, hp, rfl⟩ := List.mem_map.mp h
  obtain ⟨hplaced, hkept⟩ := List.mem_filter.mp hp
  rw [Bool.not_eq_true', any_placed_eq hirrefl hplaced] at hkept
  simpa only [List.any_eq_false, Bool.not_eq_true] using hkept

/-- To compare a list with its other members, or with itself as the reference, is the same
if nothing dominates itself. -/
theorem undominated_eq_undominatedBy (hirrefl : ∀ a ∈ xs, better a a = false) :
    undominated better xs = undominatedBy better xs xs := by
  have hplaced : ∀ p ∈ xs.zipIdx, (!xs.zipIdx.any fun y => y.2 != p.2 && better y.1 p.1) =
      ((fun x => !xs.any fun y => better y x) ∘ Prod.fst) p := by
    intro p hp
    rw [any_placed_eq (hirrefl p.1 (mem_placed hp)) hp]
    rfl
  calc undominated better xs
      = (xs.zipIdx.filter ((fun x => !xs.any fun y => better y x) ∘ Prod.fst)).map Prod.fst :=
        congrArg (List.map Prod.fst) (List.filter_congr hplaced)
    _ = (xs.zipIdx.map Prod.fst).filter fun x => !xs.any fun y => better y x :=
        List.filter_map.symm
    _ = undominatedBy better xs xs := by rw [List.zipIdx_map_fst, undominatedBy]

theorem mem_undominatedBy {reference : List α} {x : α} :
    x ∈ undominatedBy better reference xs ↔ x ∈ xs ∧ ∀ y ∈ reference, better y x = false := by
  simp [undominatedBy]

/-! ## Comparisons that may fail -/

section

variable {ε : Type} {better? : α → α → Except ε Bool}

theorem anyM_eq_ok {p : α → Except ε Bool} {q : α → Bool} (h : ∀ x ∈ xs, p x = .ok (q x)) :
    xs.anyM p = .ok (xs.any q) := by
  induction xs with
  | nil => rfl
  | cons x xs ih =>
    obtain ⟨hx, hxs⟩ := List.forall_mem_cons.mp h
    rw [List.anyM, hx, List.any_cons]
    cases q x with
    | true => rfl
    | false => exact ih hxs

theorem filterAuxM_eq_ok {p : α → Except ε Bool} {q : α → Bool}
    (h : ∀ x ∈ xs, p x = .ok (q x)) (kept : List α) :
    xs.filterAuxM p kept = .ok ((xs.filter q).reverse ++ kept) := by
  induction xs generalizing kept with
  | nil => rfl
  | cons x xs ih =>
    obtain ⟨hx, hxs⟩ := List.forall_mem_cons.mp h
    rw [List.filterAuxM, hx]
    show xs.filterAuxM p (cond (q x) (x :: kept) kept) = _
    rw [ih hxs]
    cases hq : q x <;> simp [hq]

theorem filterM_eq_ok {p : α → Except ε Bool} {q : α → Bool} (h : ∀ x ∈ xs, p x = .ok (q x)) :
    xs.filterM p = .ok (xs.filter q) := by
  rw [List.filterM, filterAuxM_eq_ok h]
  show Except.ok _ = _
  simp

/-- Where no comparison fails, pruning does not. -/
theorem undominatedByM_eq_ok {reference : List α}
    (h : ∀ y ∈ reference, ∀ x ∈ xs, better? y x = .ok (better y x)) :
    undominatedByM better? reference xs = .ok (undominatedBy better reference xs) := by
  refine filterM_eq_ok fun x hx => ?_
  rw [anyM_eq_ok fun y hy => h y hy x hx]
  rfl

/-- Where no comparison fails, pruning does not. -/
theorem undominatedM_eq_ok (h : ∀ y ∈ xs, ∀ x ∈ xs, better? y x = .ok (better y x)) :
    undominatedM better? xs = .ok (undominated better xs) := by
  have hkept : (xs.zipIdx.filterM fun x => do
      return !(← xs.zipIdx.anyM fun y =>
        if y.2 != x.2 then better? y.1 x.1 else return false)) =
      Except.ok (xs.zipIdx.filter fun x =>
        !xs.zipIdx.any fun y => y.2 != x.2 && better y.1 x.1) := by
    refine filterM_eq_ok fun x hx => ?_
    rw [anyM_eq_ok (q := fun y => y.2 != x.2 && better y.1 x.1) fun y hy => ?_]
    · rfl
    · cases y.2 != x.2 with
      | true => simp [h y.1 (mem_placed hy) x.1 (mem_placed hx)]
      | false => rfl
  dsimp only [undominatedM]
  rw [hkept]
  rfl

end

/-! ## What covers the members that are dropped -/

/-- A relation that contains domination, and is irreflexive and transitive among the
members of a list. -/
structure Descent (better : α → α → Bool) (covers : α → α → Prop) (xs : List α) : Prop where
  contains : ∀ a ∈ xs, ∀ b ∈ xs, better a b = true → covers a b
  irrefl : ∀ a ∈ xs, ¬covers a a
  trans : ∀ a ∈ xs, ∀ b ∈ xs, ∀ c ∈ xs, covers a b → covers b c → covers a c

/-- Members one after the other, each of which dominates the next one, and the last of
which dominates the first. -/
def Cycle (better : α → α → Bool) (x : α) (rest : List α) : Prop :=
  (x :: (rest ++ [x])).IsChain fun a b => better a b = true

namespace Descent

variable {covers : α → α → Prop} (h : Descent better covers xs)
include h

/-- Followed down, such a relation leads to a member that nothing dominates. -/
theorem exists_minimal {x : α} (hx : x ∈ xs) :
    ∃ y ∈ xs, (∀ z ∈ xs, better z y = false) ∧ (y = x ∨ covers y x) := by
  -- The relation is well-founded on the finitely many members.
  let R : {a // a ∈ xs} → {a // a ∈ xs} → Prop := fun a b => covers a.1 b.1
  have : Finite {a // a ∈ xs} := xs.finite_toSet.to_subtype
  have : IsTrans _ R := ⟨fun a b c => h.trans a.1 a.2 b.1 b.2 c.1 c.2⟩
  have : Std.Irrefl R := ⟨fun a => h.irrefl a.1 a.2⟩
  have hwf : WellFounded R := Finite.wellFounded_of_trans_of_irrefl R
  suffices hall : ∀ a : {a // a ∈ xs},
      ∃ y ∈ xs, (∀ z ∈ xs, better z y = false) ∧ (y = a.1 ∨ covers y a.1) from hall ⟨x, hx⟩
  intro a
  induction a using hwf.induction with
  | _ a ih =>
    by_cases hdom : ∃ y ∈ xs, better y a.1 = true
    · obtain ⟨y, hy, hya⟩ := hdom
      have hya := h.contains y hy a.1 a.2 hya
      obtain ⟨z, hz, hmin, rfl | hzy⟩ := ih ⟨y, hy⟩ hya
      · exact ⟨_, hz, hmin, Or.inr hya⟩
      · exact ⟨z, hz, hmin, Or.inr (h.trans z hz y hy a.1 a.2 hzy hya)⟩
    · refine ⟨a.1, a.2, fun y hy => ?_, Or.inl rfl⟩
      rw [← Bool.not_eq_true]
      exact fun hbetter => hdom ⟨y, hy, hbetter⟩

/-- What a list keeps when it is pruned against itself covers the rest of it. -/
theorem exists_kept {x : α} (hx : x ∈ xs) :
    ∃ y ∈ undominatedBy better xs xs, y = x ∨ covers y x := by
  obtain ⟨y, hy, hundominated, hyx⟩ := h.exists_minimal hx
  exact ⟨y, mem_undominatedBy.mpr ⟨hy, hundominated⟩, hyx⟩

/-- Something is left of every list that is not empty. -/
theorem undominatedBy_ne_nil (hne : xs ≠ []) : undominatedBy better xs xs ≠ [] := by
  obtain ⟨x, hx⟩ := List.exists_mem_of_ne_nil xs hne
  obtain ⟨y, hy, -⟩ := h.exists_kept hx
  exact List.ne_nil_of_mem hy

/-- No members dominate each other in a circle. -/
theorem not_cycle {x : α} {rest : List α} (hx : x ∈ xs) (hrest : rest ⊆ xs) :
    ¬Cycle better x rest := by
  intro hcycle
  let R : α → α → Prop := fun a b => a ∈ xs ∧ b ∈ xs ∧ covers a b
  have : IsTrans α R := ⟨fun a b c hab hbc =>
    ⟨hab.1, hbc.2.1, h.trans a hab.1 b hab.2.1 c hbc.2.1 hab.2.2 hbc.2.2⟩⟩
  have hmember : ∀ a ∈ x :: (rest ++ [x]), a ∈ xs := by
    intro a ha
    rcases List.mem_cons.mp ha with rfl | ha
    · exact hx
    · rcases List.mem_append.mp ha with ha | ha
      · exact hrest ha
      · rwa [List.mem_singleton.mp ha]
  have hchain : (x :: (rest ++ [x])).IsChain R :=
    List.IsChain.imp_of_mem_imp (fun a b ha hb hab => ⟨hmember a ha, hmember b hb,
      h.contains a (hmember a ha) b (hmember b hb) hab⟩) hcycle
  have hself : R x x := (List.pairwise_cons.mp hchain.pairwise).1 x (by simp)
  exact h.irrefl x hx hself.2.2

end Descent

/-- A chain of members, each of which dominates the next one, leads from the first to the
second. -/
def Outranks (better : α → α → Bool) (xs : List α) : α → α → Prop :=
  Relation.TransGen fun a b => a ∈ xs ∧ b ∈ xs ∧ better a b = true

/-- Where no chain leads back to its start, chains may be followed down. -/
theorem descent_of_acyclic (h : ∀ a, ¬Outranks better xs a a) :
    Descent better (Outranks better xs) xs where
  contains _ ha _ hb hab := .single ⟨ha, hb, hab⟩
  irrefl a _ := h a
  trans _ _ _ _ _ _ hab hbc := hab.trans hbc

/-- What is dropped is dominated by something that is kept. -/
theorem exists_undominated (hirrefl : ∀ a ∈ xs, better a a = false)
    (htrans : ∀ a ∈ xs, ∀ b ∈ xs, ∀ c ∈ xs, better a b = true → better b c = true →
      better a c = true) {x : α} (hx : x ∈ xs) :
    ∃ y ∈ undominated better xs, y = x ∨ better y x = true := by
  have hdescent : Descent better (fun a b => better a b = true) xs :=
    ⟨fun _ _ _ _ h => h, fun a ha => by simp [hirrefl a ha], htrans⟩
  obtain ⟨y, hy, hmin, hyx⟩ := hdescent.exists_minimal hx
  exact ⟨y, mem_undominated_of hy hmin, hyx⟩

/-! ## Groups of neighbours -/

theorem collapse_sublist (same : α → α → Bool) (xs : List α) :
    (collapse same xs).Sublist xs := by
  induction xs using collapse.induct same with
  | case1 => simp [collapse]
  | case2 x => simp [collapse]
  | case3 x y rest h ih =>
    rw [collapse, if_pos h]
    exact ih.trans (.cons_cons x (List.sublist_cons_self y rest))
  | case4 x y rest h ih =>
    rw [collapse, if_neg h]
    exact ih.cons_cons x

theorem head?_collapse (same : α → α → Bool) (x : α) (rest : List α) :
    (collapse same (x :: rest)).head? = some x := by
  induction rest with
  | nil => simp [collapse]
  | cons y rest ih =>
    rw [collapse]
    split
    · exact ih
    · rfl

theorem head_mem_collapse (same : α → α → Bool) (x : α) (rest : List α) :
    x ∈ collapse same (x :: rest) :=
  List.mem_of_mem_head? (head?_collapse same x rest)

/-- No neighbours are left that are the same. -/
theorem collapse_isChain (same : α → α → Bool) (xs : List α) :
    (collapse same xs).IsChain fun a b => same a b = false := by
  induction xs using collapse.induct same with
  | case1 => simp [collapse]
  | case2 x => simp [collapse]
  | case3 x y rest h ih => rwa [collapse, if_pos h]
  | case4 x y rest h ih =>
    rw [collapse, if_neg h]
    refine List.isChain_cons.mpr ⟨fun z hz => ?_, ih⟩
    rw [head?_collapse, Option.mem_some_iff] at hz
    rwa [← hz, ← Bool.not_eq_true]

theorem collapse_of_isChain (h : xs.IsChain fun a b => same a b = false) :
    collapse same xs = xs := by
  induction xs using collapse.induct same with
  | case1 => simp [collapse]
  | case2 x => simp [collapse]
  | case3 x y rest hxy ih =>
    rw [(List.isChain_cons_cons.mp h).1] at hxy
    cases hxy
  | case4 x y rest hxy ih => rw [collapse, if_neg hxy, ih (List.isChain_cons_cons.mp h).2]

/-- A member that is not the same as any one in front of it is kept. -/
theorem mem_collapse_of_new {x y : α} {front back : List α}
    (h : ∀ z ∈ y :: front, same z x = false) :
    x ∈ collapse same (y :: (front ++ x :: back)) := by
  induction front generalizing y with
  | nil =>
    have hyx : ¬same y x = true := by simp [h y List.mem_cons_self]
    rw [List.nil_append, collapse, if_neg hyx]
    exact List.mem_cons_of_mem y (head_mem_collapse same x back)
  | cons z front ih =>
    obtain ⟨hy, hrest⟩ := List.forall_mem_cons.mp h
    rw [List.cons_append, collapse]
    split
    · exact ih (List.forall_mem_cons.mpr ⟨hy, (List.forall_mem_cons.mp hrest).2⟩)
    · exact List.mem_cons_of_mem y (ih hrest)

/-- What is dropped counts as the same as something that is kept. -/
theorem exists_collapsed {x : α} (hx : x ∈ xs) :
    ∃ y ∈ collapse same xs, y = x ∨ same y x = true := by
  induction xs using collapse.induct same with
  | case1 => cases hx
  | case2 y => exact ⟨x, by simpa [collapse] using hx, Or.inl rfl⟩
  | case3 y z rest h ih =>
    rw [collapse, if_pos h]
    rcases List.mem_cons.mp hx with rfl | hx
    · exact ⟨x, head_mem_collapse same x rest, Or.inl rfl⟩
    · rcases List.mem_cons.mp hx with rfl | hx
      · exact ⟨y, head_mem_collapse same y rest, Or.inr h⟩
      · exact ih (List.mem_cons_of_mem y hx)
  | case4 y z rest h ih =>
    rw [collapse, if_neg h]
    rcases List.mem_cons.mp hx with rfl | hx
    · exact ⟨x, List.mem_cons_self, Or.inl rfl⟩
    · obtain ⟨w, hw, hwx⟩ := ih hx
      exact ⟨w, List.mem_cons_of_mem y hw, hwx⟩

/-- In an ordered list, what is left of each group comes before what is left of
the next, if members that are not the same come one before the other. -/
theorem collapse_pairwise (hrank : Ranking before xs) (hsorted : Sorted before xs)
    (hsame : ∀ a ∈ xs, ∀ b ∈ xs, same a b = false → before a b = true ∨ before b a = true) :
    (collapse same xs).Pairwise fun a b => before a b = true := by
  induction xs using collapse.induct same with
  | case1 => simp [collapse]
  | case2 x => simp [collapse]
  | case3 x y rest h ih =>
    have hsub : (x :: rest).Sublist (x :: y :: rest) := .cons_cons x (List.sublist_cons_self y rest)
    rw [collapse, if_pos h]
    exact ih (hrank.mono hsub.subset) (hsorted.sublist hsub)
      fun a ha b hb => hsame a (hsub.subset ha) b (hsub.subset hb)
  | case4 x y rest h ih =>
    have hsub : (y :: rest).Sublist (x :: y :: rest) := List.sublist_cons_self x (y :: rest)
    obtain ⟨hfirst, hrest⟩ := List.pairwise_cons.mp hsorted
    have hxy : before x y = true := by
      rcases hsame x (by simp) y (by simp) (by simpa using h) with hxy | hyx
      · exact hxy
      · rw [hfirst y (by simp)] at hyx; cases hyx
    rw [collapse, if_neg h]
    refine List.pairwise_cons.mpr ⟨fun z hz => ?_, ?_⟩
    · have hz : z ∈ y :: rest := (collapse_sublist same (y :: rest)).subset hz
      rcases List.mem_cons.mp hz with rfl | hz
      · exact hxy
      · rcases hrank.between x (by simp) z (by simp [hz]) y (by simp) hxy with hxz | hzy
        · exact hxz
        · rw [(List.pairwise_cons.mp hrest).1 z hz] at hzy; cases hzy
    · exact ih (hrank.mono hsub.subset) hrest
        fun a ha b hb => hsame a (hsub.subset ha) b (hsub.subset hb)

/-! ## Sorting and collapsing -/

theorem mem_of_mem_deduplicate {x : α} (h : x ∈ deduplicate before same xs) : x ∈ xs :=
  (sort_perm before xs).subset ((collapse_sublist same _).subset h)

theorem deduplicate_subperm (before same : α → α → Bool) (xs : List α) :
    (deduplicate before same xs).Subperm xs :=
  (collapse_sublist same _).subperm.trans (sort_perm before xs).subperm

theorem exists_deduplicated {x : α} (hx : x ∈ xs) :
    ∃ y ∈ deduplicate before same xs, y = x ∨ same y x = true :=
  exists_collapsed ((sort_perm before xs).mem_iff.mpr hx)

/-- What holds between any two members, either way round, still does. -/
theorem deduplicate_pairwise_of_symm {R : α → α → Prop} (hsymm : ∀ {a b}, R a b → R b a)
    (h : xs.Pairwise R) : (deduplicate before same xs).Pairwise R :=
  ((sort_perm before xs).symm.pairwise h hsymm).sublist (collapse_sublist same _)

/-- Deduplicated by a ranking, a list is in strict order. -/
theorem deduplicate_pairwise (hrank : Ranking before xs)
    (hsame : ∀ a ∈ xs, ∀ b ∈ xs, same a b = false → before a b = true ∨ before b a = true) :
    (deduplicate before same xs).Pairwise fun a b => before a b = true := by
  have hsub := (sort_perm before xs).subset
  exact collapse_pairwise (hrank.mono hsub) (sort_sorted hrank)
    fun a ha b hb => hsame a (hsub ha) b (hsub hb)

end ModeSchedule.Pruning
