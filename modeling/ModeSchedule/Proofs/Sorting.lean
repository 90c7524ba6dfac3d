/-
ModeSchedule.Proofs.Sorting — what sorting makes of a list.

A list is cut into runs and single members (`Cut`), and neighbours are merged until one run is
left (`Merges`, `sort_merges`). Which neighbours these are, and when, is up to the stack, and
nothing below depends on it. So what is known of sorting is what is known of a cut and of one
merge:

* nothing is lost and nothing is added, whatever the list is sorted by (`sort_perm`);
* neighbours come out in order if the relation holds one way at most (`sort_stepwise`);
* the list comes out in order if the relation ranks its members (`sort_sorted`).

`OneWay` and `Ranking` ask for this among the members only, because the relations to sort by
are no rankings of all candidates.
-/
import ModeSchedule.Proofs.Merging
import ModeSchedule.Order.Sorting

namespace ModeSchedule.Insertion

variable {α : Type}

/-! ## Order -/

/-- The relation holds one way at most among the members of a list. -/
def OneWay (before : α → α → Bool) (xs : List α) : Prop :=
  ∀ a ∈ xs, ∀ b ∈ xs, before a b = true → before b a = false

theorem OneWay.mono {before : α → α → Bool} {xs ys : List α} (h : OneWay before xs)
    (hsub : ys ⊆ xs) : OneWay before ys :=
  fun a ha b hb => h a (hsub ha) b (hsub hb)

/-- The relation ranks the members of a list: it holds one way at most, and what
comes before a member comes before any third one or after it. -/
structure Ranking (before : α → α → Bool) (xs : List α) : Prop where
  asymm : ∀ a ∈ xs, ∀ b ∈ xs, before a b = true → before b a = false
  between : ∀ a ∈ xs, ∀ b ∈ xs, ∀ c ∈ xs, before a c = true → before a b = true ∨ before b c = true

namespace Ranking

variable {before : α → α → Bool} {xs ys : List α}

theorem oneWay (h : Ranking before xs) : OneWay before xs :=
  h.asymm

theorem mono (h : Ranking before xs) (hsub : ys ⊆ xs) : Ranking before ys where
  asymm a ha b hb := h.asymm a (hsub ha) b (hsub hb)
  between a ha b hb c hc := h.between a (hsub ha) b (hsub hb) c (hsub hc)

theorem trans (h : Ranking before xs) {a b c : α} (ha : a ∈ xs) (hb : b ∈ xs) (hc : c ∈ xs)
    (hab : before a b = true) (hbc : before b c = true) : before a c = true := by
  rcases h.between a ha c hc b hb hab with hac | hcb
  · exact hac
  · rw [h.asymm b hb c hc hbc] at hcb
    cases hcb

theorem not_before_trans (h : Ranking before xs) {a b c : α} (ha : a ∈ xs) (hb : b ∈ xs)
    (hc : c ∈ xs) (hba : before b a = false) (hcb : before c b = false) :
    before c a = false := by
  cases hca : before c a with
  | false => rfl
  | true =>
    rcases h.between c hc b hb a ha hca with h' | h'
    · rw [hcb] at h'; cases h'
    · rw [hba] at h'; cases h'

theorem irrefl (h : Ranking before xs) {a : α} (ha : a ∈ xs) : before a a = false := by
  rw [← Bool.not_eq_true]
  intro haa
  rw [h.asymm a ha a ha haa] at haa
  cases haa

end Ranking

/-- No later member comes before an earlier one. -/
abbrev Sorted (before : α → α → Bool) (xs : List α) : Prop :=
  xs.Pairwise fun a b => before b a = false

/-- No member comes before the one in front of it. -/
abbrev Stepwise (before : α → α → Bool) (xs : List α) : Prop :=
  xs.IsChain fun a b => before b a = false

/-- A list in which neighbours are related is related throughout, if the relation is transitive
among the members. -/
theorem pairwise_of_isChain {R : α → α → Prop} {xs : List α} (h : xs.IsChain R)
    (htrans : ∀ a ∈ xs, ∀ b ∈ xs, ∀ c ∈ xs, R a b → R b c → R a c) : xs.Pairwise R := by
  induction xs with
  | nil => exact .nil
  | cons x xs ih =>
    have htail := ih h.tail fun a ha b hb c hc =>
      htrans a (List.mem_cons_of_mem x ha) b (List.mem_cons_of_mem x hb) c
        (List.mem_cons_of_mem x hc)
    refine List.pairwise_cons.mpr ⟨fun c hc => ?_, htail⟩
    cases xs with
    | nil => cases hc
    | cons y rest =>
      have hxy := (List.isChain_cons_cons.mp h).1
      rcases List.mem_cons.mp hc with rfl | hrest
      · exact hxy
      · exact htrans x (by simp) y (by simp) c (by simp [hrest]) hxy
          ((List.pairwise_cons.mp htail).1 c hrest)

/-- If neighbours are in order and the relation ranks the members, the list is in order. -/
theorem sorted_of_stepwise {before : α → α → Bool} {xs : List α} (h : Ranking before xs)
    (hxs : Stepwise before xs) : Sorted before xs :=
  pairwise_of_isChain hxs fun _ ha _ hb _ hc => h.not_before_trans ha hb hc

/-! ## What a merge keeps -/

section

variable {before : α → α → Bool} {left right out : List α} {ts : List (α ⊕ α)}

theorem taken_perm (ts : List (α ⊕ α)) :
    (ts.map taken).Perm (ts.filterMap Sum.getLeft? ++ ts.filterMap Sum.getRight?) := by
  induction ts with
  | nil => exact .refl _
  | cons t ts ih =>
    cases t with
    | inl x => exact ih.cons x
    | inr y => exact (ih.cons y).trans List.perm_middle.symm

theorem Interwoven.perm {second : α → α → Bool} (h : Interwoven second left right out) :
    out.Perm (left ++ right) := by
  obtain ⟨ts, ⟨rfl, rfl, -⟩, rfl⟩ := h
  exact taken_perm ts

/-- The members of either run stay one behind the other. -/
theorem Interwoven.sublists {second : α → α → Bool} (h : Interwoven second left right out) :
    left.Sublist out ∧ right.Sublist out := by
  obtain ⟨ts, ⟨rfl, rfl, -⟩, rfl⟩ := h
  induction ts with
  | nil => exact ⟨.refl _, .refl _⟩
  | cons t ts ih =>
    cases t with
    | inl x => exact ⟨ih.1.cons_cons x, ih.2.cons x⟩
    | inr y => exact ⟨ih.1.cons y, ih.2.cons_cons y⟩

/-- Neighbours are in order: those of one run because the run is, and others because they
were compared. -/
theorem Interwoven.stepwise (h : Interwoven (fun a b => before b a) left right out)
    (hone : OneWay before (left ++ right)) (hleft : Stepwise before left)
    (hright : Stepwise before right) : Stepwise before out := by
  replace hone := hone.mono h.perm.subset
  obtain ⟨ts, ⟨rfl, rfl, hcrossing⟩, rfl⟩ := h
  induction ts with
  | nil => exact .nil
  | cons t ts ih =>
    have hrest : OneWay before (ts.map taken) := hone.mono (List.subset_cons_self _ _)
    cases t with
    | inl x =>
      refine List.isChain_cons.mpr ⟨?_, ih hcrossing.tail hleft.tail hright hrest⟩
      cases ts with
      | nil => simp
      | cons u ts =>
        cases u with
        | inl x' => simpa using (List.isChain_cons_cons.mp hleft).1
        | inr y => simpa [Crossing] using (List.isChain_cons_cons.mp hcrossing).1
    | inr y =>
      refine List.isChain_cons.mpr ⟨?_, ih hcrossing.tail hleft hright.tail hrest⟩
      cases ts with
      | nil => simp
      | cons u ts =>
        cases u with
        | inl x =>
          have hyx : before y x = true := (List.isChain_cons_cons.mp hcrossing).1
          simpa using hone y (by simp) x (by simp) hyx
        | inr y' => simpa using (List.isChain_cons_cons.mp hright).1

end

/-! ## Runs -/

section

variable {before : α → α → Bool}

theorem splitRun_append (step : α → α → Bool) (last : α) (xs : List α) :
    (splitRun step last xs).1 ++ (splitRun step last xs).2 = xs := by
  induction xs generalizing last with
  | nil => rfl
  | cons x xs ih =>
    simp only [splitRun]
    split
    · simp [ih x]
    · rfl

theorem splitRun_isChain (step : α → α → Bool) (last : α) (xs : List α) :
    (last :: (splitRun step last xs).1).IsChain fun a b => step b a = true := by
  induction xs generalizing last with
  | nil => simp [splitRun]
  | cons x xs ih =>
    simp only [splitRun]
    split
    · next hx => exact List.isChain_cons_cons.mpr ⟨hx, ih x⟩
    · simp

/-- How the run at the front was found: as it stands, or the other way round. -/
theorem initialRun_cases (before : α → α → Bool) (xs : List α) :
    ((initialRun before xs).1 ++ (initialRun before xs).2 = xs ∧
        Stepwise before (initialRun before xs).1) ∨
      ∃ run, (initialRun before xs).1 = run.reverse ∧ run ++ (initialRun before xs).2 = xs ∧
        run.IsChain fun a b => before b a = true := by
  cases xs with
  | nil => exact Or.inl ⟨rfl, .nil⟩
  | cons x xs =>
    cases xs with
    | nil => exact Or.inl ⟨rfl, .singleton x⟩
    | cons y rest =>
      simp only [initialRun]
      split
      · next hyx =>
        refine Or.inr ⟨x :: y :: (splitRun before y rest).1, rfl, ?_, ?_⟩
        · simp [splitRun_append before y rest]
        · exact List.isChain_cons_cons.mpr ⟨hyx, splitRun_isChain before y rest⟩
      · next hyx =>
        refine Or.inl ⟨by simp [splitRun_append (fun b a => !before b a) y rest], ?_⟩
        have hrun := splitRun_isChain (fun b a => !before b a) y rest
        exact List.isChain_cons_cons.mpr
          ⟨(Bool.not_eq_true _).mp hyx, hrun.imp fun a b hab => by simpa using hab⟩

theorem initialRun_perm (before : α → α → Bool) (xs : List α) :
    ((initialRun before xs).1 ++ (initialRun before xs).2).Perm xs := by
  rcases initialRun_cases before xs with ⟨happend, -⟩ | ⟨run, hrun, happend, -⟩
  · rw [happend]
  · rw [hrun]
    exact (run.reverse_perm.append_right _).trans (List.Perm.of_eq happend)

theorem initialRun_stepwise {xs : List α} (hone : OneWay before xs) :
    Stepwise before (initialRun before xs).1 := by
  rcases initialRun_cases before xs with ⟨-, hstepwise⟩ | ⟨run, hrun, happend, hchain⟩
  · exact hstepwise
  · rw [hrun]
    have hsub : run ⊆ xs := happend ▸ List.subset_append_left run _
    exact List.isChain_reverse.mpr
      (hchain.imp_of_mem_imp fun a b ha hb hba => hone b (hsub hb) a (hsub ha) hba)

/-! ## Cutting a list up -/

/-- A list is cut into runs and single members. -/
inductive Cut (before : α → α → Bool) : List α → List (List α) → Prop
  | nil : Cut before [] []
  | single {xs pieces} (x : α) : Cut before xs pieces → Cut before (x :: xs) ([x] :: pieces)
  | run {xs pieces} : Cut before (initialRun before xs).2 pieces →
      Cut before xs ((initialRun before xs).1 :: pieces)

theorem Cut.singles {xs : List α} {pieces : List (List α)} (h : Cut before xs pieces)
    (ys : List α) : Cut before (ys ++ xs) ((ys.map fun y => [y]) ++ pieces) := by
  induction ys with
  | nil => exact h
  | cons y ys ih => exact ih.single y

theorem Cut.perm {xs : List α} {pieces : List (List α)} (h : Cut before xs pieces) :
    pieces.flatten.Perm xs := by
  induction h with
  | nil => exact .refl _
  | single x _ ih => exact ih.cons x
  | run _ ih => exact (ih.append_left _).trans (initialRun_perm before _)

theorem Cut.stepwise {xs : List α} {pieces : List (List α)} (h : Cut before xs pieces)
    (hone : OneWay before xs) : ∀ piece ∈ pieces, Stepwise before piece := by
  induction h with
  | nil => simp
  | single x _ ih =>
    exact List.forall_mem_cons.mpr ⟨.singleton x, ih (hone.mono (List.subset_cons_self x _))⟩
  | @run xs _ _ ih =>
    have hsub : (initialRun before xs).2 ⊆ xs := fun a ha =>
      (initialRun_perm before xs).subset (List.mem_append_right _ ha)
    exact List.forall_mem_cons.mpr ⟨initialRun_stepwise hone, ih (hone.mono hsub)⟩

/-! ## Merging neighbours -/

/-- Two neighbours are merged. -/
inductive MergeStep (before : α → α → Bool) : List (List α) → List (List α) → Prop
  | merge {left right out} (front back : List (List α)) :
      Interwoven (fun a b => before b a) left right out →
      MergeStep before (front ++ left :: right :: back) (front ++ out :: back)

/-- Neighbours are merged any number of times. -/
abbrev Merges (before : α → α → Bool) : List (List α) → List (List α) → Prop :=
  Relation.ReflTransGen (MergeStep before)

variable {rs rs' : List (List α)} {xs : List α}

theorem MergeStep.context (h : MergeStep before rs rs') (front back : List (List α)) :
    MergeStep before (front ++ rs ++ back) (front ++ rs' ++ back) := by
  obtain ⟨front', back', hout⟩ := h
  simpa using MergeStep.merge (front ++ front') (back' ++ back) hout

theorem Merges.context (h : Merges before rs rs') (front back : List (List α)) :
    Merges before (front ++ rs ++ back) (front ++ rs' ++ back) :=
  h.lift (fun rs => front ++ rs ++ back) fun _ _ hstep => hstep.context front back

theorem Merges.of_merge {left right out : List α}
    (h : Interwoven (fun a b => before b a) left right out) :
    Merges before [left, right] [out] :=
  .single (MergeStep.merge [] [] h)

theorem Merges.ne_nil (h : Merges before rs rs') (hrs : rs ≠ []) : rs' ≠ [] := by
  cases h with
  | refl => exact hrs
  | tail _ hstep =>
    obtain ⟨front, back, -⟩ := hstep
    simp

theorem MergeStep.perm (h : MergeStep before rs rs') : rs'.flatten.Perm rs.flatten := by
  obtain ⟨front, back, hout⟩ := h
  have hmerged := (hout.perm.append_right back.flatten).append_left front.flatten
  simpa using hmerged

theorem Merges.perm (h : Merges before rs rs') : rs'.flatten.Perm rs.flatten := by
  induction h with
  | refl => exact .refl _
  | tail _ hstep ih => exact hstep.perm.trans ih

theorem MergeStep.stepwise (h : MergeStep before rs rs') (hone : OneWay before rs.flatten)
    (hrs : ∀ run ∈ rs, Stepwise before run) : ∀ run ∈ rs', Stepwise before run := by
  obtain @⟨left, right, out, front, back, hout⟩ := h
  have hsub : left ++ right ⊆ (front ++ left :: right :: back).flatten := by
    intro a ha
    rcases List.mem_append.mp ha with ha | ha <;> simp [ha]
  intro run hrun
  rcases List.mem_append.mp hrun with hfront | hback
  · exact hrs run (List.mem_append_left _ hfront)
  · rcases List.mem_cons.mp hback with rfl | hback
    · exact hout.stepwise (hone.mono hsub) (hrs left (by simp)) (hrs right (by simp))
    · exact hrs run (by simp [hback])

theorem Merges.stepwise (h : Merges before rs rs') (hone : OneWay before rs.flatten)
    (hrs : ∀ run ∈ rs, Stepwise before run) : ∀ run ∈ rs', Stepwise before run := by
  induction h with
  | refl => exact hrs
  | tail hsteps hstep ih => exact hstep.stepwise (hone.mono (Merges.perm hsteps).subset) ih

/-! ## What the stack does -/

/-- To insert one member after the other is to merge. -/
theorem foldl_insert_merges (before : α → α → Bool) (run rest : List α) :
    Merges before (run :: rest.map fun x => [x]) [rest.foldl (insert before) run] := by
  induction rest generalizing run with
  | nil => exact .refl
  | cons x rest ih =>
    have hinsert := Merges.of_merge (insert_interwoven before run x)
    exact (hinsert.context [] (rest.map fun x => [x])).trans (ih (insert before run x))

/-- The runs of a list are merged from a cut of it. -/
theorem runs_merges (before : α → α → Bool) (least : Nat) (xs : List α) :
    ∃ pieces, Cut before xs pieces ∧ Merges before pieces (runs before least xs) := by
  fun_induction runs before least xs with
  | case1 => exact ⟨[], .nil, .refl⟩
  | case2 x xs found missing ih =>
    obtain ⟨pieces, hcut, hmerges⟩ := ih
    have hrest := hcut.singles (found.2.take missing)
    rw [List.take_append_drop] at hrest
    refine ⟨_, hrest.run, ?_⟩
    have hextended := (foldl_insert_merges before found.1 (found.2.take missing)).context [] pieces
    have hfollowing := hmerges.context [(found.2.take missing).foldl (insert before) found.1] []
    simp only [List.append_nil] at hfollowing
    exact hextended.trans hfollowing

/-- The runs on the stack, in the order of the list. -/
def Stack.inOrder (stack : Stack α) : List (List α) :=
  (stack.pending.map Pending.run).reverse

theorem settle_merges (before : α → α → Bool) (power threshold : Nat) (top : Pending α)
    (below : List (Pending α)) :
    Merges before ((below.map Pending.run).reverse ++ [top.run])
      (settle before power threshold top below).inOrder := by
  fun_induction settle before power threshold top below with
  | case1 => exact .refl
  | case2 threshold top next rest hpower run threshold' hrun ih =>
    have hmerge := Merges.of_merge (merge_interwoven before threshold next.run top.run)
    rw [hrun] at hmerge
    have hneighbours := hmerge.context (rest.map Pending.run).reverse []
    simp only [List.append_nil] at hneighbours
    simpa using hneighbours.trans ih
  | case3 => simp [Stack.inOrder, Relation.ReflTransGen.refl]

theorem push_merges (before : α → α → Bool) (total : Nat) (stack : Stack α) (run : List α) :
    Merges before (stack.inOrder ++ [run]) (push before total stack run).inOrder := by
  fun_cases push before total stack run with
  | case1 hempty => simp [Stack.inOrder, hempty, Relation.ReflTransGen.refl]
  | case2 top rest hpending middle border settled =>
    have hsettle := (settle_merges before border stack.threshold top rest).context [] [run]
    simpa [Stack.inOrder, hpending, settled] using hsettle

theorem foldl_push_merges (before : α → α → Bool) (total : Nat) (stack : Stack α)
    (rs : List (List α)) :
    Merges before (stack.inOrder ++ rs) (rs.foldl (push before total) stack).inOrder := by
  induction rs generalizing stack with
  | nil => simp [Relation.ReflTransGen.refl]
  | cons run rs ih =>
    have hpush := (push_merges before total stack run).context [] rs
    simpa using hpush.trans (ih (push before total stack run))

theorem collapse_merges (before : α → α → Bool) (threshold : Nat) {rs : List (List α)}
    (hrs : rs ≠ []) : Merges before rs.reverse [collapse before threshold rs] := by
  fun_induction collapse before threshold rs with
  | case1 => exact absurd rfl hrs
  | case2 => exact .refl
  | case3 threshold right left => exact .of_merge (merge_interwoven before threshold left right)
  | case4 threshold right middle left rest hlt run threshold' hrun ih =>
    have hmerge := Merges.of_merge (merge_interwoven before threshold left middle)
    rw [hrun] at hmerge
    have hneighbours := hmerge.context rest.reverse [right]
    simp only [List.reverse_cons, List.append_assoc, List.cons_append, List.nil_append]
      at hneighbours ih ⊢
    exact hneighbours.trans (ih (List.cons_ne_nil _ _))
  | case5 threshold right middle left rest hlt run threshold' hrun ih =>
    have hmerge := Merges.of_merge (merge_interwoven before threshold middle right)
    rw [hrun] at hmerge
    have hneighbours := hmerge.context (rest.reverse ++ [left]) []
    simp only [List.reverse_cons, List.append_assoc, List.cons_append, List.nil_append]
      at hneighbours ih ⊢
    exact hneighbours.trans (ih (List.cons_ne_nil _ _))

/-! ## Sorting -/

/-- Sorting merges the runs of a list until one is left. -/
theorem sort_merges_runs (before : α → α → Bool) {xs : List α} (hxs : xs ≠ []) :
    Merges before (runs before (minRun false xs.length) xs) [sort before xs] := by
  have hfound : runs before (minRun false xs.length) xs ≠ [] := by
    obtain ⟨x, rest, rfl⟩ := List.exists_cons_of_ne_nil hxs
    simp [runs]
  unfold sort
  generalize runs before (minRun false xs.length) xs = found at hfound ⊢
  have hpush := foldl_push_merges before xs.length ⟨[], 7⟩ found
  have hstack := Merges.ne_nil hpush hfound
  exact hpush.trans (collapse_merges before _ (by simpa [Stack.inOrder] using hstack))

/-- Sorting cuts a list up, and merges neighbours until one is left. -/
theorem sort_merges (before : α → α → Bool) {xs : List α} (hxs : xs ≠ []) :
    ∃ pieces, Cut before xs pieces ∧ Merges before pieces [sort before xs] := by
  obtain ⟨pieces, hcut, hmerges⟩ := runs_merges before (minRun false xs.length) xs
  exact ⟨pieces, hcut, hmerges.trans (sort_merges_runs before hxs)⟩

theorem sort_nil (before : α → α → Bool) : sort before [] = [] := by
  simp [sort, runs, collapse]

/-- Sorting permutes a list, whatever it is sorted by. -/
theorem sort_perm (before : α → α → Bool) (xs : List α) : (sort before xs).Perm xs := by
  rcases eq_or_ne xs [] with rfl | hxs
  · rw [sort_nil]
  · obtain ⟨pieces, hcut, hmerges⟩ := sort_merges before hxs
    simpa using (Merges.perm hmerges).trans hcut.perm

/-- Sorting leaves no member behind one that it comes before. -/
theorem sort_stepwise {xs : List α} (hone : OneWay before xs) :
    Stepwise before (sort before xs) := by
  rcases eq_or_ne xs [] with rfl | hxs
  · rw [sort_nil]
    exact .nil
  · obtain ⟨pieces, hcut, hmerges⟩ := sort_merges before hxs
    exact Merges.stepwise hmerges (hone.mono hcut.perm.subset) (hcut.stepwise hone)
      (sort before xs) (List.mem_singleton_self _)

/-- Sorting by a ranking of the members puts them in order. -/
theorem sort_sorted {xs : List α} (h : Ranking before xs) : Sorted before (sort before xs) :=
  sorted_of_stepwise (h.mono (sort_perm before xs).subset) (sort_stepwise h.oneWay)

end

end ModeSchedule.Insertion
