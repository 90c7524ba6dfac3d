/-
ModeSchedule.Proofs.Search.Undominated — pruning a list against itself.

Pruning compares with the members of the list as it was, so that a candidate may be
dropped on account of one that is dropped as well. In the one-dimensional domain it is
accounted for all the same (`pruning_exact`): some candidate that is kept uses no more,
and less of something.

Dominance itself does not lead there. Candidates with one schedule never dominate each
other, so it is not transitive, and the one that is dropped need not be dominated by any
that is kept. `Rate.Covers` is dominance without that exception, and nothing stands in
the way of following it down.
-/
import ModeSchedule.Proofs.Search.Coverage

namespace ModeSchedule

/-! ## Pruning on request -/

namespace Search

variable {K S R A : Type} {P : Problem K S R A} {algorithm : Algorithm}
  {xs : List (Solution K S R)}

theorem prune_list (hmeasured : ∀ s ∈ xs, P.misfit? s.state = none) :
    prune (some P) algorithm (.list xs) xs =
      .ok (Pruning.undominatedBy (algorithm.better P) xs xs) := by
  have hrequired := requireMeasured_eq_ok.mpr hmeasured
  cases xs with
  | nil => rfl
  | cons x rest =>
    show (requireMeasured P (x :: rest) >>= fun _ => _) = _
    rw [hrequired]
    rfl

/-- Where nothing dominates itself, it makes no difference whether a list is pruned
against its other members or against itself. -/
theorem prune_members (hmeasured : ∀ s ∈ xs, P.misfit? s.state = none)
    (hirrefl : ∀ s ∈ xs, algorithm.better P s s = false) :
    prune (some P) algorithm .members xs =
      .ok (Pruning.undominatedBy (algorithm.better P) xs xs) := by
  rw [← Pruning.undominated_eq_undominatedBy hirrefl]
  have hrequired := requireMeasured_eq_ok.mpr hmeasured
  show (if 1 < xs.length then requireMeasured P xs >>= fun _ => _ else _) = _
  split
  · rw [hrequired]
    rfl
  · rfl

end Search

/-! ## Probable dominance -/

namespace UsageOrder

variable {K S : Type} [Scalar K] {o : UsageOrder K} {distance : Solution K S (Usage K) → K}
  {a b : Solution K S (Usage K)}

theorem probablyBetter_iff : o.probablyBetter distance a b = true ↔
    a.schedule ≠ b.schedule ∧ distance a ≤ distance b ∧
      o.within a.resources b.resources = true ∧
        (distance a < distance b ∨ o.less a.resources b.resources = true) := by
  simp only [probablyBetter, Bool.and_eq_true, Bool.or_eq_true, bne_iff_ne, ne_eq,
    decide_eq_true_eq, and_assoc]

theorem probablyBetter_irrefl (a : Solution K S (Usage K)) :
    o.probablyBetter distance a a = false := by
  simp [probablyBetter]

end UsageOrder

namespace Rate

variable {K : Type} [Scalar K] {settings : Settings K K} {algorithm : Algorithm}
  {a b c : Candidate K} {xs : List (Candidate K)}

/-! ## What is kept -/

theorem better_irrefl (algorithm : Algorithm) (a : Candidate K) :
    algorithm.better (problem settings) a a = false := by
  have hstrictly : (problem settings).strictlyBetter a a = false := by
    rw [strictlyBetter_eq]
    exact UsageOrder.strictlyBetter_irrefl a
  cases algorithm with
  | exhaustive => exact hstrictly
  | heuristic => exact UsageOrder.probablyBetter_irrefl a
  | singleMachine => exact hstrictly

/-- What no member of a list dominates. -/
def kept (settings : Settings K K) (algorithm : Algorithm) (xs : List (Candidate K)) :
    List (Candidate K) :=
  Pruning.undominatedBy (algorithm.better (problem settings)) xs xs

theorem mem_kept : a ∈ kept settings algorithm xs ↔
    a ∈ xs ∧ ∀ y ∈ xs, algorithm.better (problem settings) y a = false :=
  Pruning.mem_undominatedBy

theorem prune_members (settings : Settings K K) (algorithm : Algorithm) (xs : List (Candidate K)) :
    Search.prune (some (problem settings)) algorithm .members xs =
      .ok (kept settings algorithm xs) :=
  Search.prune_members (fun _ _ => rfl) fun s _ => better_irrefl algorithm s

theorem prune_list (settings : Settings K K) (algorithm : Algorithm) (xs : List (Candidate K)) :
    Search.prune (some (problem settings)) algorithm (.list xs) xs =
      .ok (kept settings algorithm xs) :=
  Search.prune_list fun _ _ => rfl

theorem kept_eq_filter (settings : Settings K K) (algorithm : Algorithm)
    (xs : List (Candidate K)) : kept settings algorithm xs =
      xs.filter fun x => ∀ y ∈ xs, algorithm.better (problem settings) y x = false := by
  refine List.filter_congr fun x _ => ?_
  rw [Bool.eq_iff_iff]
  simp

/-- None of what is kept dominates another. -/
theorem kept_antichain (ha : a ∈ kept settings algorithm xs) (hb : b ∈ kept settings algorithm xs) :
    algorithm.better (problem settings) a b = false :=
  (mem_kept.mp hb).2 a (mem_kept.mp ha).1

theorem kept_kept (settings : Settings K K) (algorithm : Algorithm) (xs : List (Candidate K)) :
    kept settings algorithm (kept settings algorithm xs) = kept settings algorithm xs := by
  rw [kept_eq_filter settings algorithm (kept settings algorithm xs), List.filter_eq_self]
  exact fun b hb => decide_eq_true fun a ha => kept_antichain ha hb

/-! ## Coverage -/

/-- The first candidate uses no more than the second one and, where the algorithm goes by
that, is no further from the target; and it is ahead in one of these. -/
structure Covers (settings : Settings K K) (algorithm : Algorithm) (a b : Candidate K) :
    Prop where
  energy : a.resources.energy ≤ b.resources.energy
  time : a.resources.time ≤ b.resources.time
  distance : algorithm = .heuristic → distance settings a ≤ distance settings b
  ahead : a.resources.energy < b.resources.energy ∨ a.resources.time < b.resources.time ∨
    algorithm = .heuristic ∧ Rate.distance settings a < Rate.distance settings b

variable [Scalar.Ordered K]

theorem Covers.irrefl (a : Candidate K) : ¬Covers settings algorithm a a := by
  rintro ⟨-, -, -, h | h | ⟨-, h⟩⟩ <;> exact (Scalar.Ordered.lt_iff.mp h).2 (Scalar.le_of_lt h)

theorem Covers.trans (hab : Covers settings algorithm a b) (hbc : Covers settings algorithm b c) :
    Covers settings algorithm a c where
  energy := Scalar.Ordered.le_trans hab.energy hbc.energy
  time := Scalar.Ordered.le_trans hab.time hbc.time
  distance h := Scalar.Ordered.le_trans (hab.distance h) (hbc.distance h)
  ahead := hab.ahead.imp (Scalar.lt_of_lt_of_le · hbc.energy)
    (Or.imp (Scalar.lt_of_lt_of_le · hbc.time)
      fun h => ⟨h.1, Scalar.lt_of_lt_of_le h.2 (hbc.distance h.1)⟩)

theorem covers_of_strictlyBetter (halgorithm : algorithm ≠ .heuristic)
    (h : (problem settings).strictlyBetter a b = true) : Covers settings algorithm a b := by
  rw [strictlyBetter_eq] at h
  obtain ⟨-, -, hwithin, hne⟩ := UsageOrder.strictlyBetter_iff.mp h
  obtain ⟨henergy, htime⟩ := Usage.within_iff.mp hwithin
  refine ⟨henergy, htime, fun h => absurd h halgorithm, ?_⟩
  rw [← Bool.not_eq_true, Usage.equals_iff, Usage.within_iff, Usage.within_iff] at hne
  by_cases hle : b.resources.energy ≤ a.resources.energy
  · exact Or.inr (Or.inl (Scalar.Ordered.lt_iff.mpr
      ⟨htime, fun hge => hne ⟨⟨henergy, htime⟩, hle, hge⟩⟩))
  · exact Or.inl (Scalar.Ordered.lt_iff.mpr ⟨henergy, hle⟩)

theorem covers_of_probablyBetter (h : (problem settings).probablyBetter a b = true) :
    Covers settings .heuristic a b := by
  obtain ⟨-, hdistance, hwithin, hahead⟩ := UsageOrder.probablyBetter_iff.mp h
  obtain ⟨henergy, htime⟩ := Usage.within_iff.mp hwithin
  refine ⟨henergy, htime, fun _ => hdistance, ?_⟩
  rcases hahead with hcloser | hless
  · exact Or.inr (Or.inr ⟨rfl, hcloser⟩)
  · rcases Usage.less_iff.mp hless with hless | ⟨-, hless⟩
    · exact Or.inl hless
    · exact Or.inr (Or.inl hless)

theorem covers_of_better (h : algorithm.better (problem settings) a b = true) :
    Covers settings algorithm a b := by
  cases algorithm with
  | exhaustive => exact covers_of_strictlyBetter nofun h
  | heuristic => exact covers_of_probablyBetter h
  | singleMachine => exact covers_of_strictlyBetter nofun h

theorem covers_descent (settings : Settings K K) (algorithm : Algorithm)
    (xs : List (Candidate K)) : Pruning.Descent (algorithm.better (problem settings))
      (Covers settings algorithm) xs where
  contains _ _ _ _ h := covers_of_better h
  irrefl a _ := Covers.irrefl a
  trans _ _ _ _ _ _ hab hbc := hab.trans hbc

end Rate

/-- **Pruning keeps what nothing dominates, and covers the rest.** In the one-dimensional
domain, under any algorithm, pruning a list gives the same whether it is pruned against its
other members or against itself: the candidates that none dominates, in their order.

Every other candidate is covered by one of them, which uses no more energy and no more
time, under the heuristic algorithm is no further from the target, and is ahead in one of
these. So something is left of every list that is not empty. None of what is left
dominates another, and to prune it once more drops nothing. -/
theorem pruning_exact {K : Type} [Scalar K] [Scalar.Ordered K] (settings : Settings K K)
    (algorithm : Algorithm) (xs : List (Rate.Candidate K)) :
    ∃ kept : List (Rate.Candidate K),
      Search.prune (some (Rate.problem settings)) algorithm .members xs = .ok kept ∧
      Search.prune (some (Rate.problem settings)) algorithm (.list xs) xs = .ok kept ∧
      kept = xs.filter
        (fun x => ∀ y ∈ xs, algorithm.better (Rate.problem settings) y x = false) ∧
      (∀ z ∈ xs, z ∉ kept → ∃ k ∈ kept, Rate.Covers settings algorithm k z) ∧
      (xs ≠ [] → kept ≠ []) ∧
      (∀ a ∈ kept, ∀ b ∈ kept, algorithm.better (Rate.problem settings) a b = false) ∧
      Search.prune (some (Rate.problem settings)) algorithm .members kept = .ok kept ∧
      Search.prune (some (Rate.problem settings)) algorithm (.list kept) kept = .ok kept := by
  refine ⟨Rate.kept settings algorithm xs, Rate.prune_members _ _ _, Rate.prune_list _ _ _,
    Rate.kept_eq_filter _ _ _, ?_, (Rate.covers_descent settings algorithm xs).undominatedBy_ne_nil,
    fun a ha b hb => Rate.kept_antichain ha hb, ?_, ?_⟩
  · intro z hz hdropped
    obtain ⟨k, hk, rfl | hcovers⟩ := (Rate.covers_descent settings algorithm xs).exists_kept hz
    · exact absurd hk hdropped
    · exact ⟨k, hk, hcovers⟩
  · rw [Rate.prune_members, Rate.kept_kept]
  · rw [Rate.prune_list, Rate.kept_kept]

/-- A candidate with the schedule of another one, and what comes between them: dominated
by the first, it dominates the last. -/
def Rate.crowd : List (Rate.Candidate Rat) :=
  [{ schedule := [⟨0, 1⟩], state := 1, resources := ⟨1, 1⟩, distance := none },
   { schedule := [⟨1, 1⟩], state := 1, resources := ⟨2, 1⟩, distance := none },
   { schedule := [⟨0, 1⟩], state := 1 / 2, resources := ⟨3, 2⟩, distance := none }]

/-- The first candidate does not dominate the last, but covers it. -/
theorem pruning_exact_sample : ∃ kept : List (Rate.Candidate Rat),
    Search.prune (some (Rate.problem Rate.sampleSettings)) .heuristic (.list Rate.crowd)
      Rate.crowd = .ok kept ∧
    kept.map Solution.resources = [⟨1, 1⟩] ∧
    (Rate.problem Rate.sampleSettings).probablyBetter Rate.crowd[0] Rate.crowd[2] = false ∧
    ∃ k ∈ kept, Rate.Covers Rate.sampleSettings .heuristic k Rate.crowd[2] := by
  obtain ⟨kept, -, hprune, hkept, hcovers, -⟩ :=
    pruning_exact Rate.sampleSettings .heuristic Rate.crowd
  refine ⟨kept, hprune, ?_, by decide +kernel, hcovers _ (List.getElem_mem _) fun h => ?_⟩
  · rw [hkept]
    decide +kernel
  · rw [hkept] at h
    exact absurd (List.mem_filter.mp h).2 (by decide +kernel)

end ModeSchedule
