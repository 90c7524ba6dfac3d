/-
ModeSchedule.Proofs.Dominance — what comparisons by value mean.

As long as both components are numbers, `Usage.within` is a preorder with
`Usage.equals` as its equivalence (`equals_iff`), and `Usage.less` ranks usages
(`less_asymm`, `less_between`) with ties among equal ones only (`less_total`).

Candidates inherit this where a schedule determines the resources that go with
it: dominance is then transitive (`strictlyBetter_trans`). Where candidates with
one schedule have at least used the same, as numbers compare, sorting has a
ranking to go by (`precedes_ranking`). A list that is free of dominance and in
that order is a staircase (`staircase`).
-/
import ModeSchedule.Proofs.Numbers
import ModeSchedule.Proofs.Sorting
import ModeSchedule.Usage

namespace ModeSchedule

variable {K : Type} [Scalar K]

namespace Usage

/-- Both components are numbers. -/
structure IsNumber (u : Usage K) : Prop where
  energy : Scalar.IsNumber u.energy
  time : Scalar.IsNumber u.time

theorem within_iff {u v : Usage K} :
    within u v = true ↔ u.energy ≤ v.energy ∧ u.time ≤ v.time := by
  simp only [within, Bool.and_eq_true, decide_eq_true_eq]

variable [Scalar.Ordered K] {u v x : Usage K}

theorem within_refl (hu : u.IsNumber) : within u u = true :=
  within_iff.mpr ⟨Scalar.le_refl hu.energy, Scalar.le_refl hu.time⟩

theorem within_trans (huv : within u v = true) (hvx : within v x = true) :
    within u x = true := by
  rw [within_iff] at huv hvx ⊢
  exact ⟨Scalar.Ordered.le_trans huv.1 hvx.1, Scalar.Ordered.le_trans huv.2 hvx.2⟩

/-- Usages are equal if each is within the other. -/
theorem equals_iff : equals u v = true ↔ within u v = true ∧ within v u = true := by
  simp only [equals, Bool.and_eq_true, Scalar.Ordered.beq_iff, within_iff]
  exact ⟨fun h => ⟨⟨h.1.1, h.2.1⟩, h.1.2, h.2.2⟩, fun h => ⟨⟨h.1.1, h.2.1⟩, h.1.2, h.2.2⟩⟩

theorem equals_refl (hu : u.IsNumber) : equals u u = true :=
  equals_iff.mpr ⟨within_refl hu, within_refl hu⟩

theorem less_iff : less u v = true ↔
    u.energy < v.energy ∨ (u.energy ≤ v.energy ∧ v.energy ≤ u.energy) ∧ u.time < v.time := by
  unfold less
  cases he : u.energy == v.energy with
  | true =>
    have hle := Scalar.Ordered.beq_iff.mp he
    have hlt : ¬u.energy < v.energy := fun h => (Scalar.Ordered.lt_iff.mp h).2 hle.2
    simp [hle, hlt]
  | false =>
    have hle : ¬(u.energy ≤ v.energy ∧ v.energy ≤ u.energy) := by
      rw [← Scalar.Ordered.beq_iff, he]
      exact Bool.false_ne_true
    simp [hle]

theorem less_asymm (h : less u v = true) : less v u = false := by
  rw [← Bool.not_eq_true, less_iff]
  rintro (hvu | ⟨⟨hvu, huv⟩, ht⟩) <;> rcases less_iff.mp h with h | ⟨⟨hle, hge⟩, ht'⟩
  · exact (Scalar.Ordered.lt_iff.mp h).2 (Scalar.le_of_lt hvu)
  · exact (Scalar.Ordered.lt_iff.mp hvu).2 hle
  · exact (Scalar.Ordered.lt_iff.mp h).2 hvu
  · exact (Scalar.Ordered.lt_iff.mp ht).2 (Scalar.le_of_lt ht')

theorem less_trans (huv : less u v = true) (hvx : less v x = true) : less u x = true := by
  rw [less_iff] at huv hvx ⊢
  rcases huv with huv | ⟨⟨huv, hvu⟩, ht⟩ <;> rcases hvx with hvx | ⟨⟨hvx, hxv⟩, ht'⟩
  · exact Or.inl (Scalar.lt_of_lt_of_le huv (Scalar.le_of_lt hvx))
  · exact Or.inl (Scalar.lt_of_lt_of_le huv hvx)
  · exact Or.inl (Scalar.lt_of_le_of_lt huv hvx)
  · exact Or.inr ⟨⟨Scalar.Ordered.le_trans huv hvx, Scalar.Ordered.le_trans hxv hvu⟩,
      Scalar.lt_of_lt_of_le ht (Scalar.le_of_lt ht')⟩

/-- Usages one of which comes before the other are not equal. -/
theorem equals_eq_false_of_less (h : less u v = true) : equals u v = false := by
  rw [← Bool.not_eq_true, equals_iff, within_iff, within_iff]
  rintro ⟨-, he, ht⟩
  rcases less_iff.mp h with hlt | ⟨-, hlt⟩
  · exact (Scalar.Ordered.lt_iff.mp hlt).2 he
  · exact (Scalar.Ordered.lt_iff.mp hlt).2 ht

/-- Usages that are not equal come one before the other. -/
theorem less_total (hu : u.IsNumber) (hv : v.IsNumber) (h : equals u v = false) :
    less u v = true ∨ less v u = true := by
  rw [← Bool.not_eq_true, equals_iff, within_iff, within_iff] at h
  rw [less_iff, less_iff]
  by_cases huv : u.energy ≤ v.energy
  · by_cases hvu : v.energy ≤ u.energy
    · rcases Scalar.Ordered.le_total hu.time hv.time with ht | ht
      · exact Or.inl (Or.inr ⟨⟨huv, hvu⟩, Scalar.Ordered.lt_iff.mpr
          ⟨ht, fun ht' => h ⟨⟨huv, ht⟩, hvu, ht'⟩⟩⟩)
      · exact Or.inr (Or.inr ⟨⟨hvu, huv⟩, Scalar.Ordered.lt_iff.mpr
          ⟨ht, fun ht' => h ⟨⟨huv, ht'⟩, hvu, ht⟩⟩⟩)
    · exact Or.inl (Or.inl ((Scalar.not_le hv.energy hu.energy).mp hvu))
  · exact Or.inr (Or.inl ((Scalar.not_le hu.energy hv.energy).mp huv))

/-- What comes before a usage comes before any third one or after it. -/
theorem less_between (hu : u.IsNumber) (hv : v.IsNumber)
    (h : less u x = true) : less u v = true ∨ less v x = true := by
  by_cases heq : equals u v = true
  · -- A usage equal to the first one comes before the last one just the same.
    obtain ⟨huv, hvu⟩ := equals_iff.mp heq
    rw [within_iff] at huv hvu
    refine Or.inr (less_iff.mpr ?_)
    rcases less_iff.mp h with h | ⟨⟨hle, hge⟩, ht⟩
    · exact Or.inl (Scalar.lt_of_le_of_lt hvu.1 h)
    · exact Or.inr ⟨⟨Scalar.Ordered.le_trans hvu.1 hle, Scalar.Ordered.le_trans hge huv.1⟩,
        Scalar.lt_of_le_of_lt hvu.2 ht⟩
  · rw [Bool.not_eq_true] at heq
    rcases less_total hu hv heq with huv | hvu
    · exact Or.inl huv
    · exact Or.inr (less_trans hvu h)

end Usage

/-! ## Exact numbers -/

theorem Usage.within_rat {u v : Usage Rat} :
    Usage.within u v = true ↔ u.energy ≤ v.energy ∧ u.time ≤ v.time :=
  Usage.within_iff

/-- Every usage of exact numbers is a number. -/
theorem Usage.isNumber_rat (u : Usage Rat) : u.IsNumber :=
  ⟨Scalar.isNumber_rat u.energy, Scalar.isNumber_rat u.time⟩

/-- Usages of exact numbers that are within each other are the same. -/
theorem Usage.eq_of_within {u v : Usage Rat} (huv : Usage.within u v = true)
    (hvu : Usage.within v u = true) : u = v := by
  rw [within_rat] at huv hvu
  have henergy : u.energy = v.energy := le_antisymm huv.1 hvu.1
  have htime : u.time = v.time := le_antisymm huv.2 hvu.2
  cases u
  cases v
  exact congrArg₂ Usage.mk henergy htime

/-! ## Candidates -/

namespace UsageOrder

variable {S : Type} {complete : Solution K S (Usage K) → Bool}
  {a b c : Solution K S (Usage K)} {xs : List (Solution K S (Usage K))}

theorem strictlyBetter_iff : byValue.strictlyBetter complete a b = true ↔
    a.schedule ≠ b.schedule ∧ complete a = true ∧
      Usage.within a.resources b.resources = true ∧
        Usage.equals a.resources b.resources = false := by
  simp only [strictlyBetter, byValue, Bool.and_eq_true, bne_iff_ne, ne_eq, Bool.not_eq_true',
    and_assoc]

theorem strictlyBetter_irrefl (a : Solution K S (Usage K)) :
    byValue.strictlyBetter complete a a = false := by
  simp [strictlyBetter]

/-- The resources are numbers, and the schedule determines them. -/
structure Determined (xs : List (Solution K S (Usage K))) : Prop where
  numbers : ∀ a ∈ xs, a.resources.IsNumber
  resources : ∀ a ∈ xs, ∀ b ∈ xs, a.schedule = b.schedule → a.resources = b.resources

theorem Determined.mono {ys : List (Solution K S (Usage K))} (h : Determined xs)
    (hsub : ys ⊆ xs) : Determined ys where
  numbers a ha := h.numbers a (hsub ha)
  resources a ha b hb := h.resources a (hsub ha) b (hsub hb)

/-- The resources are numbers, and candidates with one schedule have used the same. -/
structure Consistent (xs : List (Solution K S (Usage K))) : Prop where
  numbers : ∀ a ∈ xs, a.resources.IsNumber
  resources : ∀ a ∈ xs, ∀ b ∈ xs, a.schedule = b.schedule →
    Usage.equals a.resources b.resources = true

theorem Consistent.mono {ys : List (Solution K S (Usage K))} (h : Consistent xs)
    (hsub : ys ⊆ xs) : Consistent ys where
  numbers a ha := h.numbers a (hsub ha)
  resources a ha b hb := h.resources a (hsub ha) b (hsub hb)

variable [Scalar.Ordered K]

/-- Dominance is transitive where schedules determine resources. -/
theorem strictlyBetter_trans (h : Determined xs) (ha : a ∈ xs) (hc : c ∈ xs)
    (hab : byValue.strictlyBetter complete a b = true)
    (hbc : byValue.strictlyBetter complete b c = true) :
    byValue.strictlyBetter complete a c = true := by
  rw [strictlyBetter_iff] at hab hbc ⊢
  obtain ⟨-, hcomplete, hab, hneab⟩ := hab
  obtain ⟨-, -, hbc, -⟩ := hbc
  have hne : Usage.equals a.resources c.resources = false := by
    rw [← Bool.not_eq_true] at hneab ⊢
    intro heq
    exact hneab (Usage.equals_iff.mpr
      ⟨hab, Usage.within_trans hbc (Usage.equals_iff.mp heq).2⟩)
  refine ⟨fun hschedule => ?_, hcomplete, Usage.within_trans hab hbc, hne⟩
  have hself := Usage.within_refl (h.numbers c hc)
  rw [h.resources a ha c hc hschedule, ← Bool.not_eq_true, Usage.equals_iff] at hne
  exact hne ⟨hself, hself⟩

theorem Determined.consistent (h : Determined xs) : Consistent xs where
  numbers := h.numbers
  resources := by
    intro a ha b hb hschedule
    rw [h.resources a ha b hb hschedule]
    exact Usage.equals_refl (h.numbers b hb)

/-- In a consistent list the exception for candidates with one schedule is idle. -/
theorem Consistent.precedes_eq (h : Consistent xs) (ha : a ∈ xs) (hb : b ∈ xs) :
    Solution.precedes Usage.less a b = Usage.less a.resources b.resources := by
  cases hless : Usage.less a.resources b.resources with
  | false => simp [Solution.precedes, hless]
  | true =>
    simp only [Solution.precedes, hless, Bool.and_true, bne_iff_ne, ne_eq]
    intro hschedule
    have hne := Usage.equals_eq_false_of_less hless
    rw [h.resources a ha b hb hschedule] at hne
    cases hne

/-- The candidates of a consistent list are sorted by a ranking. -/
theorem precedes_ranking (h : Consistent xs) :
    Insertion.Ranking (Solution.precedes Usage.less) xs where
  asymm := by
    intro a ha b hb hab
    rw [h.precedes_eq ha hb] at hab
    rw [h.precedes_eq hb ha]
    exact Usage.less_asymm hab
  between := by
    intro a ha b hb c hc hac
    rw [h.precedes_eq ha hc] at hac
    rw [h.precedes_eq ha hb, h.precedes_eq hb hc]
    exact Usage.less_between (h.numbers a ha) (h.numbers b hb) hac

theorem precedes_total (ha : a.resources.IsNumber) (hb : b.resources.IsNumber)
    (hab : byValue.same a b = false) :
    Solution.precedes Usage.less a b = true ∨ Solution.precedes Usage.less b a = true := by
  simp only [same, byValue, Bool.or_eq_false_iff, beq_eq_false_iff_ne] at hab
  obtain ⟨hschedule, hequals⟩ := hab
  rcases Usage.less_total ha hb hequals with hless | hless
  · exact Or.inl (by simp [Solution.precedes, hless, hschedule])
  · exact Or.inr (by simp [Solution.precedes, hless, Ne.symm hschedule])

/-- Of two complete candidates in order, neither of which dominates the other,
the first uses less energy and more time. -/
theorem staircase (ha : a.resources.IsNumber) (hb : b.resources.IsNumber)
    (hcomplete : complete a = true) (hprecedes : Solution.precedes Usage.less a b = true)
    (hbetter : byValue.strictlyBetter complete a b = false) :
    a.resources.energy < b.resources.energy ∧ b.resources.time < a.resources.time := by
  simp only [Solution.precedes, Bool.and_eq_true, bne_iff_ne, ne_eq] at hprecedes
  obtain ⟨hschedule, hless⟩ := hprecedes
  have hwithin : ¬Usage.within a.resources b.resources = true := by
    intro hwithin
    rw [← Bool.not_eq_true, strictlyBetter_iff] at hbetter
    refine hbetter ⟨hschedule, hcomplete, hwithin, ?_⟩
    rw [← Bool.not_eq_true, Usage.equals_iff, Usage.within_iff, Usage.within_iff]
    rintro ⟨-, he, ht⟩
    rcases Usage.less_iff.mp hless with h | ⟨-, h⟩
    · exact (Scalar.Ordered.lt_iff.mp h).2 he
    · exact (Scalar.Ordered.lt_iff.mp h).2 ht
  rw [Usage.within_iff] at hwithin
  rcases Usage.less_iff.mp hless with h | ⟨⟨hle, -⟩, ht⟩
  · exact ⟨h, (Scalar.not_le ha.time hb.time).mp fun ht => hwithin ⟨Scalar.le_of_lt h, ht⟩⟩
  · exact absurd ⟨hle, Scalar.le_of_lt ht⟩ hwithin

end UsageOrder
end ModeSchedule
