/-
ModeSchedule.Proofs.Tolerance — what comparisons within a tolerance keep.

Over exact numbers closeness is reflexive and symmetric, and what lies between two close
numbers is close to both (`close_of_between`). So the numbers close to a number end at its
`reach`, which rises with it. Closeness is not transitive, so less within the tolerance need
not be transitive either; it is for usages among whose energies closeness is
(`nearlyLess_trans`).
-/
import ModeSchedule.Proofs.Numbers
import ModeSchedule.Usage

namespace ModeSchedule

/-- The size of a rational is its absolute value. -/
theorem Scalar.abs_rat (q : Rat) : Scalar.abs q = |q| := by
  change (if q < 0 then -q else q) = |q|
  split
  · next h => exact (abs_of_neg h).symm
  · next h => exact (abs_of_nonneg (not_lt.mp h)).symm

namespace Usage

/-! ## Closeness -/

section

variable {a b c : Rat}

/-- Numbers are close if they differ by at most a billionth of one of them, or by at most
the smallest tolerance. -/
theorem close_iff : close a b = true ↔
    |b - a| ≤ |b| / 10 ^ 9 ∨ |b - a| ≤ |a| / 10 ^ 9 ∨ |b - a| ≤ 1 / 10 ^ 12 := by
  have hrelative : ∀ q : Rat, |relativeTolerance * q| = |q| / 10 ^ 9 := by
    intro q
    have htolerance : (relativeTolerance : Rat) = 1 / 10 ^ 9 := by
      simp [relativeTolerance, Scalar.ofDecimal]
    rw [htolerance, abs_mul, abs_of_pos (by norm_num), mul_comm, mul_one_div]
  have habsolute : (absoluteTolerance : Rat) = 1 / 10 ^ 12 := by
    simp [absoluteTolerance, Scalar.ofDecimal]
  unfold close
  by_cases h : a = b
  · subst h
    simp [div_nonneg]
  · have hne : (a == b) = false := beq_eq_false_iff_ne.mpr h
    have hfinite : (!(Scalar.isFinite a && Scalar.isFinite b)) = false := rfl
    simp only [hne, hfinite, Bool.false_eq_true, if_false, Scalar.abs_rat, hrelative, habsolute,
      Bool.or_eq_true, decide_eq_true_eq, or_assoc]

theorem close_refl (a : Rat) : close a a = true := by
  simp [close]

theorem close_symm (h : close a b = true) : close b a = true := by
  rw [close_iff] at h ⊢
  rw [abs_sub_comm]
  rcases h with h | h | h
  · exact Or.inr (Or.inl h)
  · exact Or.inl h
  · exact Or.inr (Or.inr h)

theorem apart_symm (h : close a b = false) : close b a = false := by
  rw [← Bool.not_eq_true] at h ⊢
  exact fun hclose => h (close_symm hclose)

theorem lt_of_le_of_apart (hle : a ≤ b) (h : close a b = false) : a < b := by
  refine lt_of_le_of_ne hle ?_
  rintro rfl
  rw [close_refl] at h
  cases h

/-- What lies between two close numbers is close to both. -/
theorem close_of_between (hab : a ≤ b) (hbc : b ≤ c) (h : close a c = true) :
    close a b = true ∧ close b c = true := by
  have hleft : |a| - |b| ≤ b - a := by
    rw [← abs_of_nonneg (sub_nonneg.mpr hab), abs_sub_comm]
    exact abs_sub_abs_le_abs_sub a b
  have hright : |c| - |b| ≤ c - b := by
    rw [← abs_of_nonneg (sub_nonneg.mpr hbc)]
    exact abs_sub_abs_le_abs_sub c b
  rw [close_iff] at h ⊢
  rw [close_iff]
  rw [abs_of_nonneg (sub_nonneg.mpr (hab.trans hbc))] at h
  rw [abs_of_nonneg (sub_nonneg.mpr hab), abs_of_nonneg (sub_nonneg.mpr hbc)]
  -- The size in the middle is less than the one at an end by no more than the distance.
  rcases h with h | h | h
  · exact ⟨Or.inl (by linarith), Or.inl (by linarith)⟩
  · exact ⟨Or.inr (Or.inl (by linarith)), Or.inr (Or.inl (by linarith))⟩
  · exact ⟨Or.inr (Or.inr (by linarith)), Or.inr (Or.inr (by linarith))⟩

/-- The largest number that is close to a number. -/
def reach (q : Rat) : Rat :=
  max (q + 1 / 10 ^ 12) (max (q / (1 - 1 / 10 ^ 9)) (q * (1 - 1 / 10 ^ 9)))

theorem reach_strictMono : StrictMono reach := by
  intro a b h
  have hpos : (0 : Rat) < 1 - 1 / 10 ^ 9 := by norm_num
  exact max_lt_max (add_lt_add_left h _)
    (max_lt_max (div_lt_div_of_pos_right h hpos) (mul_lt_mul_of_pos_right h hpos))

theorem lt_reach (q : Rat) : q < reach q :=
  lt_max_of_lt_left (lt_add_of_pos_right q (by norm_num))

/-- Of the numbers that are not less, those up to its reach are close to a number. -/
theorem close_iff_le_reach (h : a ≤ b) : close a b = true ↔ b ≤ reach a := by
  have hpos : (0 : Rat) < 1 - 1 / 10 ^ 9 := by norm_num
  rw [close_iff, abs_of_nonneg (sub_nonneg.mpr h), reach, le_max_iff, le_max_iff,
    le_div_iff₀ hpos]
  constructor
  · rintro (hb | ha | habsolute)
    · rcases le_or_gt 0 b with hsign | hsign
      · rw [abs_of_nonneg hsign] at hb
        exact Or.inr (Or.inl (by linarith))
      · rw [abs_of_neg hsign] at hb
        exact Or.inr (Or.inr (by linarith))
    · rcases le_or_gt 0 a with hsign | hsign
      · rw [abs_of_nonneg hsign] at ha
        exact Or.inr (Or.inl (by linarith))
      · rw [abs_of_neg hsign] at ha
        exact Or.inr (Or.inr (by linarith))
    · exact Or.inl (by linarith)
  · have hself : ∀ q : Rat, q ≤ |q| ∧ -q ≤ |q| := fun q => ⟨le_abs_self q, neg_le_abs q⟩
    rintro (habsolute | hb | ha)
    · exact Or.inr (Or.inr (by linarith))
    · exact Or.inl (by linarith [(hself b).1])
    · exact Or.inr (Or.inl (by linarith [(hself a).2]))

/-- A number is less than another one, or close to it, if the reach of that covers it. -/
theorem le_reach_iff : a < b ∨ close a b = true ↔ a ≤ reach b := by
  rcases le_or_gt a b with hab | hba
  · refine iff_of_true ?_ (hab.trans (lt_reach b).le)
    rcases hab.lt_or_eq with hlt | rfl
    · exact Or.inl hlt
    · exact Or.inr (close_refl a)
  · rw [or_iff_right hba.not_gt, ← close_iff_le_reach hba.le]
    exact ⟨close_symm, close_symm⟩

theorem reach_lt_iff : reach a < b ↔ a < b ∧ close a b = false := by
  rcases le_or_gt a b with hab | hba
  · rw [← not_le, ← close_iff_le_reach hab, Bool.not_eq_true]
    exact ⟨fun h => ⟨lt_of_le_of_apart hab h, h⟩, And.right⟩
  · exact iff_of_false (fun h => (hba.trans (lt_reach a)).not_gt h) fun h => hba.not_gt h.1

end

/-! ## Usages -/

section

variable {K : Type} [Scalar K] {u v : Usage K}

theorem nearlyWithin_iff : nearlyWithin u v = true ↔
    (u.energy < v.energy ∨ close u.energy v.energy = true) ∧
      (u.time < v.time ∨ close u.time v.time = true) := by
  simp only [nearlyWithin, Bool.and_eq_true, Bool.or_eq_true, decide_eq_true_eq]

theorem nearlyLess_iff : nearlyLess u v = true ↔
    close u.energy v.energy = true ∧ u.time < v.time ∨
      close u.energy v.energy = false ∧ u.energy < v.energy := by
  unfold nearlyLess
  cases close u.energy v.energy <;> simp

end

section

variable {u v x : Usage Rat}

theorem nearlyLess_irrefl (u : Usage Rat) : ¬nearlyLess u u = true := by
  simp [nearlyLess, close_refl]

theorem nearlyLess_eq_false_iff : nearlyLess u v = false ↔
    close u.energy v.energy = true ∧ v.time ≤ u.time ∨
      close u.energy v.energy = false ∧ v.energy ≤ u.energy := by
  unfold nearlyLess
  cases close u.energy v.energy <;> simp

theorem nearlyLess_asymm (h : nearlyLess u v = true) : nearlyLess v u = false := by
  rw [nearlyLess_eq_false_iff]
  rcases nearlyLess_iff.mp h with ⟨hclose, htime⟩ | ⟨hapart, henergy⟩
  · exact Or.inl ⟨close_symm hclose, htime.le⟩
  · exact Or.inr ⟨apart_symm hapart, henergy.le⟩

/-- If closeness is transitive among the energies of three usages, less within the
tolerance is transitive among the usages. -/
theorem nearlyLess_trans
    (huvx : close u.energy v.energy = true → close v.energy x.energy = true →
      close u.energy x.energy = true)
    (hvux : close v.energy u.energy = true → close u.energy x.energy = true →
      close v.energy x.energy = true)
    (huxv : close u.energy x.energy = true → close x.energy v.energy = true →
      close u.energy v.energy = true)
    (huv : nearlyLess u v = true) (hvx : nearlyLess v x = true) : nearlyLess u x = true := by
  have hnot : ∀ {a b : Rat}, close a b = false → ¬close a b = true := by simp
  rw [nearlyLess_iff] at huv hvx ⊢
  rcases huv with ⟨huv, htime⟩ | ⟨huv, henergy⟩ <;> rcases hvx with ⟨hvx, htime'⟩ | ⟨hvx, henergy'⟩
  · exact Or.inl ⟨huvx huv hvx, htime.trans htime'⟩
  · refine Or.inr ⟨?_, ?_⟩
    · rw [← Bool.not_eq_true]
      exact fun hux => hnot hvx (hvux (close_symm huv) hux)
    · by_contra hle
      -- Otherwise the last energy lies between the two close ones.
      exact hnot hvx (close_of_between henergy'.le (not_lt.mp hle) (close_symm huv)).1
  · refine Or.inr ⟨?_, ?_⟩
    · rw [← Bool.not_eq_true]
      exact fun hux => hnot huv (huxv hux (close_symm hvx))
    · by_contra hle
      exact hnot huv (close_of_between (not_lt.mp hle) henergy.le (close_symm hvx)).2
  · refine Or.inr ⟨?_, henergy.trans henergy'⟩
    rw [← Bool.not_eq_true]
    exact fun hux => hnot huv (close_of_between henergy.le henergy'.le hux).1

end

end Usage
end ModeSchedule
