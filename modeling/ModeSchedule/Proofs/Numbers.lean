/-
ModeSchedule.Proofs.Numbers — numbers compare as the points of a line.

`Scalar` assumes no law, because doubles keep few. What they do keep is the
order: doubles that are numbers, the infinities included, compare as the points
of a line, with both zeros at one point. `Scalar.Ordered` states this much, for
doubles and for rationals, and what follows about orders of resources needs
nothing else. The line ends at the infinite number that is not negative, so what is
below some number is not infinite (`bounded?_of_lt`).

For doubles the line is spelled out: `Binary64.place` gives each number its place
in a lexicographic order of three integers (`compare_eq`).
-/
import Mathlib
import ModeSchedule.Scalar

namespace ModeSchedule

namespace Scalar

/-- It stands for a rational or for an infinity. -/
def IsNumber {K : Type} [Scalar K] (x : K) : Prop := exact x ≠ .undefined

/-- Numbers compare as the points of a line do; two at one point are equal. Of
what is no number only totality leaves it out: no comparison with it holds. -/
class Ordered (K : Type) [Scalar K] : Prop where
  le_total : ∀ {a b : K}, IsNumber a → IsNumber b → a ≤ b ∨ b ≤ a
  le_trans : ∀ {a b c : K}, a ≤ b → b ≤ c → a ≤ c
  lt_iff : ∀ {a b : K}, a < b ↔ a ≤ b ∧ ¬b ≤ a
  beq_iff : ∀ {a b : K}, (a == b) = true ↔ a ≤ b ∧ b ≤ a

/-- No number is above the infinite one. -/
class Capped (K : Type) [Scalar K] : Prop where
  not_infinite_lt : ∀ {a b : K}, exact a = .infinite false → ¬a < b

theorem bounded?_of_lt {K : Type} [Scalar K] [Capped K] {a b : K} (h : a < b) :
    bounded? a = some a := by
  rw [bounded?, if_neg fun hinfinite => Capped.not_infinite_lt hinfinite h]

section

variable {K : Type} [Scalar K] [Ordered K] {a b c : K}

theorem le_refl (ha : IsNumber a) : a ≤ a := (Ordered.le_total ha ha).elim id id

theorem le_of_lt (h : a < b) : a ≤ b := (Ordered.lt_iff.mp h).1

theorem not_le (ha : IsNumber a) (hb : IsNumber b) : ¬a ≤ b ↔ b < a := by
  rw [Ordered.lt_iff]
  exact ⟨fun h => ⟨(Ordered.le_total ha hb).resolve_left h, h⟩, And.right⟩

theorem lt_of_lt_of_le (hab : a < b) (hbc : b ≤ c) : a < c := by
  obtain ⟨hle, hnle⟩ := Ordered.lt_iff.mp hab
  exact Ordered.lt_iff.mpr
    ⟨Ordered.le_trans hle hbc, fun hca => hnle (Ordered.le_trans hbc hca)⟩

theorem lt_of_le_of_lt (hab : a ≤ b) (hbc : b < c) : a < c := by
  obtain ⟨hle, hnle⟩ := Ordered.lt_iff.mp hbc
  exact Ordered.lt_iff.mpr
    ⟨Ordered.le_trans hab hle, fun hca => hnle (Ordered.le_trans hca hab)⟩

end

/-! ## Rationals -/

theorem isNumber_rat (q : Rat) : IsNumber q := by
  simp [IsNumber, exact]

/-- Every integer is a rational. -/
theorem ofInt_rat (n : Int) : (ofInt? n : Option Rat) = some (n : Rat) := by
  simp [ofInt?, ofInt, ofDecimal, isFinite]

/-- Cutting a rational towards zero, and counting nothing where it is negative, is
rounding it down. -/
theorem truncate_rat (q : Rat) : (truncate q).map Int.toNat = .ok ⌊q⌋₊ := by
  change Except.ok (q.num.tdiv q.den).toNat = _
  congr 1
  rcases le_or_gt 0 q with hq | hq
  · rw [Int.tdiv_eq_ediv_of_nonneg (Rat.num_nonneg.mpr hq), ← Rat.floor_def', ← Int.floor_toNat]
  · have hnum := Rat.num_neg.mpr hq
    have hdiv : 0 ≤ (-q.num).tdiv q.den := Int.tdiv_nonneg (by omega) (Int.natCast_nonneg q.den)
    rw [Int.neg_tdiv] at hdiv
    rw [Nat.floor_of_nonpos hq.le]
    exact Int.toNat_of_nonpos (by omega)

instance : Capped Rat where
  not_infinite_lt := nofun

instance : Ordered Rat where
  le_total := fun {_ _} _ _ => Rat.le_total
  le_trans := fun {_ _ _} h₁ h₂ => Rat.le_trans h₁ h₂
  lt_iff := fun {_ _} => lt_iff_le_not_ge (α := Rat)
  beq_iff := fun {_ _} => beq_iff_eq.trans (le_antisymm_iff (α := Rat))

end Scalar

/-! ## Doubles -/

namespace Binary64

open Float.Model

/-- The place of a double on the line: first its sign and kind, then its exponent,
then its mantissa. -/
def place : UnpackedFloat → ℤ ×ₗ ℤ ×ₗ ℤ
  | .infinity .negative => toLex (-2, toLex (0, 0))
  | .finite .negative mantissa exponent _ => toLex (-1, toLex (-exponent, -(mantissa : ℤ)))
  | .zero _ => toLex (0, toLex (0, 0))
  | .notANumber => toLex (0, toLex (0, 0))
  | .finite .positive mantissa exponent _ => toLex (1, toLex (exponent, (mantissa : ℤ)))
  | .infinity .positive => toLex (2, toLex (0, 0))

theorem compare_place (kind e e' m m' : ℤ) :
    compare (toLex (kind, toLex (e, m))) (toLex (kind, toLex (e', m'))) =
      (compare e e').then (compare m m') := by
  rcases lt_trichotomy e e' with he | rfl | he
  · rw [compare_lt_iff_lt.mpr he]
    exact compare_lt_iff_lt.mpr (by simp [Prod.Lex.toLex_lt_toLex, he])
  · rcases lt_trichotomy m m' with hm | rfl | hm
    · rw [compare_lt_iff_lt.mpr hm, compare_eq_iff_eq.mpr rfl]
      exact compare_lt_iff_lt.mpr (by simp [Prod.Lex.toLex_lt_toLex, hm])
    · simp
    · rw [compare_gt_iff_gt.mpr hm, compare_eq_iff_eq.mpr rfl]
      exact compare_gt_iff_gt.mpr (by simp [Prod.Lex.toLex_lt_toLex, hm])
  · rw [compare_gt_iff_gt.mpr he]
    exact compare_gt_iff_gt.mpr (by simp [Prod.Lex.toLex_lt_toLex, he])

theorem compare_natCast (m m' : Nat) : compare (m : ℤ) (m' : ℤ) = compare m m' := by
  rcases lt_trichotomy m m' with h | rfl | h
  · rw [compare_lt_iff_lt.mpr h, compare_lt_iff_lt.mpr (by exact_mod_cast h)]
  · simp
  · rw [compare_gt_iff_gt.mpr h, compare_gt_iff_gt.mpr (by exact_mod_cast h)]

theorem compare_neg (a b : ℤ) : compare (-a) (-b) = (compare a b).swap := by
  rcases lt_trichotomy a b with h | rfl | h
  · rw [compare_lt_iff_lt.mpr h, compare_gt_iff_gt.mpr (by omega)]
    rfl
  · simp
  · rw [compare_gt_iff_gt.mpr h, compare_lt_iff_lt.mpr (by omega)]
    rfl

/-- Numbers compare by their places. -/
theorem compare_eq {a b : UnpackedFloat} (ha : a.isNaN = false) (hb : b.isNaN = false) :
    a.compare b = some (compare (place a) (place b)) := by
  cases a with
  | notANumber => simp [UnpackedFloat.isNaN] at ha
  | infinity s =>
    cases b with
    | notANumber => simp [UnpackedFloat.isNaN] at hb
    | infinity t => cases s <;> cases t <;> rfl
    | zero t => cases s <;> rfl
    | finite t m e h => cases s <;> cases t <;> rfl
  | zero s =>
    cases b with
    | notANumber => simp [UnpackedFloat.isNaN] at hb
    | infinity t => cases t <;> rfl
    | zero t => rfl
    | finite t m e h => cases t <;> rfl
  | finite s m e h =>
    cases b with
    | notANumber => simp [UnpackedFloat.isNaN] at hb
    | infinity t => cases s <;> cases t <;> rfl
    | zero t => cases s <;> rfl
    | finite t m' e' h' =>
      cases s <;> cases t <;> simp only [UnpackedFloat.compare, place]
      · rw [compare_place, compare_neg, compare_neg, compare_natCast, Ordering.swap_then]
      · rfl
      · rfl
      · rw [compare_place, compare_natCast]

/-- Nothing compares with what is no number. -/
theorem compare_eq_none {a b : UnpackedFloat} (h : a.isNaN = true ∨ b.isNaN = true) :
    a.compare b = none := by
  cases a with
  | notANumber => rfl
  | infinity s => cases b <;> cases s <;> simp_all [UnpackedFloat.isNaN, UnpackedFloat.compare]
  | zero s => cases b <;> simp_all [UnpackedFloat.isNaN, UnpackedFloat.compare]
  | finite s m e hm => cases b <;> cases s <;> simp_all [UnpackedFloat.isNaN, UnpackedFloat.compare]

/-- The parts of a double that comparisons look at. -/
abbrev unpacked (x : Float) : UnpackedFloat := x.toModel.unpack

theorem isNumber_iff {x : Float} : Scalar.IsNumber x ↔ (unpacked x).isNaN = false := by
  change Binary64.exact x ≠ .undefined ↔ x.isNaN = false
  unfold Binary64.exact
  cases x.isNaN <;> cases x.isInf <;> simp

/-- Two numbers, the first of which is at most the second. -/
theorem le_iff {x y : Float} : x ≤ y ↔ Scalar.IsNumber x ∧ Scalar.IsNumber y ∧
    place (unpacked x) ≤ place (unpacked y) := by
  have hle : x ≤ y ↔ ((unpacked x).compare (unpacked y)).any (·.isLE) = true := by
    change (decide (x.toModel ≤ y.toModel)) = true ↔ _
    rw [decide_eq_true_iff]
    rfl
  rw [hle, isNumber_iff, isNumber_iff]
  cases hx : (unpacked x).isNaN with
  | true => simp [compare_eq_none (Or.inl hx)]
  | false =>
    cases hy : (unpacked y).isNaN with
    | true => simp [compare_eq_none (Or.inr hy)]
    | false => simp [compare_eq hx hy, ← compare_le_iff_le, Ordering.isLE_iff_ne_gt]

theorem lt_iff {x y : Float} : x < y ↔ Scalar.IsNumber x ∧ Scalar.IsNumber y ∧
    place (unpacked x) < place (unpacked y) := by
  have hlt : x < y ↔ ((unpacked x).compare (unpacked y) == some .lt) = true := by
    change (decide (x.toModel < y.toModel)) = true ↔ _
    rw [decide_eq_true_iff]
    rfl
  rw [hlt, isNumber_iff, isNumber_iff]
  cases hx : (unpacked x).isNaN with
  | true => simp [compare_eq_none (Or.inl hx)]
  | false =>
    cases hy : (unpacked y).isNaN with
    | true => simp [compare_eq_none (Or.inr hy)]
    | false => simp [compare_eq hx hy, compare_lt_iff_lt]

theorem beq_iff {x y : Float} : (x == y) = true ↔ Scalar.IsNumber x ∧ Scalar.IsNumber y ∧
    place (unpacked x) = place (unpacked y) := by
  have hbeq : (x == y) = ((unpacked x).compare (unpacked y) == some .eq) := rfl
  rw [hbeq, isNumber_iff, isNumber_iff]
  cases hx : (unpacked x).isNaN with
  | true => simp [compare_eq_none (Or.inl hx)]
  | false =>
    cases hy : (unpacked y).isNaN with
    | true => simp [compare_eq_none (Or.inr hy)]
    | false => simp [compare_eq hx hy, compare_eq_iff_eq]

end Binary64

instance : Scalar.Ordered Float where
  le_total := by
    intro x y hx hy
    rcases le_total (Binary64.place (Binary64.unpacked x)) (Binary64.place (Binary64.unpacked y))
      with h | h
    · exact Or.inl (Binary64.le_iff.mpr ⟨hx, hy, h⟩)
    · exact Or.inr (Binary64.le_iff.mpr ⟨hy, hx, h⟩)
  le_trans := by
    intro x y z hxy hyz
    obtain ⟨hx, -, hxy⟩ := Binary64.le_iff.mp hxy
    obtain ⟨-, hz, hyz⟩ := Binary64.le_iff.mp hyz
    exact Binary64.le_iff.mpr ⟨hx, hz, hxy.trans hyz⟩
  lt_iff := by
    intro x y
    refine Binary64.lt_iff.trans ?_
    constructor
    · rintro ⟨hx, hy, h⟩
      exact ⟨Binary64.le_iff.mpr ⟨hx, hy, h.le⟩, fun hyx => h.not_ge (Binary64.le_iff.mp hyx).2.2⟩
    · rintro ⟨hxy, hyx⟩
      obtain ⟨hx, hy, -⟩ := Binary64.le_iff.mp hxy
      exact ⟨hx, hy, not_le.mp fun h => hyx (Binary64.le_iff.mpr ⟨hy, hx, h⟩)⟩
  beq_iff := by
    intro x y
    refine Binary64.beq_iff.trans ?_
    constructor
    · rintro ⟨hx, hy, h⟩
      exact ⟨Binary64.le_iff.mpr ⟨hx, hy, h.le⟩, Binary64.le_iff.mpr ⟨hy, hx, h.ge⟩⟩
    · rintro ⟨hxy, hyx⟩
      obtain ⟨hx, hy, hxy⟩ := Binary64.le_iff.mp hxy
      exact ⟨hx, hy, le_antisymm hxy (Binary64.le_iff.mp hyx).2.2⟩

namespace Binary64

open Float.Model

theorem place_le (u : UnpackedFloat) : place u ≤ toLex (2, toLex (0, 0)) := by
  cases u with
  | notANumber => simp [place, Prod.Lex.toLex_le_toLex]
  | infinity s => cases s <;> simp [place, Prod.Lex.toLex_le_toLex]
  | zero s => simp [place, Prod.Lex.toLex_le_toLex]
  | finite s m e h => cases s <;> simp [place, Prod.Lex.toLex_le_toLex]

/-- The infinite number that is not negative is the last one of the line. -/
theorem place_of_infinite {x : Float} (h : Binary64.exact x = .infinite false) :
    place (unpacked x) = toLex (2, toLex (0, 0)) := by
  unfold Binary64.exact at h
  split at h
  · cases h
  · split at h
    · next hinf =>
      have hpos : ¬x < 0 := by simpa using Value.infinite.inj h
      change (unpacked x).isInf = true at hinf
      cases hx : unpacked x with
      | infinity s =>
        cases s with
        | positive => rfl
        | negative =>
          refine absurd (lt_iff.mpr ⟨?_, ?_, ?_⟩) hpos
          · rw [isNumber_iff, hx]
            rfl
          · rw [isNumber_iff]
            decide
          · rw [hx]
            decide
      | _ => simp [hx, UnpackedFloat.isInf] at hinf
    · cases h

end Binary64

instance : Scalar.Capped Float where
  not_infinite_lt := by
    intro x y hx hlt
    have hplace := (Binary64.lt_iff.mp hlt).2.2
    rw [Binary64.place_of_infinite hx] at hplace
    exact absurd hplace (Binary64.place_le _).not_gt

end ModeSchedule
