/-
ModeSchedule.Proofs.Counting — integers survive the way through the number type.

A count that comes from a number goes back through the number type before it is used
(`Scalar.asCount`). `Scalar.Counting` says that nothing happens to it on that way,
unless it is beyond all words and lost: for rationals, and for doubles.

For doubles this is a matter of bits. An integer near a double fits into a mantissa of
53 bits with a power of two (`fits_floor`, `fits_nearestEven`), the double made of such
an integer is not rounded (`round_exact`, `unpack_pack`), and so it stands for that
integer (`exact_ofScientific`, `asCount_of_fits`).
-/
import ModeSchedule.Proofs.Numbers

namespace ModeSchedule

/-! ## Counting -/

namespace Scalar

/-- An integer near a number is counted as it is, or not at all. -/
class Counting (K : Type) [Scalar K] : Prop where
  asCount_one : asCount K 1 = 1
  asCount_floor : ∀ {x : K} {q : Rat}, exact x = .finite q → 0 < q.floor →
    asCount K q.floor = q.floor ∨ asCount K q.floor < 0
  asCount_nearestEven : ∀ {x : K} {q : Rat}, exact x = .finite q → 0 < nearestEven q →
    asCount K (nearestEven q) = nearestEven q ∨ asCount K (nearestEven q) < 0

instance : Counting Rat where
  asCount_one := rfl
  asCount_floor := fun _ _ => Or.inl rfl
  asCount_nearestEven := fun _ _ => Or.inl rfl

/-- Where a number is cut towards zero and more than zero is left, it is rounded down. -/
theorem truncate_eq_floor {K : Type} [Scalar K] {x : K} {n : Int} (h : truncate x = .ok n)
    (hn : 0 < n) : ∃ q, exact x = .finite q ∧ q.floor = n := by
  unfold truncate toInteger at h
  split at h
  · next q hq =>
    have hcut : q.num.tdiv q.den = n := Except.ok.inj h
    refine ⟨q, hq, ?_⟩
    rcases le_or_gt 0 q.num with hnum | hnum
    · rwa [Rat.floor_def, ← Int.tdiv_eq_ediv_of_nonneg hnum]
    · have hneg : 0 ≤ (-q.num).tdiv q.den := Int.tdiv_nonneg (by omega) (Int.natCast_nonneg _)
      rw [Int.neg_tdiv, hcut] at hneg
      omega
  · cases h
  · cases h

end Scalar

/-! ## The parts of a double -/

namespace Binary64

open Float.Model Float.Model.UnpackedFloat

theorem magnitude_eq (p : Binary64) : p.magnitude = p.mantissa * (2 : Rat) ^ p.exponent := by
  unfold magnitude
  split
  · next h =>
    obtain ⟨n, hn⟩ := Int.eq_ofNat_of_zero_le h
    simp [hn]
  · next h =>
    obtain ⟨n, hn⟩ := Int.exists_eq_neg_ofNat (le_of_not_ge h)
    simp [hn, Rat.mkRat_eq_div, div_eq_mul_inv]

section

variable (x : Float)

/-- The word of a double. -/
abbrev word : BitVec Format.binary64.numBits := x.toModel.toBits.toBitVec

/-- The field of a double that its exponent is kept in. -/
abbrev field : Nat := x.toBits.toNat / 2 ^ 52 % 2048

theorem unpackExponent_toNat : (unpackExponent (word x)).toNat = field x := by
  simp [unpackExponent, field, word, Float.toBits, Nat.shiftRight_eq_div_pow]

theorem unpackMantissa_toNat : (unpackMantissa (word x)).toNat = x.toBits.toNat % 2 ^ 52 := by
  simp [unpackMantissa, word, Float.toBits]

theorem unpackSign_toNat : (unpackSign (word x)).toNat = x.toBits.toNat / 2 ^ 63 := by
  have hlt := x.toBits.toNat_lt
  have hshift : (unpackSign (word x)).toNat = x.toBits.toNat / 2 ^ 63 % 2 := by
    simp [unpackSign, word, Float.toBits, Nat.shiftRight_eq_div_pow]
  omega

theorem sign_eq :
    (Sign.ofBitVec (unpackSign (word x)) == .negative) = (x.toBits.toNat / 2 ^ 63 == 1) := by
  rw [← unpackSign_toNat]
  generalize unpackSign (word x) = sign
  revert sign
  decide

theorem leading_eq :
    (1#1 ++ unpackMantissa (word x)).toNat = x.toBits.toNat % 2 ^ 52 + 2 ^ 52 := by
  have hor := Nat.two_pow_add_eq_or_of_lt (Nat.mod_lt x.toBits.toNat (Nat.two_pow_pos 52)) 1
  rw [BitVec.toNat_append, unpackMantissa_toNat, Nat.add_comm]
  exact hor.symm

theorem parts_of_field {n : Nat} (h : field x = n) :
    parts x = ⟨x.toBits.toNat / 2 ^ 63 == 1,
      if n = 0 then x.toBits.toNat % 2 ^ 52 else x.toBits.toNat % 2 ^ 52 + 2 ^ 52,
      ((if n = 0 then 1 else n : Nat) : Int) - 1075⟩ := by
  subst h
  rfl

variable {x}

/-- What is a number and not infinite does not have the last field. -/
theorem field_ne (hnan : x.isNaN = false) (hinf : x.isInf = false) : field x ≠ 2047 := by
  intro h
  rw [← unpackExponent_toNat] at h
  have hlast : unpackExponent (word x) = -1#11 := BitVec.eq_of_toNat_eq h
  change (unpacked x).isNaN = false at hnan
  change (unpacked x).isInf = false at hinf
  have hunpacked : unpacked x = UnpackedFloat.unpack Format.binary64 (word x) := rfl
  rw [hunpacked, UnpackedFloat.unpack, if_pos hlast] at hnan hinf
  split at hnan
  · next hzero => simp [hzero, UnpackedFloat.isInf] at hinf
  · simp [UnpackedFloat.isNaN] at hnan

theorem parts_bounds (h : field x ≠ 2047) :
    (parts x).mantissa < 2 ^ 53 ∧ (parts x).exponent ≤ 971 := by
  have hlt : field x < 2048 := Nat.mod_lt _ (by decide)
  rw [parts_of_field x rfl]
  by_cases hzero : field x = 0
  · simp only [hzero, if_true]
    omega
  · simp only [hzero, if_false]
    omega

/-- A positive double is a mantissa of 53 bits, scaled by a power of two. -/
theorem exact_cases {q : Rat} (h : Binary64.exact x = .finite q) (hq : 0 < q) :
    ∃ (m : Nat) (e : Int), m < 2 ^ 53 ∧ e ≤ 971 ∧ q = m * (2 : Rat) ^ e := by
  unfold Binary64.exact at h
  split at h
  · cases h
  · next hnan =>
    split at h
    · cases h
    · next hinf =>
      obtain ⟨hmantissa, hexponent⟩ :=
        parts_bounds (field_ne (by simpa using hnan) (by simpa using hinf))
      have hrat := Value.finite.inj h
      rw [toRat, magnitude_eq] at hrat
      have hsize : (0 : Rat) ≤ (parts x).mantissa * (2 : Rat) ^ (parts x).exponent := by positivity
      split at hrat
      · linarith
      · exact ⟨_, _, hmantissa, hexponent, hrat.symm⟩

/-- The sign, mantissa and exponent of a finite number are its parts. -/
theorem parts_eq {sign : Sign} {m : Nat} {e : Int} {hm : 0 < m}
    (h : unpacked x = .finite sign m e hm) : parts x = ⟨sign == .negative, m, e⟩ := by
  change UnpackedFloat.unpack Format.binary64 (word x) = _ at h
  have hbias : (Format.binary64.exponentBias : Int) = 1023 := by decide
  have hexponent := unpackExponent_toNat x
  unfold UnpackedFloat.unpack at h
  simp only [hbias] at h
  split at h
  · split at h <;> cases h
  · split at h
    · next hzero =>
      have hfield : field x = 0 := by
        rw [← hexponent, hzero]
        rfl
      split at h
      · cases h
      · injection h with hsign hmantissa hscale
        rw [← hsign, ← hmantissa, ← hscale, parts_of_field x hfield, sign_eq,
          unpackMantissa_toNat, hexponent, hfield]
        rfl
    · next hnonzero =>
      have hfield : field x ≠ 0 := by
        intro hzero
        rw [← hexponent] at hzero
        exact hnonzero (BitVec.eq_of_toNat_eq hzero)
      injection h with hsign hmantissa hscale
      rw [← hsign, ← hmantissa, ← hscale, parts_of_field x rfl, sign_eq, leading_eq, hexponent,
        if_neg hfield, if_neg hfield]
      rfl

/-- A finite double stands for its mantissa, scaled by its exponent. -/
theorem exact_of_finite {sign : Sign} {m : Nat} {e : Int} {hm : 0 < m}
    (h : unpacked x = .finite sign m e hm) :
    Binary64.exact x = .finite (sign.apply m * (2 : Rat) ^ e) := by
  have hnan : x.isNaN = false := congrArg UnpackedFloat.isNaN h
  have hinf : x.isInf = false := congrArg UnpackedFloat.isInf h
  simp only [Binary64.exact, hnan, hinf, Bool.false_eq_true, if_false, parts_eq h, toRat,
    magnitude_eq]
  cases sign <;> simp [Sign.apply]

end

/-! ## Integers that need no rounding -/

/-- An integer of at most 53 bits, times a power of two that a double can take. -/
def Fits (n : Nat) : Prop := ∃ m e : Nat, m < 2 ^ 53 ∧ e ≤ 971 ∧ n = m * 2 ^ e

theorem fits_of_lt {n : Nat} (h : n < 2 ^ 53) : Fits n := ⟨n, 0, h, by omega, by simp⟩

/-- A positive double is an integer, or smaller than any integer that does not fit. -/
theorem fits_or_small {x : Float} {q : Rat} (h : Binary64.exact x = .finite q) (hq : 0 < q) :
    (∃ n : Nat, Fits n ∧ q = n) ∨ q < 2 ^ 52 := by
  obtain ⟨m, e, hm, he, rfl⟩ := exact_cases h hq
  rcases Int.lt_or_le e 0 with hneg | hpos
  · right
    have hscale : (2 : Rat) ^ e ≤ 2 ^ (-1 : Int) := zpow_le_zpow_right₀ (by norm_num) (by omega)
    have hmantissa : (m : Rat) < 2 ^ 53 := by exact_mod_cast hm
    have hpos : (0 : Rat) < 2 ^ e := by positivity
    calc (m : Rat) * 2 ^ e < 2 ^ 53 * 2 ^ e := mul_lt_mul_of_pos_right hmantissa hpos
      _ ≤ 2 ^ 53 * 2 ^ (-1 : Int) := by gcongr
      _ = 2 ^ 52 := by norm_num
  · left
    obtain ⟨k, rfl⟩ := Int.eq_ofNat_of_zero_le hpos
    exact ⟨m * 2 ^ k, ⟨m, k, hm, by omega, rfl⟩, by push_cast; simp⟩

theorem nearestEven_le (q : Rat) : nearestEven q ≤ q.floor + 1 := by
  unfold nearestEven
  simp only
  split
  · omega
  · split
    · omega
    · split <;> omega

theorem nearestEven_natCast (n : Nat) : nearestEven (n : Rat) = n := by
  have hfloor : (n : Rat).floor = n := Rat.floor_intCast n
  simp [nearestEven, hfloor]

/-- The integer below a double fits, and so does the nearest one. -/
theorem fits_floor {x : Float} {q : Rat} (h : Binary64.exact x = .finite q) (hpos : 0 < q.floor) :
    Fits q.floor.toNat := by
  have hle := Rat.floor_le q
  have hone : (0 : Rat) < q.floor := by exact_mod_cast hpos
  rcases fits_or_small h (hone.trans_le hle) with ⟨n, hn, rfl⟩ | hsmall
  · have hfloor : (n : Rat).floor = n := Rat.floor_intCast n
    rwa [hfloor, Int.toNat_natCast]
  · have hlt : q.floor < 2 ^ 52 := Rat.floor_lt_iff.mpr (by exact_mod_cast hsmall)
    exact fits_of_lt (by omega)

theorem fits_nearestEven {x : Float} {q : Rat} (h : Binary64.exact x = .finite q)
    (hpos : 0 < nearestEven q) : Fits (nearestEven q).toNat := by
  have hnear := nearestEven_le q
  have hfloor : (0 : Int) ≤ q.floor := by omega
  have hq : 0 ≤ q := by exact_mod_cast Rat.le_floor_iff.mp hfloor
  rcases hq.eq_or_lt with rfl | hq
  · have hzero : nearestEven 0 = 0 := nearestEven_natCast 0
    omega
  · rcases fits_or_small h hq with ⟨n, hn, rfl⟩ | hsmall
    · rwa [nearestEven_natCast, Int.toNat_natCast]
    · have hlt : q.floor < 2 ^ 52 := Rat.floor_lt_iff.mpr (by exact_mod_cast hsmall)
      exact fits_of_lt (by omega)

/-! ## The way of an integer into a double -/

/-- Shifting out zeros loses nothing. -/
theorem shift_exact (m k : Nat) :
    ExtendedMantissa.ofMantissaAndAccuracy (m * 2 ^ k) .exact >>> k =
      ExtendedMantissa.ofMantissaAndAccuracy m .exact := by
  induction k generalizing m with
  | zero => simp [HShiftRight.hShiftRight, Nat.repeat]
  | succ k ih =>
    change (ExtendedMantissa.ofMantissaAndAccuracy (m * 2 ^ (k + 1)) .exact >>> k).shiftRightOne = _
    rw [Nat.pow_succ, ← Nat.mul_assoc, Nat.mul_right_comm, ih]
    simp [ExtendedMantissa.ofMantissaAndAccuracy, ExtendedMantissa.shiftRightOne]

theorem log2_scaled {m : Nat} (hlow : 2 ^ 52 ≤ m) (hhigh : m < 2 ^ 53) (k : Nat) :
    (m * 2 ^ k).log2 = 52 + k := by
  have hne : m * 2 ^ k ≠ 0 := (Nat.mul_pos (by omega) (Nat.two_pow_pos k)).ne'
  refine (Nat.log2_eq_iff hne).mpr ⟨?_, ?_⟩
  · rw [Nat.pow_add]
    exact Nat.mul_le_mul_right _ hlow
  · rw [Nat.add_right_comm, Nat.pow_add]
    exact Nat.mul_lt_mul_of_pos_right hhigh (Nat.two_pow_pos k)

theorem shiftToTarget_exact {m : Nat} {e : Int} (hlow : 2 ^ 52 ≤ m) (hhigh : m < 2 ^ 53)
    (he : -1074 ≤ e) (k : Nat) :
    shiftToTargetExponent Format.binary64 (m * 2 ^ k) (e - k) .exact =
      (ExtendedMantissa.ofMantissaAndAccuracy m .exact, e) := by
  have htarget : Format.binary64.targetExponent (totalExponent (m * 2 ^ k) (e - k)) = e := by
    have hbits : (Format.binary64.mantissaBits : Int) = 53 := by decide
    have hleast : Format.binary64.minExponent = -1074 := by decide
    rw [Format.targetExponent, totalExponent, log2_scaled hlow hhigh, hbits, hleast]
    omega
  have hshift : (e - (e - k)).toNat = k := by omega
  rw [shiftToTargetExponent, htarget, shiftToExponent, hshift, shift_exact, Int.sub_add_cancel]

/-- What a mantissa of exactly 53 bits can hold is not rounded. -/
theorem round_exact (sign : Sign) {m : Nat} {e : Int} (hlow : 2 ^ 52 ≤ m) (hhigh : m < 2 ^ 53)
    (he : -1074 ≤ e) (k : Nat) :
    roundWithAccuracy Format.binary64 sign (m * 2 ^ k) (e - k) .exact =
      .finite sign m e (by omega) := by
  have hagain := shiftToTarget_exact hlow hhigh he 0
  simp only [Nat.pow_zero, Nat.mul_one, Int.ofNat_zero, Int.sub_zero] at hagain
  have hround : (ExtendedMantissa.ofMantissaAndAccuracy m .exact).roundedMantissa = m := rfl
  have hne : m ≠ 0 := by omega
  rw [roundWithAccuracy, shiftToTarget_exact hlow hhigh he]
  simp only [hround, hagain]
  exact dif_neg hne

theorem unpackSign_packComponents (spec : Format) {sign : Sign}
    (exponent : BitVec spec.exponentBits) (mantissa : BitVec spec.mantissaBitsWithoutImplicit) :
    unpackSign (packComponents spec sign exponent mantissa) = sign.toBitVec := by
  ext i hi
  obtain rfl : i = 0 := by omega
  simp [unpackSign, packComponents, BitVec.getLsbD_append, BitVec.getElem_append]

/-- What a word can hold is unpacked as it was packed. -/
theorem unpack_pack {m : Nat} {e : Int} (hlow : 2 ^ 52 ≤ m) (hhigh : m < 2 ^ 53)
    (he : -1074 ≤ e) (he' : e ≤ 971) :
    (Float.Model.pack (.finite .positive m e (by omega))).unpack =
      .finite .positive m e (by omega) := by
  have hbias : (Format.binary64.exponentBias : Int) = 1023 := by decide
  have hlog : m.log2 = 52 := by simpa using log2_scaled hlow hhigh 0
  have hsmall : ¬2 ^ 11 ≤ (e + 1023 + 52).toNat + 1 := by omega
  have hpack : UnpackedFloat.pack Format.binary64 (.finite .positive m e (by omega)) =
      packComponents Format.binary64 .positive (BitVec.ofNat 11 (e + 1023 + 52).toNat)
        (BitVec.ofNat 52 m) := by
    simp only [UnpackedFloat.pack, hbias, hlog]
    exact (if_neg hsmall).trans (if_pos rfl)
  have hexponent : (BitVec.ofNat 11 (e + 1023 + 52).toNat).toNat = (e + 1075).toNat := by
    rw [BitVec.toNat_ofNat]
    omega
  have hlast : BitVec.ofNat 11 (e + 1023 + 52).toNat ≠ -1#11 := by
    intro h
    have hnat := congrArg BitVec.toNat h
    rw [hexponent] at hnat
    change (e + 1075).toNat = 2047 at hnat
    omega
  have hfirst : BitVec.ofNat 11 (e + 1023 + 52).toNat ≠ 0#11 := by
    intro h
    have hnat := congrArg BitVec.toNat h
    rw [hexponent] at hnat
    change (e + 1075).toNat = 0 at hnat
    omega
  have hmantissa : (1#1 ++ BitVec.ofNat 52 m).toNat = m := by
    have hor := Nat.two_pow_add_eq_or_of_lt (Nat.mod_lt m (Nat.two_pow_pos 52)) 1
    have hm : 2 ^ 52 * 1 + m % 2 ^ 52 = m := by omega
    rw [BitVec.toNat_append, BitVec.toNat_ofNat]
    exact hor.symm.trans hm
  change UnpackedFloat.unpack Format.binary64
    (UnpackedFloat.pack Format.binary64 (.finite .positive m e (by omega))) = _
  rw [hpack, UnpackedFloat.unpack]
  simp only [unpackExponent_packComponents, unpackMantissa_packComponents, if_neg hlast,
    if_neg hfirst, hbias]
  congr 1
  · rw [unpackSign_packComponents Format.binary64]
    rfl
  · rw [hexponent]
    omega

/-- An integer that fits, with a mantissa of exactly 53 bits. -/
theorem Fits.normal {n : Nat} (h : Fits n) (hpos : 0 < n) :
    ∃ m k : Nat, 2 ^ 52 ≤ m ∧ m < 2 ^ 53 ∧ k ≤ 1023 ∧ n * 2 ^ 52 = m * 2 ^ k := by
  obtain ⟨m, e, hm, he, rfl⟩ := h
  have hm0 : m ≠ 0 := by
    rintro rfl
    simp at hpos
  have hlog : m.log2 ≤ 52 := Nat.lt_succ_iff.mp ((Nat.log2_lt hm0).mpr hm)
  refine ⟨m * 2 ^ (52 - m.log2), e + m.log2, ?_, ?_, by omega, ?_⟩
  · calc 2 ^ 52 = 2 ^ m.log2 * 2 ^ (52 - m.log2) := by
          rw [← Nat.pow_add, Nat.add_sub_cancel' hlog]
      _ ≤ m * 2 ^ (52 - m.log2) := Nat.mul_le_mul_right _ (Nat.log2_self_le hm0)
  · calc m * 2 ^ (52 - m.log2) < 2 ^ (m.log2 + 1) * 2 ^ (52 - m.log2) :=
          Nat.mul_lt_mul_of_pos_right Nat.lt_log2_self (Nat.two_pow_pos _)
      _ = 2 ^ 53 := by
          rw [← Nat.pow_add]
          congr 1
          omega
  · calc m * 2 ^ e * 2 ^ 52 = m * 2 ^ e * 2 ^ (52 - m.log2 + m.log2) := by
          rw [Nat.sub_add_cancel hlog]
      _ = m * 2 ^ (52 - m.log2) * 2 ^ (e + m.log2) := by
          rw [Nat.pow_add, Nat.pow_add]
          ring

variable {n m k : Nat}

theorem scale_bounds (hlow : 2 ^ 52 ≤ m) (hhigh : m < 2 ^ 53) (hn : n * 2 ^ 52 = m * 2 ^ k) :
    2 ^ k ≤ n ∧ n < 2 ^ (k + 1) := by
  constructor
  · have hle : 2 ^ 52 * 2 ^ k ≤ n * 2 ^ 52 := by
      rw [hn]
      exact Nat.mul_le_mul_right _ hlow
    omega
  · have hlt : n * 2 ^ 52 < 2 ^ 53 * 2 ^ k := by
      rw [hn]
      exact Nat.mul_lt_mul_of_pos_right hhigh (Nat.two_pow_pos k)
    omega

theorem log2_eq (hlow : 2 ^ 52 ≤ m) (hhigh : m < 2 ^ 53) (hn : n * 2 ^ 52 = m * 2 ^ k) :
    n.log2 = k := by
  have hbounds := scale_bounds hlow hhigh hn
  have hpos := Nat.two_pow_pos k
  exact (Nat.log2_eq_iff (by omega)).mpr hbounds

/-- A small integer becomes a double by way of a word. -/
theorem round_small (hlow : 2 ^ 52 ≤ m) (hhigh : m < 2 ^ 53) (hk : k ≤ 52)
    (hn : n * 2 ^ 52 = m * 2 ^ k) :
    UnpackedFloat.round Format.binary64 .positive n 0 =
      .finite .positive m ((k : Int) - 52) (by omega) := by
  have hm : n * 2 ^ (52 - k) = m := by
    refine Nat.eq_of_mul_eq_mul_right (Nat.two_pow_pos k) ?_
    rw [Nat.mul_assoc, ← Nat.pow_add, Nat.sub_add_cancel hk, hn]
  have htarget : Format.binary64.targetExponent (totalExponent n 0) = (k : Int) - 52 := by
    have hbits : (Format.binary64.mantissaBits : Int) = 53 := by decide
    have hleast : Format.binary64.minExponent = -1074 := by decide
    rw [Format.targetExponent, totalExponent, log2_eq hlow hhigh hn, hbits, hleast]
    omega
  have hshift : (0 - ((k : Int) - 52)).toNat = 52 - k := by omega
  have hexponent : (0 : Int) - ((52 - k : Nat) : Int) = (k : Int) - 52 - (0 : Nat) := by omega
  have hround := round_exact .positive hlow hhigh (show -1074 ≤ (k : Int) - 52 by omega) 0
  rw [UnpackedFloat.round, htarget, decreaseExponent, hshift, Nat.shiftLeft_eq, hm, hexponent]
  rwa [Nat.pow_zero, Nat.mul_one] at hround

theorem unpack_toFloat (hlow : 2 ^ 52 ≤ m) (hhigh : m < 2 ^ 53) (hk : k ≤ 52)
    (hn : n * 2 ^ 52 = m * 2 ^ k) :
    unpacked n.toUInt64.toFloat = .finite .positive m ((k : Int) - 52) (by omega) := by
  obtain ⟨hle, hlt⟩ := scale_bounds hlow hhigh hn
  have hsmall : n < 2 ^ 53 := hlt.trans_le (Nat.pow_le_pow_right (by omega) (by omega))
  have hpos : (0 : Int) < n := by
    have := Nat.two_pow_pos k
    omega
  have hword : n.toUInt64.toNat = n := Nat.mod_eq_of_lt (hsmall.trans (by decide))
  have hround : UnpackedFloat.ofUInt64 Format.binary64 n.toUInt64 =
      .finite .positive m ((k : Int) - 52) (by omega) := by
    rw [UnpackedFloat.ofUInt64, UnpackedFloat.ofNat, UnpackedFloat.ofInt, UnpackedFloat.normalize,
      hword, compare_gt_iff_gt.mpr hpos]
    exact round_small hlow hhigh hk hn
  change (Float.Model.pack (UnpackedFloat.ofUInt64 Format.binary64 n.toUInt64)).unpack = _
  rw [hround]
  exact unpack_pack hlow hhigh (by omega) (by omega)

theorem unpack_ofScientific_small (hlow : 2 ^ 52 ≤ m) (hhigh : m < 2 ^ 53) (hk : k ≤ 52)
    (hn : n * 2 ^ 52 = m * 2 ^ k) :
    (Float.Model.mul n.toUInt64.toFloat.toModel
      (Float.exactlyRepresentablePowersOfTen[0]).toModel).unpack =
      .finite .positive m ((k : Int) - 52) (by omega) := by
  have hone : (Float.exactlyRepresentablePowersOfTen[0]).toModel.unpack =
      .finite .positive (2 ^ 52) (-52) (by decide) := by rfl
  have hsign : Sign.positive * Sign.positive = Sign.positive := rfl
  have hexponent : (k : Int) - 52 + -52 = (k : Int) - 52 - (52 : Nat) := by omega
  have hexact : -1074 ≤ (k : Int) - 52 := by omega
  have hword : n.toUInt64.toFloat.toModel.unpack =
      .finite .positive m ((k : Int) - 52) (by omega) :=
    unpack_toFloat hlow hhigh hk hn
  rw [Float.Model.mul, hword, hone]
  simp only [UnpackedFloat.mul, hsign, hexponent]
  rw [round_exact .positive hlow hhigh hexact 52]
  exact unpack_pack hlow hhigh hexact (by omega)

theorem unpack_ofScientific_large (hlow : 2 ^ 52 ≤ m) (hhigh : m < 2 ^ 53) (hk : k ≤ 1023)
    (hn : n * 2 ^ 52 = m * 2 ^ k) :
    (Float.Model.ofScientific n 0).unpack = .finite .positive m ((k : Int) - 52) (by omega) := by
  have hne : n ≠ 0 := by
    have := (scale_bounds hlow hhigh hn).1
    have := Nat.two_pow_pos k
    omega
  have hsign : Sign.positive * Sign.positive = Sign.positive := rfl
  have hbits : Format.binary64.mantissaBits = 53 := by decide
  have hmantissa : n <<< 53 * 10 ^ (0 : Int).toNat = m * 2 ^ (k + 1) := by
    rw [Nat.shiftLeft_eq, Int.toNat_zero, Nat.pow_zero, Nat.pow_succ 2 k, ← Nat.mul_assoc, ← hn]
    omega
  have hexponent : -((53 : Nat) : Int) + 0 = (k : Int) - 52 - (k + 1 : Nat) := by omega
  have hexact : -1074 ≤ (k : Int) - 52 := by omega
  have hlog : ¬(0 : Int) < -(2 ^ Format.binary64.exponentBits + n.log2) := by
    have hpos : (0 : Int) ≤ 2 ^ Format.binary64.exponentBits := by positivity
    omega
  rw [Float.Model.ofScientific, UnpackedFloat.ofScientific, dif_neg hne, if_neg (by decide),
    if_neg hlog, if_pos (Int.le_refl 0)]
  simp only [UnpackedFloat.mul, hsign, hbits]
  simp only [hmantissa, hexponent]
  rw [round_exact .positive hlow hhigh hexact (k + 1)]
  exact unpack_pack hlow hhigh hexact (by omega)

/-- An integer that fits is the double that it becomes. -/
theorem exact_ofScientific (h : Fits n) (hpos : 0 < n) :
    Binary64.exact (Float.ofScientific n false 0) = .finite n := by
  obtain ⟨m, k, hlow, hhigh, hk, hn⟩ := h.normal hpos
  have hunpacked : unpacked (Float.ofScientific n false 0) =
      .finite .positive m ((k : Int) - 52) (by omega) := by
    unfold Float.ofScientific
    split
    · next hsmall =>
      have hlog : n.log2 ≤ 52 := Nat.lt_succ_iff.mp ((Nat.log2_lt hpos.ne').mpr hsmall.1)
      rw [log2_eq hlow hhigh hn] at hlog
      exact unpack_ofScientific_small hlow hhigh hlog hn
    · exact unpack_ofScientific_large hlow hhigh hk hn
  have hvalue : (m : Rat) * 2 ^ ((k : Int) - 52) = n := by
    have hcast : (n : Rat) * 2 ^ 52 = m * 2 ^ k := by exact_mod_cast hn
    rw [zpow_sub₀ (by norm_num), zpow_natCast, ← mul_div_assoc, ← hcast]
    norm_num
  rw [exact_of_finite hunpacked, ← hvalue]
  simp [Sign.apply]

/-- An integer that fits is counted as it is, unless it is beyond all words. -/
theorem asCount_of_fits {n : Int} (h : Fits n.toNat) (hpos : 0 < n) :
    asCount n = n ∨ asCount n < 0 := by
  have hnat : n.natAbs = n.toNat := by omega
  have hcast : ((n.toNat : Nat) : Rat) = n := by exact_mod_cast Int.toNat_of_nonneg hpos.le
  have hinfinite : Binary64.exact (1.0 / 0.0) = .infinite false := by decide +kernel
  have hleast : Word.least < 0 := by decide
  have hlarge : ¬(n = 0 ∨ (0 : Int) + (Nat.toDigits 10 n.natAbs).length < -400) := by omega
  have hdouble : ofDecimal n 0 = if 400 < (0 : Int) + (Nat.toDigits 10 n.natAbs).length
      then 1.0 / 0.0 else Float.ofScientific n.natAbs (0 < (0 : Int)) (0 : Int).natAbs := by
    rw [ofDecimal]
    simp only [if_neg hlarge, if_neg (show ¬n < 0 by omega)]
  unfold asCount
  rw [hdouble]
  split
  · next q hq =>
    split at hq
    · rw [hinfinite] at hq
      cases hq
    · have hexact := exact_ofScientific h (by omega)
      rw [hnat] at hq
      have hvalue : q = n := by
        rw [← hcast]
        exact Value.finite.inj (hq.symm.trans hexact)
      have hfloor : (n : Rat).floor = n := Rat.floor_intCast n
      rw [hvalue, hfloor]
      split
      · exact Or.inl rfl
      · exact Or.inr hleast
  · exact Or.inr hleast

end Binary64

instance : Scalar.Counting Float where
  asCount_one := by decide +kernel
  asCount_floor := fun h hpos => Binary64.asCount_of_fits (Binary64.fits_floor h hpos) hpos
  asCount_nearestEven := fun h hpos =>
    Binary64.asCount_of_fits (Binary64.fits_nearestEven h hpos) hpos

end ModeSchedule
