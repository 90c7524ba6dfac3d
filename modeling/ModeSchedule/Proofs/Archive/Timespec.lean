/-
ModeSchedule.Proofs.Archive.Timespec — seconds to the nearest nanosecond.

A limit is saved as its whole seconds and the rest in nanoseconds, rounded to the
nearest. Over exact numbers that is `Timespec.ofSeconds` (`Timespec.ofLimit_rat`), which
is never off by more than half a nanosecond (`ofSeconds_near`).

The rest is rounded by itself. So the nanoseconds may come out as a whole second
(`ofSeconds_full` says when), and then the two parts are no well-formed timespec.
Reading such a timespec and splitting it once more carries the second over
(`ofSeconds_again`), and from then on nothing changes. At the other end, at most half a
nanosecond is rounded to nothing (`ofSeconds_value_pos`).
-/
import ModeSchedule.Proofs.Counting
import ModeSchedule.Timespec

namespace ModeSchedule

/-! ## Rounding to the nearest integer -/

/-- Rounding moves a number by at most one half. -/
theorem nearestEven_near (q : Rat) : |(nearestEven q : Rat) - q| ≤ 1 / 2 := by
  have hfloor : q.floor = ⌊q⌋ := rfl
  have hle := Int.floor_le q
  have hlt := Int.lt_floor_add_one q
  simp only [nearestEven, hfloor, abs_le]
  split
  · constructor <;> linarith
  · split
    · push_cast
      constructor <;> linarith
    · split <;> push_cast <;> constructor <;> linarith

/-- A number that is moved by one half is moved to an even integer. -/
theorem nearestEven_even {q : Rat} (h : |(nearestEven q : Rat) - q| = 1 / 2) :
    nearestEven q % 2 = 0 := by
  have hfloor : q.floor = ⌊q⌋ := rfl
  have hle := Int.floor_le q
  have hlt := Int.lt_floor_add_one q
  simp only [nearestEven, hfloor] at h ⊢
  split at h
  · rw [abs_of_nonpos (by linarith)] at h
    linarith
  · next hlow =>
    split at h
    · push_cast at h
      rw [abs_of_nonneg (by linarith)] at h
      linarith
    · next hhigh =>
      rw [if_neg hlow, if_neg hhigh]
      split <;> omega

/-- A number is rounded to an even integer or more if at most one half is missing. -/
theorem even_le_nearestEven {n : Int} (hn : n % 2 = 0) (q : Rat) :
    n ≤ nearestEven q ↔ (n : Rat) - 1 / 2 ≤ q := by
  obtain ⟨hlow, hhigh⟩ := abs_le.mp (nearestEven_near q)
  constructor
  · intro h
    have hcast : (n : Rat) ≤ nearestEven q := by exact_mod_cast h
    linarith
  · intro h
    have hcast : ((n - 1 : Int) : Rat) ≤ nearestEven q := by push_cast; linarith
    have hle : n - 1 ≤ nearestEven q := by exact_mod_cast hcast
    rcases hle.eq_or_lt with heq | hlt
    · -- The integer below is odd, and as far away as `n` is.
      have hvalue : (nearestEven q : Rat) = n - 1 := by rw [← heq]; push_cast; rfl
      rw [hvalue] at hlow hhigh
      have htie : |(nearestEven q : Rat) - q| = 1 / 2 := by
        rw [hvalue, abs_of_nonpos (by linarith)]
        linarith
      have heven := nearestEven_even htie
      omega
    · omega

/-- A number is rounded to an odd integer or more if less than one half is missing. -/
theorem odd_le_nearestEven {n : Int} (hn : n % 2 = 1) (q : Rat) :
    n ≤ nearestEven q ↔ (n : Rat) - 1 / 2 < q := by
  obtain ⟨hlow, hhigh⟩ := abs_le.mp (nearestEven_near q)
  constructor
  · intro h
    have hcast : (n : Rat) ≤ nearestEven q := by exact_mod_cast h
    by_contra hle
    have hvalue : (nearestEven q : Rat) = n := by linarith
    rw [hvalue] at hlow hhigh
    have htie : |(nearestEven q : Rat) - q| = 1 / 2 := by
      rw [hvalue, abs_of_nonneg (by linarith)]
      linarith
    have heven := nearestEven_even htie
    have hn' : nearestEven q = n := by exact_mod_cast hvalue
    omega
  · intro h
    have hcast : ((n - 1 : Int) : Rat) < nearestEven q := by push_cast; linarith
    have hlt : n - 1 < nearestEven q := by exact_mod_cast hcast
    omega

/-! ## Whole seconds and nanoseconds -/

namespace Timespec

/-- The seconds that a limit in two parts stands for. -/
def value (t : Timespec) : Rat := t.seconds + t.nanoseconds / 10 ^ 9

/-- Neither part is negative, and the nanoseconds do not fill up a second. -/
structure WellFormed (t : Timespec) : Prop where
  seconds_nonneg : 0 ≤ t.seconds
  nanoseconds_nonneg : 0 ≤ t.nanoseconds
  nanoseconds_lt : t.nanoseconds < 10 ^ 9

/-- Whole seconds, and the rest in nanoseconds to the nearest. -/
def ofSeconds (seconds : Rat) : Timespec :=
  ⟨⌊seconds⌋, nearestEven (Int.fract seconds * 10 ^ 9)⟩

/-- A second that the nanoseconds fill up is carried over. -/
def carry (t : Timespec) : Timespec :=
  if t.nanoseconds = 10 ^ 9 then ⟨t.seconds + 1, 0⟩ else t

/-- No limit is split as no seconds are. -/
theorem ofLimit_rat (limit : Option Rat) : ofLimit limit = .ok (ofSeconds (limit.getD 0)) := by
  have hinteger : (Scalar.ofInt ⌊limit.getD 0⌋ : Rat) = ⌊limit.getD 0⌋ := by
    simp [Scalar.ofInt, Scalar.ofDecimal]
  have hbillion : (Scalar.ofDecimal 1 9 : Rat) = 10 ^ 9 := by
    simp [Scalar.ofDecimal]
  show Except.ok (⟨⌊limit.getD 0⌋, nearestEven ((limit.getD 0 - Scalar.ofInt ⌊limit.getD 0⌋) *
    Scalar.ofDecimal 1 9)⟩ : Timespec) = _
  rw [hinteger, hbillion]
  rfl

/-- A timespec is read as the seconds it stands for. -/
theorem secondsOf_toJson (t : Timespec) : secondsOf (t.toJson : Json Rat) = .ok t.value := by
  have hbillionth : (Scalar.ofDecimal 1 (-9) : Rat) = 1 / 10 ^ 9 := by
    simp [Scalar.ofDecimal]
  have hvalue : t.value = t.seconds + t.nanoseconds * (1 / 10 ^ 9 : Rat) := by
    rw [value, ← div_eq_mul_one_div]
  have hpart : ∀ n : Int, (Json.int n : Json Rat).toNumber.mapError Invalid.unreadable =
      .ok (n : Rat) := by
    intro n
    simp only [Json.toNumber, Scalar.ofInt_rat]
    rfl
  show ((Json.int t.seconds : Json Rat).toNumber.mapError Invalid.unreadable >>= fun seconds =>
    (Json.int t.nanoseconds : Json Rat).toNumber.mapError Invalid.unreadable >>= fun nanoseconds =>
      .ok (seconds + nanoseconds * Scalar.ofDecimal 1 (-9))) = _
  rw [hpart, hpart, hbillionth, hvalue]
  rfl

section

variable (seconds : Rat)

/-- The nanoseconds are those of at most a whole second. -/
theorem ofSeconds_nanoseconds :
    0 ≤ (ofSeconds seconds).nanoseconds ∧ (ofSeconds seconds).nanoseconds ≤ 10 ^ 9 := by
  have hnonneg := Int.fract_nonneg seconds
  have hlt := Int.fract_lt_one seconds
  constructor
  · exact (even_le_nearestEven rfl _).mpr (by push_cast; linarith)
  · by_contra hgt
    have hmore : (10 ^ 9 + 1 : Int) ≤ nearestEven (Int.fract seconds * 10 ^ 9) := by
      simp only [ofSeconds] at hgt
      omega
    have hfract := (odd_le_nearestEven rfl _).mp hmore
    push_cast at hfract
    linarith

/-- The nanoseconds fill up a second where at most half a nanosecond is missing. -/
theorem ofSeconds_full :
    (ofSeconds seconds).nanoseconds = 10 ^ 9 ↔ 1 - 1 / (2 * 10 ^ 9) ≤ Int.fract seconds := by
  have hfull : (10 ^ 9 : Int) ≤ (ofSeconds seconds).nanoseconds ↔
      ((10 ^ 9 : Int) : Rat) - 1 / 2 ≤ Int.fract seconds * 10 ^ 9 := even_le_nearestEven rfl _
  rw [le_antisymm_iff, and_iff_right (ofSeconds_nanoseconds seconds).2, hfull]
  push_cast
  constructor <;> intro h <;> linarith

theorem ofSeconds_near : |(ofSeconds seconds).value - seconds| ≤ 1 / (2 * 10 ^ 9) := by
  have hnear := nearestEven_near (Int.fract seconds * 10 ^ 9)
  have hfract := Int.floor_add_fract seconds
  rw [abs_le] at hnear ⊢
  simp only [value, ofSeconds]
  constructor <;> linarith

end

/-- What is well-formed comes back from the seconds it stands for. -/
theorem ofSeconds_value {t : Timespec} (h : t.WellFormed) : ofSeconds t.value = t := by
  obtain ⟨seconds, nanoseconds⟩ := t
  obtain ⟨-, hnonneg, hlt⟩ := h
  obtain ⟨n, rfl⟩ := Int.eq_ofNat_of_zero_le hnonneg
  have hlt : (n : Int) < 10 ^ 9 := hlt
  have hn : (n : Rat) < 10 ^ 9 := by exact_mod_cast hlt
  have hvalue : value ⟨seconds, n⟩ = seconds + (n : Rat) / 10 ^ 9 := by
    simp only [value, Int.cast_natCast]
  have hfloor : ⌊value ⟨seconds, n⟩⌋ = seconds := by
    have hrest : (0 : Rat) ≤ n / 10 ^ 9 := by positivity
    rw [hvalue, Int.floor_eq_iff]
    constructor <;> linarith
  have hfract : Int.fract (value ⟨seconds, n⟩) * 10 ^ 9 = n := by
    rw [← Int.self_sub_floor, hfloor, hvalue]
    linarith
  rw [ofSeconds, hfloor, hfract, Binary64.nearestEven_natCast]

theorem carry_value (t : Timespec) : t.carry.value = t.value := by
  unfold carry
  split
  · next h =>
    rw [value, value, h]
    push_cast
    ring
  · rfl

section

variable {seconds : Rat}

/-- With a full second carried over, the split is well-formed. -/
theorem carry_ofSeconds (h : 0 ≤ seconds) : (ofSeconds seconds).carry.WellFormed := by
  have hseconds : 0 ≤ (ofSeconds seconds).seconds := Int.floor_nonneg.mpr h
  obtain ⟨hnonneg, hle⟩ := ofSeconds_nanoseconds seconds
  unfold carry
  split
  · exact ⟨Int.add_nonneg hseconds Int.one_nonneg, le_rfl, by norm_num⟩
  · exact ⟨hseconds, hnonneg, by omega⟩

/-- The split is well-formed unless its nanoseconds fill up a second. -/
theorem ofSeconds_wellFormed (h : 0 ≤ seconds) :
    (ofSeconds seconds).WellFormed ↔ Int.fract seconds < 1 - 1 / (2 * 10 ^ 9) := by
  obtain ⟨hnonneg, hle⟩ := ofSeconds_nanoseconds seconds
  rw [← not_le, ← ofSeconds_full]
  constructor
  · exact fun hwell => hwell.nanoseconds_lt.ne
  · exact fun hne => ⟨Int.floor_nonneg.mpr h, hnonneg, lt_of_le_of_ne hle hne⟩

/-- Only a second that the nanoseconds fill up is carried over. -/
theorem ofSeconds_carry (seconds : Rat) : (ofSeconds seconds).carry = ofSeconds seconds ↔
    Int.fract seconds < 1 - 1 / (2 * 10 ^ 9) := by
  rw [← not_le, ← ofSeconds_full]
  unfold carry
  constructor
  · intro hcarry hfull
    rw [if_pos hfull] at hcarry
    have hnanoseconds := congrArg nanoseconds hcarry
    rw [hfull] at hnanoseconds
    norm_num at hnanoseconds
  · exact fun hne => if_neg hne

/-- To split the seconds of a split once more carries a full second over. -/
theorem ofSeconds_again (h : 0 ≤ seconds) :
    ofSeconds (ofSeconds seconds).value = (ofSeconds seconds).carry := by
  rw [← carry_value, ofSeconds_value (carry_ofSeconds h)]

theorem ofSeconds_value_nonneg (h : 0 ≤ seconds) : 0 ≤ (ofSeconds seconds).value := by
  have hseconds : (0 : Rat) ≤ (ofSeconds seconds).seconds := by
    exact_mod_cast Int.floor_nonneg.mpr h
  have hnanoseconds : (0 : Rat) ≤ (ofSeconds seconds).nanoseconds := by
    exact_mod_cast (ofSeconds_nanoseconds seconds).1
  exact add_nonneg hseconds (div_nonneg hnanoseconds (by positivity))

/-- Something is left of more than half a nanosecond, and of that only. -/
theorem ofSeconds_value_pos (h : 0 ≤ seconds) :
    0 < (ofSeconds seconds).value ↔ 1 / (2 * 10 ^ 9) < seconds := by
  constructor
  · intro hpos
    by_contra hle
    rw [not_lt] at hle
    have hfract : Int.fract seconds = seconds := Int.fract_eq_self.mpr ⟨h, by linarith⟩
    have hseconds : (ofSeconds seconds).seconds = 0 :=
      Int.floor_eq_zero_iff.mpr ⟨h, by linarith⟩
    have hsmall : ¬1 ≤ (ofSeconds seconds).nanoseconds := by
      simp only [ofSeconds, hfract, odd_le_nearestEven (n := 1) rfl]
      push_cast
      linarith
    have hnanoseconds : (ofSeconds seconds).nanoseconds = 0 := by
      have := (ofSeconds_nanoseconds seconds).1
      omega
    simp [value, hseconds, hnanoseconds] at hpos
  · intro hlt
    have hnear := abs_le.mp (ofSeconds_near seconds)
    linarith

end

end Timespec
end ModeSchedule
