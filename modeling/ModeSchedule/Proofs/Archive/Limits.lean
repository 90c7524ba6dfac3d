/-
ModeSchedule.Proofs.Archive.Limits — what becomes of a limit that is saved.

`Settings.check_eq_ok` says which values are accepted as settings. What has been
accepted is saved (`Settings.toJson_eq`), and what was saved is accepted again, with the
limit that the saved timespec stands for (`Settings.check_saved`).

Over exact numbers every accepted limit is saved, to the nearest nanosecond
(`Settings.SavedToNearest`, `saved_limit`). Two things follow for its ends. Where at most
half a nanosecond is missing to a whole second, the saved nanoseconds are a whole second
themselves (`overfull_nanoseconds`), and only the next saving carries it over. And a limit
of at most half a nanosecond is saved as zero, which stands for no limit
(`Settings.KeepsLimit`, `limited_after_saving`, `limit_lost`).
-/
import ModeSchedule.Proofs.Archive.RoundTrip
import ModeSchedule.Proofs.Archive.Timespec

namespace ModeSchedule

variable {K S : Type} [Scalar K]

/-! ## Members of an object -/

namespace Check

variable {α : Type} {name : String} {default : α} {check : Json K → Check α} {j : Json K} {x : α}

omit [Scalar K] in
theorem required_eq_ok :
    required name check j = .ok x ↔ ∃ v, j.find? name = some v ∧ check v = .ok x := by
  unfold required
  rw [under_eq_ok]
  cases j.find? name with
  | none => simp [fail]
  | some v => simp

omit [Scalar K] in
theorem optional_eq_ok : optional name default check j = .ok x ↔
    (∃ v, j.find? name = some v ∧ check v = .ok x) ∨ j.find? name = none ∧ default = x := by
  unfold optional
  rw [under_eq_ok]
  cases j.find? name with
  | none => simp
  | some v => simp

theorem positive_eq_ok {j : Json K} {x : K} : positive j = .ok x ↔ number j = .ok x ∧ 0 < x := by
  rw [positive, ensure_eq_ok, decide_eq_true_iff]

end Check

/-! ## States -/

/-- States that a check lets pass are written so that it lets them pass again. -/
def ReadBack (check : Json K → Check S) (write : S → Json K) : Prop :=
  ∀ j x, check j = .ok x → check (write x) = .ok x

theorem readBack_number : ReadBack (Check.number (K := K)) .real := fun _ _ _ => rfl

namespace Tapping.State

/-- Settings of the tapping machine say three numbers. -/
theorem exists_of_check {j : Json K} {s : State K} (h : check j = .ok s) :
    ∃ speed current depth, s = .vector [speed, current, depth] := by
  unfold check at h
  split at h
  · cases h
  · next speed current depth _ => exact ⟨speed, current, depth, (Except.ok.inj h).symm⟩
  · cases h
  · next hnone _ _ => cases hread : read j <;> simp_all

theorem readBack : ReadBack (check (K := K)) toJson := by
  intro j s h
  obtain ⟨speed, current, depth, rfl⟩ := exists_of_check h
  rfl

end Tapping.State

/-! ## Settings that are accepted -/

/-- An accepted limit is not below zero. -/
theorem checkTimeout_nonneg {j : Json K} {timeout : Option K} (h : checkTimeout j = .ok timeout) :
    ∀ t ∈ timeout, 0 ≤ t := by
  intro t ht
  unfold checkTimeout at h
  split at h
  · cases h
    cases ht
  · split at h
    · cases h
    · cases h
    · cases h
    · obtain ⟨x, hx, rfl⟩ := Granted.map.mp h
      cases ht
      exact of_decide_eq_true (Check.ensure_eq_ok.mp hx).2
  · obtain ⟨x, hx, rfl⟩ := Granted.map.mp h
    cases ht
    exact (Check.nonnegative_eq_ok.mp hx).2

namespace Settings

variable {state : Json K → Check S} {write : S → Json K} {j : Json K} {s : Settings K S}

/-- Settings are accepted exactly from an object all of whose members are. -/
theorem check_eq_ok : check state j = .ok s ↔ (∃ members, j = .obj members) ∧
    Check.required "initial_state" state j = .ok s.initialState ∧
    Check.required "target_state" state j = .ok s.targetState ∧
    Check.required "time_delta" Check.positive j = .ok s.timeDelta ∧
    Check.required "time_max" Check.positive j = .ok s.timeMax ∧
    Check.required "threshold" Check.positive j = .ok s.threshold ∧
    Check.optional "timeout" none checkTimeout j = .ok s.timeout ∧
    Check.optional "interactive" false Check.boolean j = .ok s.interactive := by
  unfold check
  cases j with
  | obj members =>
    simp only [Check.object, Granted.map]
    constructor
    · rintro ⟨⟨a, b, c, d, e, f, g⟩, h, rfl⟩
      simpa [Check.both_eq_ok] using h
    · rintro ⟨-, h⟩
      exact ⟨(s.initialState, s.targetState, s.timeDelta, s.timeMax, s.threshold, s.timeout,
        s.interactive), by simpa [Check.both_eq_ok] using h, rfl⟩
  | _ => simp [Check.object, Check.fail]

/-- The limits that the check of settings sets. -/
structure Accepted (state : Json K → Check S) (s : Settings K S) : Prop where
  initialState : ∃ j, state j = .ok s.initialState
  targetState : ∃ j, state j = .ok s.targetState
  timeDelta : 0 < s.timeDelta
  timeMax : 0 < s.timeMax
  threshold : 0 < s.threshold
  timeout : ∀ t ∈ s.timeout, 0 ≤ t

theorem accepted_of_check (h : check state j = .ok s) : s.Accepted state := by
  obtain ⟨-, hinitial, htarget, hdelta, hmax, hthreshold, htimeout, -⟩ := check_eq_ok.mp h
  obtain ⟨u, -, hinitial⟩ := Check.required_eq_ok.mp hinitial
  obtain ⟨v, -, htarget⟩ := Check.required_eq_ok.mp htarget
  obtain ⟨_, -, hdelta⟩ := Check.required_eq_ok.mp hdelta
  obtain ⟨_, -, hmax⟩ := Check.required_eq_ok.mp hmax
  obtain ⟨_, -, hthreshold⟩ := Check.required_eq_ok.mp hthreshold
  refine ⟨⟨u, hinitial⟩, ⟨v, htarget⟩, (Check.positive_eq_ok.mp hdelta).2,
    (Check.positive_eq_ok.mp hmax).2, (Check.positive_eq_ok.mp hthreshold).2, ?_⟩
  rcases Check.optional_eq_ok.mp htimeout with ⟨_, -, htimeout⟩ | ⟨-, hnone⟩
  · exact checkTimeout_nonneg htimeout
  · rw [← hnone]
    nofun

/-! ## Saving -/

/-- What is saved, once the limit has been split. -/
def saved (write : S → Json K) (s : Settings K S) (limit : Timespec) : Json K :=
  .obj
    [("initial_state", write s.initialState),
     ("target_state", write s.targetState),
     ("time_delta", .real s.timeDelta),
     ("time_max", .real s.timeMax),
     ("threshold", .real s.threshold),
     ("timeout", limit.toJson),
     ("interactive", .bool s.interactive)]

theorem toJson_eq (write : S → Json K) (s : Settings K S) :
    s.toJson write = (Timespec.ofLimit s.timeout).map (s.saved write) := by
  unfold toJson
  cases Timespec.ofLimit s.timeout <;> rfl

/-- Settings with an infinite limit are not saved. -/
theorem toJson_infinite {t : K} {negative : Bool} (htimeout : s.timeout = some t)
    (ht : Scalar.exact t = .infinite negative) : s.toJson write = .error .infinite := by
  have hfloor : Scalar.floor t = .error .infinite := by
    rw [Scalar.floor, Scalar.toInteger, ht]
  rw [toJson_eq, htimeout, Timespec.ofLimit, Option.getD_some, hfloor]
  rfl

end Settings

/-! ## Saving and reading exact numbers -/

section

variable {S : Type} {state : Json Rat → Check S} {write : S → Json Rat} {s : Settings Rat S}

theorem checkTimeout_toJson {t : Timespec} (h : 0 ≤ t.value) :
    checkTimeout (t.toJson : Json Rat) = .ok (some t.value) := by
  have hseconds := Timespec.secondsOf_toJson t
  simp only [Timespec.toJson] at hseconds ⊢
  simp only [checkTimeout, hseconds]
  exact Granted.map.mpr ⟨t.value, Check.ensure_eq_ok.mpr ⟨rfl, decide_eq_true h⟩, rfl⟩

namespace Settings

/-- The limit in seconds; no limit counts as none. -/
def seconds (s : Settings Rat S) : Rat := s.timeout.getD 0

theorem seconds_nonneg (h : s.Accepted state) : 0 ≤ s.seconds := by
  unfold seconds
  cases htimeout : s.timeout with
  | none => exact le_rfl
  | some t => exact h.timeout t htimeout

theorem toJson_rat (write : S → Json Rat) (s : Settings Rat S) :
    s.toJson write = .ok (s.saved write (.ofSeconds s.seconds)) := by
  rw [toJson_eq, Timespec.ofLimit_rat]
  rfl

/-- Saved settings are accepted, with the limit that their timespec stands for. -/
theorem check_saved (hread : ReadBack state write) (h : s.Accepted state) {t : Timespec}
    (ht : 0 ≤ t.value) :
    check state (s.saved write t) = .ok { s with timeout := some t.value } := by
  obtain ⟨u, hu⟩ := h.initialState
  obtain ⟨v, hv⟩ := h.targetState
  refine check_eq_ok.mpr ⟨⟨_, rfl⟩, ?_⟩
  exact ⟨Check.required_eq_ok.mpr ⟨_, rfl, hread u _ hu⟩,
    Check.required_eq_ok.mpr ⟨_, rfl, hread v _ hv⟩,
    Check.required_eq_ok.mpr ⟨_, rfl, Check.positive_eq_ok.mpr ⟨rfl, h.timeDelta⟩⟩,
    Check.required_eq_ok.mpr ⟨_, rfl, Check.positive_eq_ok.mpr ⟨rfl, h.timeMax⟩⟩,
    Check.required_eq_ok.mpr ⟨_, rfl, Check.positive_eq_ok.mpr ⟨rfl, h.threshold⟩⟩,
    Check.optional_eq_ok.mpr (Or.inl ⟨_, rfl, checkTimeout_toJson ht⟩),
    Check.optional_eq_ok.mpr (Or.inl ⟨_, rfl, rfl⟩)⟩

/-- `s` is written with its limit split as `t`, and read back as `reloaded`. -/
structure SavedAs (state : Json Rat → Check S) (write : S → Json Rat) (s : Settings Rat S)
    (t : Timespec) (saved : Json Rat) (reloaded : Settings Rat S) : Prop where
  writes : s.toJson write = .ok saved
  timeout : saved.find? "timeout" = some t.toJson
  reads : check state saved = .ok reloaded

/-- Accepted settings are written and read back. -/
theorem savedAs (hread : ReadBack state write) (h : s.Accepted state) :
    SavedAs state write s (.ofSeconds s.seconds) (s.saved write (.ofSeconds s.seconds))
      { s with timeout := some (Timespec.ofSeconds s.seconds).value } where
  writes := toJson_rat write s
  timeout := rfl
  reads := check_saved hread h (Timespec.ofSeconds_value_nonneg (seconds_nonneg h))

/-- The form in which a limit is written is the split of its seconds. -/
theorem SavedAs.split {t : Timespec} {saved : Json Rat} {reloaded : Settings Rat S}
    (h : SavedAs state write s t saved reloaded) : t = .ofSeconds s.seconds := by
  obtain ⟨seconds, nanoseconds⟩ := t
  have hsaved := (toJson_rat write s).symm.trans h.writes
  have htimeout := h.timeout
  rw [← Except.ok.inj hsaved] at htimeout
  have hparts : (Timespec.ofSeconds s.seconds).toJson =
      (Timespec.toJson ⟨seconds, nanoseconds⟩ : Json Rat) := Option.some.inj htimeout
  simp only [Timespec.toJson, Json.obj.injEq, List.cons.injEq, Prod.mk.injEq, Json.int.injEq,
    true_and, and_true] at hparts
  rw [← hparts.1, ← hparts.2]

/-- What is read back has the limit that the written timespec stands for. -/
theorem SavedAs.limit (hread : ReadBack state write) (haccepted : s.Accepted state)
    {t : Timespec} {saved : Json Rat} {reloaded : Settings Rat S}
    (h : SavedAs state write s t saved reloaded) : reloaded.timeout = some t.value := by
  have hown := savedAs hread haccepted
  have hsaved := hown.writes.symm.trans h.writes
  have hreads := h.reads
  rw [← Except.ok.inj hsaved, hown.reads] at hreads
  rw [h.split, ← Except.ok.inj hreads]

/-- To write and read accepted settings once more changes nothing but the form of the
limit: a second that its nanoseconds fill up is carried over. -/
theorem savedAs_again (hread : ReadBack state write) (h : s.Accepted state) :
    ∃ again, SavedAs state write { s with timeout := some (Timespec.ofSeconds s.seconds).value }
      (Timespec.ofSeconds s.seconds).carry again
      { s with timeout := some (Timespec.ofSeconds s.seconds).value } := by
  have hnonneg := seconds_nonneg h
  have hvalue := Timespec.ofSeconds_value_nonneg hnonneg
  have haccepted : Accepted state
      { s with timeout := some (Timespec.ofSeconds s.seconds).value } :=
    { h with timeout := fun t ht => by cases ht; exact hvalue }
  have hagain := savedAs hread haccepted
  have hcarry : Timespec.ofSeconds (seconds
      { s with timeout := some (Timespec.ofSeconds s.seconds).value }) =
      (Timespec.ofSeconds s.seconds).carry := Timespec.ofSeconds_again hnonneg
  rw [hcarry, Timespec.carry_value] at hagain
  exact ⟨_, hagain⟩

end Settings

/-- The settings are written with the limit in two parts, neither of them negative, and at
most half a nanosecond off; no limit is written as zero seconds. Unless at most half a
nanosecond is missing to a whole second, these parts are a well-formed timespec, and what
was written is read back and written once more just the same. Otherwise the second that
the nanoseconds fill up is carried over on the second writing. -/
def Settings.SavedToNearest (state : Json Rat → Check S) (write : S → Json Rat)
    (s : Settings Rat S) : Prop :=
  ∃ t saved reloaded again, s.SavedAs state write t saved reloaded ∧
    reloaded.SavedAs state write t.carry again reloaded ∧
    0 ≤ t.seconds ∧ 0 ≤ t.nanoseconds ∧ |t.value - s.seconds| ≤ 1 / (2 * 10 ^ 9) ∧
    (t.WellFormed ↔ Int.fract s.seconds < 1 - 1 / (2 * 10 ^ 9)) ∧
    (t.carry = t ↔ Int.fract s.seconds < 1 - 1 / (2 * 10 ^ 9)) ∧
    t.carry.WellFormed ∧ t.carry.value = t.value

/-- Accepted settings are saved in this way, whatever their states. -/
theorem Settings.savedToNearest_of_check (hread : ReadBack state write) {j : Json Rat}
    (hcheck : Settings.check state j = .ok s) : s.SavedToNearest state write := by
  have haccepted := Settings.accepted_of_check hcheck
  have hnonneg := Settings.seconds_nonneg haccepted
  obtain ⟨again, hagain⟩ := Settings.savedAs_again hread haccepted
  exact ⟨_, _, _, again, Settings.savedAs hread haccepted, hagain, Int.floor_nonneg.mpr hnonneg,
    (Timespec.ofSeconds_nanoseconds _).1, Timespec.ofSeconds_near _,
    Timespec.ofSeconds_wellFormed hnonneg, Timespec.ofSeconds_carry _,
    Timespec.carry_ofSeconds hnonneg, Timespec.carry_value _⟩

end

/-- **An accepted limit is saved to the nearest nanosecond.** Over exact numbers the
settings of either domain, if they are accepted, are saved with a limit that is at most half
a nanosecond off, and that is a well-formed timespec which another saving does not change,
unless at most half a nanosecond is missing to a whole second. -/
theorem saved_limit (j : Json Rat) :
    (∀ s, Settings.check Check.number j = .ok s → s.SavedToNearest Check.number .real) ∧
    ∀ s, Settings.check Tapping.State.check j = .ok s →
      s.SavedToNearest Tapping.State.check Tapping.State.toJson :=
  ⟨fun _ => Settings.savedToNearest_of_check readBack_number,
    fun _ => Settings.savedToNearest_of_check Tapping.State.readBack⟩

/-! ## Settings with a given limit -/

/-- Settings of the one-dimensional domain with a given limit, as they are given. -/
def limitedTo (timeout : K) : Json K :=
  .obj
    [("initial_state", .real 0), ("target_state", .real (Scalar.ofInt 10)),
     ("time_delta", .real 1), ("time_max", .real (Scalar.ofInt 20)),
     ("threshold", .real (Scalar.ofDecimal 5 (-1))), ("timeout", .real timeout)]

/-- The settings that `limitedTo` says. -/
def limitedSettings (timeout : K) : Settings K K :=
  { initialState := 0, targetState := Scalar.ofInt 10, timeDelta := 1
    timeMax := Scalar.ofInt 20, threshold := Scalar.ofDecimal 5 (-1), timeout := some timeout }

theorem check_limitedTo {timeout : K} (hdelta : (0 : K) < 1)
    (hmax : (0 : K) < Scalar.ofInt 20) (hthreshold : (0 : K) < Scalar.ofDecimal 5 (-1))
    (h : 0 ≤ timeout) :
    Settings.check Check.number (limitedTo timeout) = .ok (limitedSettings timeout) := by
  refine Settings.check_eq_ok.mpr ⟨⟨_, rfl⟩, ?_⟩
  exact ⟨Check.required_eq_ok.mpr ⟨_, rfl, rfl⟩,
    Check.required_eq_ok.mpr ⟨_, rfl, rfl⟩,
    Check.required_eq_ok.mpr ⟨_, rfl, Check.positive_eq_ok.mpr ⟨rfl, hdelta⟩⟩,
    Check.required_eq_ok.mpr ⟨_, rfl, Check.positive_eq_ok.mpr ⟨rfl, hmax⟩⟩,
    Check.required_eq_ok.mpr ⟨_, rfl, Check.positive_eq_ok.mpr ⟨rfl, hthreshold⟩⟩,
    Check.optional_eq_ok.mpr (Or.inl ⟨_, rfl, Granted.map.mpr
      ⟨timeout, Check.nonnegative_eq_ok.mpr ⟨rfl, h⟩, rfl⟩⟩),
    Check.optional_eq_ok.mpr (Or.inr ⟨rfl, rfl⟩)⟩

theorem check_limitedTo_rat (timeout : Rat) (h : 0 ≤ timeout) :
    Settings.check Check.number (limitedTo timeout) = .ok (limitedSettings timeout) :=
  check_limitedTo (by decide +kernel) (by decide +kernel) (by decide +kernel) h

/-- A limit of two and a half nanoseconds more than seven seconds. -/
theorem saved_limit_sample : ∃ s : Settings Rat Rat,
    Settings.check Check.number (limitedTo (7 + 5 / (2 * 10 ^ 9))) = .ok s ∧
      ∃ t saved reloaded again, s.SavedAs Check.number .real t saved reloaded ∧
        reloaded.SavedAs Check.number .real t.carry again reloaded ∧
        |t.value - s.seconds| ≤ 1 / (2 * 10 ^ 9) := by
  have hcheck := check_limitedTo_rat (7 + 5 / (2 * 10 ^ 9)) (by norm_num)
  refine ⟨_, hcheck, ?_⟩
  obtain ⟨t, saved, reloaded, again, hsaved, hagain, -, -, hnear, -⟩ :=
    (saved_limit _).1 _ hcheck
  exact ⟨t, saved, reloaded, again, hsaved, hagain, hnear⟩

/-- A tenth of a nanosecond less than a second is saved as no seconds and a billion
nanoseconds, which is no well-formed timespec; so it is with doubles. And an infinite
limit, which is accepted, is not saved. -/
theorem overfull_nanoseconds :
    (¬∀ (j : Json Rat) (s : Settings Rat Rat), Settings.check Check.number j = .ok s →
      ∃ t saved reloaded, s.SavedAs Check.number .real t saved reloaded ∧ t.WellFormed) ∧
    Timespec.ofLimit (some (0.9999999999 : Float)) = .ok ⟨0, 10 ^ 9⟩ ∧
    ∃ (j : Json Float) (s : Settings Float Float), Settings.check Check.number j = .ok s ∧
      s.toJson .real = .error .infinite := by
  refine ⟨?_, by decide +kernel, limitedTo (1 / 0), limitedSettings (1 / 0), ?_, ?_⟩
  · intro hall
    obtain ⟨t, saved, _, hsaved, hwell⟩ :=
      hall _ _ (check_limitedTo_rat (9999999999 / 10 ^ 10) (by norm_num))
    have hseconds : (limitedSettings (9999999999 / 10 ^ 10 : Rat)).seconds =
      9999999999 / 10 ^ 10 := rfl
    have hfull : t.nanoseconds = 10 ^ 9 := by
      rw [hsaved.split, hseconds, Timespec.ofSeconds_full]
      norm_num
    exact absurd hwell.nanoseconds_lt (by omega)
  · exact check_limitedTo (by decide +kernel) (by decide +kernel) (by decide +kernel)
      (by decide +kernel)
  · have hinfinite : Scalar.exact (1 / 0 : Float) = .infinite false := by decide +kernel
    exact Settings.toJson_infinite rfl hinfinite

/-! ## Whether there is a limit -/

/-- A stopwatch with this limit, once started, has reached it at some later moment. -/
def Stopwatch.CanExpire (timeout : Option K) : Prop :=
  ∃ clock now : K, clock ≤ now ∧ (Stopwatch.started timeout clock).expired now = true

/-- Over exact numbers a limit other than zero can be reached, and no limit cannot. -/
theorem Stopwatch.canExpire_iff {timeout : Option Rat} :
    CanExpire timeout ↔ ∃ t ∈ timeout, t ≠ 0 := by
  cases timeout with
  | none =>
    constructor
    · rintro ⟨_, _, -, h⟩
      cases h
    · rintro ⟨_, h, -⟩
      cases h
  | some t =>
    by_cases ht : t = 0
    · subst ht
      constructor
      · rintro ⟨_, _, -, h⟩
        cases h
      · rintro ⟨_, h, hne⟩
        exact absurd (Option.some.inj h).symm hne
    · refine ⟨fun _ => ⟨t, rfl, ht⟩, fun _ => ⟨0, |t|, abs_nonneg t, ?_⟩⟩
      have hstarted : started (some t) (0 : Rat) = ⟨some t, 0, some 0⟩ := by
        simp [started, withLimit, start, limitOf, ht]
      have hreached : t ≤ 0 + (|t| - 0) := by simpa using le_abs_self t
      rw [hstarted]
      exact decide_eq_true hreached

/-- Accepted settings that are saved stay limited, or stay unlimited, unless their limit is
at most half a nanosecond but not zero. -/
theorem Settings.SavedAs.limited_iff {S : Type} {state : Json Rat → Check S}
    {write : S → Json Rat} {s reloaded : Settings Rat S} {t : Timespec} {saved : Json Rat}
    (hread : ReadBack state write) (haccepted : s.Accepted state)
    (h : s.SavedAs state write t saved reloaded) :
    (Stopwatch.CanExpire reloaded.timeout ↔ Stopwatch.CanExpire s.timeout) ↔
      ∀ limit ∈ s.timeout, limit = 0 ∨ 1 / (2 * 10 ^ 9) < limit := by
  have hnonneg := Settings.seconds_nonneg haccepted
  have hvalue := Timespec.ofSeconds_value_nonneg hnonneg
  have hreloaded : Stopwatch.CanExpire reloaded.timeout ↔ 1 / (2 * 10 ^ 9) < s.seconds := by
    rw [Stopwatch.canExpire_iff, h.limit hread haccepted, h.split,
      ← Timespec.ofSeconds_value_pos hnonneg]
    simp [hvalue.lt_iff_ne']
  have hlimited : Stopwatch.CanExpire s.timeout ↔ 0 < s.seconds := by
    rw [Stopwatch.canExpire_iff, hnonneg.lt_iff_ne']
    unfold Settings.seconds
    cases s.timeout <;> simp
  have hshort : (∀ limit ∈ s.timeout, limit = 0 ∨ 1 / (2 * 10 ^ 9) < limit) ↔
      s.seconds = 0 ∨ 1 / (2 * 10 ^ 9) < s.seconds := by
    unfold Settings.seconds
    cases s.timeout <;> simp
  rw [hreloaded, hlimited, hshort]
  rcases hnonneg.eq_or_lt with hzero | hpos
  · rw [← hzero]
    norm_num
  · simp only [hpos, hpos.ne', iff_true, false_or]

/-- The settings are saved and read back, and a stopwatch with their limit can expire
after that exactly if it could before. -/
def Settings.KeepsLimit {S : Type} (state : Json Rat → Check S) (write : S → Json Rat)
    (s : Settings Rat S) : Prop :=
  ∃ t saved reloaded, s.SavedAs state write t saved reloaded ∧
    (Stopwatch.CanExpire reloaded.timeout ↔ Stopwatch.CanExpire s.timeout)

theorem Settings.keepsLimit_iff {S : Type} {state : Json Rat → Check S} {write : S → Json Rat}
    {s : Settings Rat S} (hread : ReadBack state write) {j : Json Rat}
    (hcheck : Settings.check state j = .ok s) :
    s.KeepsLimit state write ↔ ∀ limit ∈ s.timeout, limit = 0 ∨ 1 / (2 * 10 ^ 9) < limit := by
  have haccepted := Settings.accepted_of_check hcheck
  constructor
  · rintro ⟨t, saved, reloaded, hsaved, hkept⟩
    exact (hsaved.limited_iff hread haccepted).mp hkept
  · intro hlong
    have hsaved := Settings.savedAs hread haccepted
    exact ⟨_, _, _, hsaved, (hsaved.limited_iff hread haccepted).mpr hlong⟩

/-- **When saving keeps a limit.** Over exact numbers the settings of either domain, if they
are accepted, are saved and read back with a limit exactly if they had one, as long as they
have none, or zero, which means none, or more than half a nanosecond; and not otherwise. -/
theorem limited_after_saving (j : Json Rat) :
    (∀ s, Settings.check Check.number j = .ok s → (s.KeepsLimit Check.number .real ↔
      ∀ limit ∈ s.timeout, limit = 0 ∨ 1 / (2 * 10 ^ 9) < limit)) ∧
    ∀ s, Settings.check Tapping.State.check j = .ok s →
      (s.KeepsLimit Tapping.State.check Tapping.State.toJson ↔
        ∀ limit ∈ s.timeout, limit = 0 ∨ 1 / (2 * 10 ^ 9) < limit) :=
  ⟨fun _ => Settings.keepsLimit_iff readBack_number,
    fun _ => Settings.keepsLimit_iff Tapping.State.readBack⟩

/-- A limit of one nanosecond is kept. -/
theorem limited_after_saving_sample :
    Settings.check Check.number (limitedTo (1 / 10 ^ 9 : Rat)) =
      .ok (limitedSettings (1 / 10 ^ 9)) ∧
    Stopwatch.CanExpire (limitedSettings (1 / 10 ^ 9 : Rat)).timeout ∧
    (limitedSettings (1 / 10 ^ 9)).KeepsLimit Check.number .real := by
  have hcheck := check_limitedTo_rat (1 / 10 ^ 9) (by norm_num)
  refine ⟨hcheck, Stopwatch.canExpire_iff.mpr ⟨_, rfl, by norm_num⟩,
    ((limited_after_saving _).1 _ hcheck).mpr ?_⟩
  intro limit hlimit
  cases hlimit
  norm_num

/-- A limit of a tenth of a nanosecond is gone once it has been saved. -/
theorem limit_lost :
    ¬∀ (j : Json Rat) (s : Settings Rat Rat), Settings.check Check.number j = .ok s →
      s.KeepsLimit Check.number .real := by
  intro hall
  have hcheck := check_limitedTo_rat (1 / 10 ^ 10) (by norm_num)
  rcases (Settings.keepsLimit_iff readBack_number hcheck).mp (hall _ _ hcheck) _ rfl with
    hzero | hlt
  · norm_num at hzero
  · norm_num at hlt

end ModeSchedule
