/-
ModeSchedule.Proofs.Canonical — appending keeps an encoding the shortest one.

A schedule to which steps are appended is canonical, or it is the marker of a
seed, which the first appended step replaces. `Ready` covers both: all that is
asked of a marker at the end is that the rest is canonical.

* `Ready.append`: one more step makes a canonical schedule of either.
* `begins_of_steps`: a canonical schedule whose steps begin another one's has modes that do, and no
  entry that lasts longer.
* `active?_append`: the appended mode is the one that is running.
* `Switching.candidates_cases`: a schedule may go on with the modes that the switching
  allows after it, or the switching is restricted and its last mode is out of range.
* `Switching.exists_candidates`: a schedule with entries, all of them in range,
  may go on under any switching, and stays in range.
-/
import ModeSchedule.Proofs.Steps
import ModeSchedule.Search.Algorithm

namespace ModeSchedule

namespace Schedule

variable {mode count total : Nat} {s : Schedule}

/-! ## Counting steps -/

theorem totalSteps_eq_length (s : Schedule) : s.totalSteps = s.steps.length := by
  induction s with
  | nil => rfl
  | cons e s ih => rw [totalSteps, steps_cons, List.length_append, List.length_replicate, ih]

@[simp] theorem totalSteps_append (mode : Nat) (s : Schedule) :
    (append mode s).totalSteps = s.totalSteps + 1 := by
  rw [totalSteps_eq_length, totalSteps_eq_length, steps_append, List.length_append,
    List.length_singleton]

/-! ## Neighbours -/

theorem changing_cons {e : Entry} :
    Changing (e :: s) ↔ (∀ m ∈ s.head?.map Entry.mode, e.mode ≠ m) ∧ Changing s := by
  cases s with
  | nil => simp [Changing]
  | cons f s => simp [Changing]

theorem canonical_cons {e : Entry} : Canonical (e :: s) ↔
    0 < e.times ∧ (∀ m ∈ s.head?.map Entry.mode, e.mode ≠ m) ∧ Canonical s := by
  unfold Canonical
  rw [changing_cons, List.forall_mem_cons]
  tauto

/-- A step at the end does not change the mode at the front. -/
theorem head?_push (mode : Nat) (f : Entry) (s : Schedule) :
    ((push mode (f :: s)).head?.map Entry.mode) = some f.mode := by
  cases s with
  | nil =>
    unfold push
    split
    · next h => simp [h]
    · simp
  | cons g s => simp [push]

theorem canonical_push (h : s.Canonical) : (push mode s).Canonical := by
  induction s using push.induct mode with
  | case1 => simp [push, Canonical, Changing]
  | case2 e he => simp [push, he, Canonical, Changing]
  | case3 e he =>
    have hpos : 0 < e.times := h.1 e List.mem_cons_self
    simp [push, he, Canonical, Changing, hpos]
  | case4 e f s ih =>
    obtain ⟨hpos, hhead, hrest⟩ := canonical_cons.mp h
    rw [push, canonical_cons, head?_push]
    exact ⟨hpos, by simpa using hhead, ih hrest⟩

theorem dropMarker_of_canonical (h : s.Canonical) : s.dropMarker = s := by
  induction s using dropMarker.induct with
  | case1 => rfl
  | case2 e he =>
    have hpos : 0 < e.times := h.1 e List.mem_cons_self
    omega
  | case3 e he => simp [dropMarker, he]
  | case4 e f s ih => rw [dropMarker, ih (canonical_cons.mp h).2.2]

/-- One more step keeps a canonical schedule canonical. -/
theorem canonical_append (mode : Nat) (h : s.Canonical) : (append mode s).Canonical := by
  rw [append, dropMarker_of_canonical h]
  exact canonical_push h

/-! ## Beginnings -/

theorem changing_iff : Changing s ↔ (s.map Entry.mode).IsChain (· ≠ ·) := by
  induction s with
  | nil => simp [Changing]
  | cons e s ih => rw [changing_cons, List.map_cons, List.isChain_cons, List.head?_map, ih]

/-- The first step of a canonical schedule is of its first mode. -/
theorem head?_steps (h : s.Canonical) : s.steps.head? = s.head?.map Entry.mode := by
  cases s with
  | nil => rfl
  | cons e s =>
    have hpos : e.times ≠ 0 := (h.1 e List.mem_cons_self).ne'
    rw [steps_cons, List.head?_append, List.head?_replicate, if_neg hpos]
    rfl

theorem head?_of_prefix {α : Type} {xs ys : List α} {x : α} (h : xs <+: ys)
    (hx : xs.head? = some x) : ys.head? = some x := by
  obtain ⟨rest, rfl⟩ := h
  rw [List.head?_append, hx, Option.some_or]

/-- A canonical schedule whose steps begin another one's has modes that begin the other's, and none
of its entries lasts longer than one of the other's. -/
theorem begins_of_steps {s t : Schedule} (hs : s.Canonical) (ht : t.Canonical)
    (h : s.steps <+: t.steps) :
    s.map Entry.mode <+: t.map Entry.mode ∧
      ∀ e ∈ s, ∃ f ∈ t, e.mode = f.mode ∧ e.times ≤ f.times := by
  induction s generalizing t with
  | nil => simp
  | cons e s ih =>
    obtain ⟨hepos, hehead, hs'⟩ := canonical_cons.mp hs
    have hfirst : t.head?.map Entry.mode = some e.mode := by
      rw [← head?_steps ht]
      exact head?_of_prefix h (head?_steps hs)
    cases t with
    | nil => cases hfirst
    | cons f t =>
      obtain ⟨hfpos, hfhead, ht'⟩ := canonical_cons.mp ht
      have hmode : f.mode = e.mode := Option.some.inj hfirst
      rw [steps_cons, steps_cons, hmode] at h
      rcases lt_trichotomy e.times f.times with hlt | heq | hgt
      · -- The first entry stops short, so the next step would be of its mode again.
        obtain ⟨d, hd⟩ := Nat.exists_eq_add_of_lt hlt
        rw [hd, Nat.add_assoc, List.replicate_add, List.append_assoc,
          List.prefix_append_right_inj] at h
        cases s with
        | nil =>
          refine ⟨by simp [hmode], fun g hg => ⟨f, List.mem_cons_self, ?_⟩⟩
          obtain rfl := List.mem_singleton.mp hg
          exact ⟨hmode.symm, hlt.le⟩
        | cons g s =>
          have hnext := head?_of_prefix h (head?_steps hs')
          rw [List.replicate_succ, List.cons_append, List.head?_cons] at hnext
          exact absurd (Option.some.inj hnext) (hehead g.mode rfl)
      · rw [heq, List.prefix_append_right_inj] at h
        obtain ⟨hmodes, hentries⟩ := ih hs' ht' h
        refine ⟨by simpa [hmode] using hmodes, fun g hg => ?_⟩
        rcases List.mem_cons.mp hg with rfl | hg
        · exact ⟨f, List.mem_cons_self, hmode.symm, heq.le⟩
        · obtain ⟨f', hf', hshorter⟩ := hentries g hg
          exact ⟨f', List.mem_cons_of_mem f hf', hshorter⟩
      · -- The first entry goes on, so the other one's next mode would be the same.
        obtain ⟨d, hd⟩ := Nat.exists_eq_add_of_lt hgt
        rw [hd, Nat.add_assoc, List.replicate_add, List.append_assoc,
          List.prefix_append_right_inj] at h
        have hnext : (Schedule.steps t).head? = some e.mode :=
          head?_of_prefix h (by rw [List.replicate_succ]; rfl)
        rw [head?_steps ht'] at hnext
        exact absurd hmode (hfhead e.mode hnext)

/-! ## Schedules to append to -/

/-- A schedule of a number of steps that is canonical up to a marker at the end,
with modes in range, and not empty. -/
structure Ready (count total : Nat) (s : Schedule) : Prop where
  nonempty : s ≠ []
  canonical : s.dropMarker.Canonical
  inRange : s.InRange count
  total : s.totalSteps = total

theorem ready_marker (h : mode < count) : Ready count 0 [⟨mode, 0⟩] where
  nonempty := List.cons_ne_nil _ _
  canonical := by simp [dropMarker, Canonical, Changing]
  inRange := by simpa [InRange] using h
  total := rfl

theorem append_ne_nil (mode : Nat) (s : Schedule) : append mode s ≠ [] := by
  intro h
  have hsteps := steps_append mode s
  rw [h] at hsteps
  simp at hsteps

/-- One more step makes a canonical schedule. -/
theorem Ready.append (h : Ready count total s) (hm : mode < count) :
    (append mode s).Canonical ∧ Ready count (total + 1) (append mode s) := by
  have hcanonical : (Schedule.append mode s).Canonical := canonical_push h.canonical
  refine ⟨hcanonical, append_ne_nil mode s, ?_, inRange_append hm h.inRange, ?_⟩
  · rwa [dropMarker_of_canonical hcanonical]
  · rw [totalSteps_append, h.total]

/-- A canonical schedule of some steps, but no more than a bound, with modes in
range. -/
structure Fits (count bound : Nat) (s : Schedule) : Prop where
  canonical : s.Canonical
  inRange : s.InRange count
  pos : 1 ≤ s.totalSteps
  within : s.totalSteps ≤ bound

theorem Fits.mono {bound bound' : Nat} (h : Fits count bound s) (hle : bound ≤ bound') :
    Fits count bound' s where
  canonical := h.canonical
  inRange := h.inRange
  pos := h.pos
  within := h.within.trans hle

/-- A number of steps of one mode. -/
theorem Ready.appendTimes (h : Ready count total s) (hm : mode < count) {n : Nat} (hn : 0 < n) :
    ((Schedule.append mode)^[n] s).Canonical ∧
      Ready count (total + n) ((Schedule.append mode)^[n] s) := by
  induction n, hn using Nat.le_induction with
  | base => exact h.append hm
  | succ n hn ih =>
    rw [Function.iterate_succ_apply', ← Nat.add_assoc]
    exact ih.2.append hm

/-! ## The running mode -/

theorem active?_cons (e f : Entry) (s : Schedule) : active? (e :: f :: s) = active? (f :: s) := by
  simp [active?]

theorem active?_push (mode : Nat) (s : Schedule) : (push mode s).active? = some mode := by
  induction s using push.induct mode with
  | case1 => rfl
  | case2 e he => simp [push, he, active?]
  | case3 e he => simp [push, he, active?]
  | case4 e f s ih =>
    obtain ⟨g, rest, hrest⟩ : ∃ g rest, push mode (f :: s) = g :: rest := by
      refine List.exists_cons_of_ne_nil fun hnil => ?_
      rw [hnil] at ih
      cases ih
    rw [push, hrest, active?_cons, ← hrest, ih]

/-- The appended mode is the one that is running. -/
@[simp] theorem active?_append (mode : Nat) (s : Schedule) :
    (append mode s).active? = some mode :=
  active?_push mode s.dropMarker

theorem exists_active (hne : s ≠ []) (h : s.InRange count) :
    ∃ m, s.active? = some m ∧ m < count := by
  have hlast := List.getLast?_eq_some_getLast hne
  exact ⟨(s.getLast hne).mode, by rw [active?, hlast, Option.map_some], h _ (List.getLast_mem hne)⟩

end Schedule

/-! ## Modes to go on with -/

namespace Switching

/-- The mode may follow the schedule. -/
def allows (switching : Switching) (s : Schedule) (i : Nat) : Bool :=
  match switching with
  | .free => true
  | .increasing => s.active?.any fun active => decide (active ≤ i)
  | .none => s.active? == some i

variable {switching : Switching} {count : Nat} {s : Schedule}

/-- A list of modes that are allowed, each once and in increasing order. -/
theorem eq_filter_range {js : List Nat} {p : Nat → Bool} (hjs : js.Pairwise (· < ·))
    (hmem : ∀ i, i ∈ js ↔ i < count ∧ p i = true) : js = (List.range count).filter p := by
  refine hjs.eq_of_mem_iff (List.pairwise_lt_range.filter p) fun i => ?_
  rw [hmem, List.mem_filter, List.mem_range]

theorem candidates_free (count : Nat) (s : Schedule) :
    Switching.free.candidates count s =
      .ok ((List.range count).filter (Switching.free.allows s)) := by
  have hall : (List.range count).filter (Switching.free.allows s) = List.range count :=
    List.filter_eq_self.mpr fun _ _ => rfl
  rw [hall]
  rfl

/-- A schedule whose last mode is in range may go on with all modes that are allowed. -/
theorem candidates_of_active {active : Nat} (hactive : s.active? = some active)
    (hrange : active < count) :
    switching.candidates count s = .ok ((List.range count).filter (switching.allows s)) := by
  have hnot : ¬count ≤ active := not_le.mpr hrange
  cases switching with
  | free => exact candidates_free count s
  | increasing =>
    simp only [candidates, hactive, hnot, if_false, if_true, Except.ok.injEq]
    refine eq_filter_range List.pairwise_lt_range' fun i => ?_
    simp only [List.mem_range'_1, allows, hactive, Option.any_some, decide_eq_true_eq]
    omega
  | none =>
    simp only [candidates, hactive, hnot, if_false, reduceCtorEq, Except.ok.injEq]
    refine eq_filter_range (List.pairwise_singleton _ _) fun i => ?_
    simp only [List.mem_singleton, allows, hactive, beq_iff_eq, Option.some_inj]
    omega

/-- Restricted switching refuses a schedule that has no last mode in range. -/
theorem candidates_of_no_active (hrestricted : switching ≠ .free)
    (h : ∀ i, s.active? = some i → count ≤ i) :
    ∃ cause, switching.candidates count s = .error cause ∧ cause.kind = .search := by
  cases hactive : s.active? with
  | none =>
    refine ⟨.noActiveMode switching, ?_, rfl⟩
    cases switching with
    | free => exact absurd rfl hrestricted
    | increasing => simp only [candidates, hactive]
    | none => simp only [candidates, hactive]
  | some active =>
    have hrange := h active hactive
    refine ⟨.unknownActiveMode active count, ?_, rfl⟩
    cases switching with
    | free => exact absurd rfl hrestricted
    | increasing => simp only [candidates, hactive, hrange, if_true]
    | none => simp only [candidates, hactive, hrange, if_true]

/-- A candidate may go on with the modes that are allowed, or the switching is restricted and
its schedule has no last mode, or one that is out of range. -/
theorem candidates_cases (switching : Switching) (count : Nat) (s : Schedule) :
    (switching.candidates count s = .ok ((List.range count).filter (switching.allows s)) ∧
        (switching = .free ∨ ∃ i < count, s.active? = some i)) ∨
      ∃ cause, switching.candidates count s = .error cause ∧ cause.kind = .search ∧
        switching ≠ .free ∧ ∀ i, s.active? = some i → count ≤ i := by
  by_cases hfree : switching = .free
  · subst hfree
    exact Or.inl ⟨candidates_free count s, Or.inl rfl⟩
  · by_cases hactive : ∃ i < count, s.active? = some i
    · obtain ⟨i, hi, hsome⟩ := hactive
      exact Or.inl ⟨candidates_of_active hsome hi, Or.inr ⟨i, hi, hsome⟩⟩
    · have hrange : ∀ i, s.active? = some i → count ≤ i :=
        fun i hi => not_lt.mp fun hlt => hactive ⟨i, hlt, hi⟩
      obtain ⟨cause, herror, hkind⟩ := candidates_of_no_active hfree hrange
      exact Or.inr ⟨cause, herror, hkind, hfree, hrange⟩

/-- A schedule with entries in range may go on with modes in range. -/
theorem exists_candidates (switching : Switching) (hne : s ≠ []) (h : s.InRange count) :
    ∃ js, switching.candidates count s = .ok js ∧ ∀ j ∈ js, j < count := by
  obtain ⟨active, hactive, hlt⟩ := Schedule.exists_active hne h
  refine ⟨_, candidates_of_active hactive hlt, fun j hj => ?_⟩
  exact List.mem_range.mp (List.mem_filter.mp hj).1

end Switching

end ModeSchedule
