/-
ModeSchedule.Proofs.Encoding — appending steps is run-length encoding.

Appending looks at the last entry only: it drops a marker, lengthens an entry of the appended
mode, and starts a new entry otherwise (`dropMarker_concat`, `push_concat`). Read backwards, a
canonical schedule with entries is another one with a step appended
(`Canonical.exists_append`). So to append the steps of a canonical schedule is to build it
(`ofSteps_steps`), and no other canonical schedule has the same steps (`canonical_unique`).

`appending_encodes` is the statement for the places to start from: no schedule, a marker, and a
schedule that is canonical already.
-/
import ModeSchedule.Proofs.Canonical

namespace ModeSchedule

namespace Schedule

variable {p q s : Schedule} {e : Entry}

/-- Append steps one by one. -/
def appendAll (ms : List Nat) (s : Schedule) : Schedule :=
  ms.foldl (fun s m => append m s) s

/-! ## The last entry -/

theorem exists_cons_of_concat (p : Schedule) (e : Entry) : ∃ g rest, p ++ [e] = g :: rest :=
  List.exists_cons_of_ne_nil (List.append_ne_nil_of_right_ne_nil p (List.cons_ne_nil e []))

theorem push_concat (mode : Nat) (p : Schedule) (e : Entry) :
    push mode (p ++ [e]) =
      if e.mode = mode then p ++ [⟨mode, e.times + 1⟩] else p ++ [e, ⟨mode, 1⟩] := by
  induction p with
  | nil => rfl
  | cons f p ih =>
    obtain ⟨g, rest, hrest⟩ := exists_cons_of_concat p e
    rw [List.cons_append, hrest, push, ← hrest, ih]
    split <;> rfl

theorem dropMarker_concat (p : Schedule) (e : Entry) :
    dropMarker (p ++ [e]) = if e.times = 0 then p else p ++ [e] := by
  induction p with
  | nil => rfl
  | cons f p ih =>
    obtain ⟨g, rest, hrest⟩ := exists_cons_of_concat p e
    rw [List.cons_append, hrest, dropMarker, ← hrest, ih]
    split <;> rfl

theorem canonical_nil : Canonical [] := ⟨by simp, trivial⟩

theorem canonical_concat :
    Canonical (p ++ [e]) ↔ p.Canonical ∧ 0 < e.times ∧ p.active? ≠ some e.mode := by
  have hentries : (∀ f ∈ p ++ [e], 0 < f.times) ↔ (∀ f ∈ p, 0 < f.times) ∧ 0 < e.times := by
    simp [or_imp, forall_and]
  have hchanging : Changing (p ++ [e]) ↔ Changing p ∧ p.active? ≠ some e.mode := by
    rw [changing_iff, changing_iff, List.map_append, List.isChain_append, List.getLast?_map,
      ← active?]
    cases p.active? <;> simp
  unfold Canonical
  rw [hentries, hchanging]
  tauto

/-- A step of another mode than the running one begins an entry. -/
theorem append_of_changes {mode : Nat} (hp : p.Canonical) (h : p.active? ≠ some mode) :
    append mode p = p ++ [⟨mode, 1⟩] := by
  rw [append, dropMarker_of_canonical hp]
  rcases List.eq_nil_or_concat' p with rfl | ⟨p, f, rfl⟩
  · rfl
  · have hmode : f.mode ≠ mode := by simpa [active?] using h
    rw [push_concat, if_neg hmode, List.append_assoc]
    rfl

/-- A step of the running mode lengthens the last entry. -/
theorem append_concat (h : Canonical (p ++ [e])) :
    append e.mode (p ++ [e]) = p ++ [⟨e.mode, e.times + 1⟩] := by
  rw [append, dropMarker_of_canonical h, push_concat, if_pos rfl]

/-- A canonical schedule with entries is a canonical one with one more step: its last entry is
of a single step, or was shorter by one. -/
theorem Canonical.exists_append (h : s.Canonical) (hne : s ≠ []) :
    ∃ mode p, Canonical p ∧ s = append mode p := by
  obtain ⟨p, ⟨mode, times⟩, rfl⟩ := (List.eq_nil_or_concat' s).resolve_left hne
  obtain ⟨hp, hpos, hchange⟩ := canonical_concat.mp h
  rcases Nat.lt_or_ge 1 times with hlong | hsingle
  · obtain ⟨n, rfl⟩ := Nat.exists_eq_add_of_lt hlong
    have hshorter : Canonical (p ++ [⟨mode, 1 + n⟩]) :=
      canonical_concat.mpr ⟨hp, Nat.add_pos_left Nat.one_pos n, hchange⟩
    exact ⟨mode, _, hshorter, (append_concat hshorter).symm⟩
  · obtain rfl : times = 1 := Nat.le_antisymm hsingle hpos
    exact ⟨mode, p, hp, (append_of_changes hp hchange).symm⟩

/-! ## Encodings -/

theorem ofSteps_concat (ms : List Nat) (m : Nat) :
    ofSteps (ms ++ [m]) = append m (ofSteps ms) := by
  rw [ofSteps, ofSteps, List.foldl_append, List.foldl_cons, List.foldl_nil]

theorem steps_ofSteps (ms : List Nat) : (ofSteps ms).steps = ms := by
  induction ms using List.reverseRecOn with
  | nil => rfl
  | append_singleton ms m ih => rw [ofSteps_concat, steps_append, ih]

theorem canonical_ofSteps (ms : List Nat) : (ofSteps ms).Canonical := by
  induction ms using List.reverseRecOn with
  | nil => exact canonical_nil
  | append_singleton ms m ih =>
    rw [ofSteps_concat]
    exact canonical_append m ih

/-- To append the steps of a canonical schedule is to build it. -/
theorem ofSteps_steps (h : q.Canonical) : ofSteps q.steps = q := by
  -- Induction on the steps from the last one: it is the one that was appended last.
  generalize hms : q.steps = ms
  induction ms using List.reverseRecOn generalizing q with
  | nil =>
    rcases eq_or_ne q [] with rfl | hne
    · rfl
    · obtain ⟨mode, p, -, rfl⟩ := h.exists_append hne
      simp at hms
  | append_singleton ms m ih =>
    have hne : q ≠ [] := by
      rintro rfl
      simp at hms
    obtain ⟨mode, p, hp, rfl⟩ := h.exists_append hne
    rw [steps_append] at hms
    obtain ⟨hsteps, hmode⟩ := List.append_inj' hms rfl
    rw [ofSteps_concat, ih hp hsteps, List.singleton_inj.mp hmode]

/-- A list of steps has one canonical schedule. -/
theorem canonical_unique (hp : p.Canonical) (hq : q.Canonical) (h : p.steps = q.steps) :
    p = q := by
  rw [← ofSteps_steps hp, h, ofSteps_steps hq]

/-- What is appended to a canonical schedule is encoded together with its steps. -/
theorem appendAll_eq (ms : List Nat) (h : q.Canonical) :
    appendAll ms q = ofSteps (q.steps ++ ms) := by
  calc appendAll ms q
      = appendAll ms (ofSteps q.steps) := by rw [ofSteps_steps h]
    _ = ofSteps (q.steps ++ ms) := by rw [appendAll, ofSteps, ofSteps, List.foldl_append]

/-- A marker makes no difference to what is appended behind it. -/
theorem appendAll_marker {ms : List Nat} (hms : ms ≠ []) (hp : p.Canonical) (active : Nat) :
    appendAll ms (p ++ [⟨active, 0⟩]) = appendAll ms p := by
  obtain ⟨m, rest, rfl⟩ := List.exists_cons_of_ne_nil hms
  have hfirst : append m (p ++ [⟨active, 0⟩]) = append m p := by
    rw [append, append, dropMarker_concat, if_pos rfl, dropMarker_of_canonical hp]
  rw [appendAll, appendAll, List.foldl_cons, List.foldl_cons, hfirst]

end Schedule

/-- **Appending steps is run-length encoding.** For every list of steps:

* Appended one by one to the empty schedule, they give the one schedule that is canonical and
  has these steps.
* If there are any, they give the same when they are appended to a marker of any mode.
* Appended to a canonical schedule, they give the encoding of its steps followed by them.

And the steps of a canonical schedule, appended to the empty one, give it back. -/
theorem appending_encodes (ms : List Nat) :
    (∀ s : Schedule, s = Schedule.appendAll ms [] ↔ s.Canonical ∧ s.steps = ms) ∧
    (ms ≠ [] → ∀ active, Schedule.appendAll ms [⟨active, 0⟩] = Schedule.appendAll ms []) ∧
    (∀ s : Schedule, s.Canonical →
      Schedule.appendAll ms s = Schedule.appendAll (s.steps ++ ms) []) ∧
    ∀ s : Schedule, s.Canonical → Schedule.appendAll s.steps [] = s := by
  have hencoding : ∀ ms, Schedule.appendAll ms [] = Schedule.ofSteps ms := fun _ => rfl
  refine ⟨fun s => ?_, fun hms active => ?_, fun s hs => ?_, fun s hs => ?_⟩
  · rw [hencoding]
    constructor
    · rintro rfl
      exact ⟨Schedule.canonical_ofSteps ms, Schedule.steps_ofSteps ms⟩
    · rintro ⟨hs, hsteps⟩
      exact Schedule.canonical_unique hs (Schedule.canonical_ofSteps ms)
        (hsteps.trans (Schedule.steps_ofSteps ms).symm)
  · exact Schedule.appendAll_marker hms Schedule.canonical_nil active
  · rw [hencoding, Schedule.appendAll_eq ms hs]
  · rw [hencoding, Schedule.ofSteps_steps hs]

/-- The marker is of the mode that comes first, and the schedule ends with that mode. -/
theorem appending_encodes_sample :
    Schedule.appendAll [1, 1, 0, 1] [⟨1, 0⟩] = [⟨1, 2⟩, ⟨0, 1⟩, ⟨1, 1⟩] ∧
    Schedule.appendAll [1, 1, 0, 1] [⟨0, 1⟩, ⟨1, 2⟩] = [⟨0, 1⟩, ⟨1, 4⟩, ⟨0, 1⟩, ⟨1, 1⟩] := by
  obtain ⟨-, hmarker, hseam, -⟩ := appending_encodes [1, 1, 0, 1]
  have hcanonical : Schedule.Canonical [⟨0, 1⟩, ⟨1, 2⟩] := by
    simp [Schedule.Canonical, Schedule.Changing]
  constructor
  · rw [hmarker (by simp) 1]
    decide
  · rw [hseam _ hcanonical]
    decide

end ModeSchedule
