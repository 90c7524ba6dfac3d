/-
ModeSchedule.Proofs.Archive.Malformed — errors of loading that do not count as malformed.

The checks of records are never abandoned (`Check.Concludes`), so whatever they refuse
counts as malformed, and so does a missing member or one of the wrong kind. An error
escapes from a result only if it escapes from a candidate that reading gets to
(`Decode.outcome_escapes`), and from a candidate only through its state
(`Decode.solution_escapes`): an integer that no double holds, be it inside lists, or a state
that is too short to be measured. `escaping_errors` says exactly when each of them does.
-/
import ModeSchedule.Proofs.Archive.RoundTrip

namespace ModeSchedule

variable {K : Type} [Scalar K]

/-! ## Checks that are not abandoned -/

namespace Check

variable {α β : Type} {name : String} {check : Json K → Check α} {j : Json K}

/-- The check says what is wrong, if anything is. -/
def Concludes (c : Check α) : Prop := ∀ cause, c ≠ .error (.abandoned cause)

theorem concludes_ok (x : α) : Concludes (.ok x) := nofun

theorem concludes_fail (fault : Fault) : Concludes (fail fault : Check α) := by
  simp [Concludes, fail]

theorem Concludes.map {c : Check α} (h : Concludes c) (f : α → β) : Concludes (c.map f) := by
  cases c with
  | ok x => exact concludes_ok (f x)
  | error e => simpa [Concludes, Except.map] using h

theorem Concludes.under {c : Check α} (h : Concludes c) (step : String) :
    Concludes (under step c) := by
  unfold Check.under
  split
  · simp [Concludes]
  · exact h

theorem Concludes.both {a : Check α} {b : Check β} (ha : Concludes a) (hb : Concludes b) :
    Concludes (both a b) := by
  unfold Check.both
  split
  · exact concludes_ok _
  · next cause => exact absurd rfl (ha cause)
  · next cause _ => exact absurd rfl (hb cause)
  · simp [Concludes]
  · simpa [Concludes] using ha
  · simpa [Concludes] using hb

theorem Concludes.ensure {c : Check α} (h : Concludes c) (condition : α → Bool) (fault : Fault) :
    Concludes (ensure condition fault c) := by
  unfold Check.ensure
  split
  · split
    · exact concludes_ok _
    · exact concludes_fail fault
  · exact h

theorem concludes_integer (j : Json K) : Concludes (integer j) := by
  cases j with
  | int n => exact concludes_ok n
  | bool b => exact concludes_ok _
  | real x =>
    simp only [integer]
    split
    · exact concludes_fail _
    · split
      · exact concludes_ok _
      · exact concludes_fail _
  | str s =>
    simp only [integer]
    split
    · exact concludes_ok _
    · exact concludes_fail _
    · exact concludes_fail _
  | _ => exact concludes_fail _

theorem concludes_number (j : Json K) : Concludes (number j) := by
  cases j with
  | bool b => exact concludes_ok _
  | real x => exact concludes_ok x
  | int n =>
    simp only [number]
    split
    · exact concludes_ok _
    · exact concludes_fail _
  | str s =>
    simp only [number]
    split
    · exact concludes_ok _
    · exact concludes_fail _
  | _ => exact concludes_fail _

theorem concludes_natural (j : Json K) : Concludes (natural j) :=
  ((concludes_integer j).ensure _ _).map _

theorem concludes_nonnegative (j : Json K) : Concludes (nonnegative j) :=
  (concludes_number j).ensure _ _

omit [Scalar K] in
theorem concludes_required (h : ∀ v, Concludes (check v)) : Concludes (required name check j) := by
  refine Concludes.under ?_ name
  split
  · exact h _
  · exact concludes_fail _

omit [Scalar K] in
theorem concludes_optional {default : α} (h : ∀ v, Concludes (check v)) :
    Concludes (optional name default check j) := by
  refine Concludes.under ?_ name
  split
  · exact h _
  · exact concludes_ok _

omit [Scalar K] in
theorem concludes_object (h : ∀ v, Concludes (check v)) : Concludes (object check j) := by
  unfold object
  split
  · exact h _
  · exact concludes_fail _

end Check

open Check

theorem Entry.check_concludes (j : Json K) : Concludes (Entry.check j) :=
  concludes_object fun _ =>
    ((concludes_required concludes_natural).both (concludes_optional concludes_natural)).map _

theorem Usage.check_concludes (j : Json K) : Concludes (Usage.check j) :=
  concludes_object fun _ =>
    ((concludes_optional concludes_number).both (concludes_optional concludes_number)).map _

theorem Front.checkNumbers_concludes {S R : Type} (solutions : List (Solution K S R)) (j : Json K) :
    Concludes (Front.checkNumbers (.ok solutions) j) :=
  ((concludes_ok _).both
    ((concludes_optional concludes_nonnegative).both
      ((concludes_optional concludes_natural).both
        ((concludes_optional concludes_natural).both
          (concludes_optional concludes_nonnegative))))).map _

/-! ## Errors that escape -/

/-- The error is the one that is found, and it does not count as malformed. -/
def Escapes {α : Type} (x : Except DecodeError α) (e : DecodeError) : Prop :=
  x = .error e ∧ e.malformed = false

namespace Escapes

variable {α β : Type} {e : DecodeError}

theorem not_ok (a : α) : ¬Escapes (.ok a : Except DecodeError α) e := nofun

theorem error {e' : DecodeError} :
    Escapes (.error e' : Except DecodeError α) e ↔ e = e' ∧ e'.malformed = false := by
  constructor
  · rintro ⟨herror, hmalformed⟩
    obtain rfl := Except.error.inj herror
    exact ⟨rfl, hmalformed⟩
  · rintro ⟨rfl, hmalformed⟩
    exact ⟨rfl, hmalformed⟩

/-- What a check refuses counts as malformed. -/
theorem not_check {c : Check α} (h : Concludes c) : ¬Escapes (c.mapError .ofRejection) e := by
  rintro ⟨herror, hmalformed⟩
  cases c with
  | ok x => cases herror
  | error rejection =>
    obtain rfl := Except.error.inj herror
    cases rejection with
    | failures fs => cases hmalformed
    | abandoned cause => exact h cause rfl

theorem bind {x : Except DecodeError α} {f : α → Except DecodeError β} :
    Escapes (x >>= f) e ↔ Escapes x e ∨ ∃ a, x = .ok a ∧ Escapes (f a) e := by
  cases x <;> simp [Escapes, Bind.bind, Except.bind]

theorem map {x : Except DecodeError α} {f : α → β} : Escapes (x.map f) e ↔ Escapes x e := by
  cases x <;> simp [Escapes, Except.map]

end Escapes

/-- Reading a list gets to a member: all members before it are granted. -/
def Granted.GetsTo {ε α β : Type} (read : α → Except ε β) (xs : List α) (x : α) : Prop :=
  ∃ before after, xs = before ++ x :: after ∧ ∀ y ∈ before, ∃ z, read y = .ok z

theorem Granted.getsTo_cons {ε α β : Type} {read : α → Except ε β} {x y : α} {xs : List α} :
    GetsTo read (x :: xs) y ↔ x = y ∨ (∃ z, read x = .ok z) ∧ GetsTo read xs y := by
  constructor
  · rintro ⟨before, after, hxs, hbefore⟩
    cases before with
    | nil => exact Or.inl (List.cons.inj hxs).1
    | cons w before =>
      obtain ⟨rfl, rfl⟩ := List.cons.inj hxs
      exact Or.inr ⟨hbefore x List.mem_cons_self, before, after, rfl,
        fun z hz => hbefore z (List.mem_cons_of_mem x hz)⟩
  · rintro (rfl | ⟨hx, before, after, rfl, hbefore⟩)
    · exact ⟨[], xs, rfl, nofun⟩
    · refine ⟨x :: before, after, rfl, fun z hz => ?_⟩
      rcases List.mem_cons.mp hz with rfl | hz
      · exact hx
      · exact hbefore z hz

/-- What reading gets to depends only on what it grants. -/
theorem Granted.getsTo_congr {ε ε' α β : Type} {read : α → Except ε β} {read' : α → Except ε' β}
    (h : ∀ x y, read x = .ok y ↔ read' x = .ok y) {xs : List α} {x : α} :
    GetsTo read xs x ↔ GetsTo read' xs x := by
  simp only [GetsTo, h]

/-- An error escapes from a list if it does from a member that reading gets to. -/
theorem Escapes.mapM {α β : Type} {e : DecodeError} {read : α → Except DecodeError β}
    {xs : List α} :
    Escapes (xs.mapM read) e ↔ ∃ x, Granted.GetsTo read xs x ∧ Escapes (read x) e := by
  induction xs with
  | nil => simp [Granted.GetsTo, Escapes, Pure.pure, Except.pure]
  | cons x xs ih =>
    simp only [List.mapM_cons, Escapes.bind, Granted.getsTo_cons, ih]
    constructor
    · rintro (hx | ⟨y, hy, ⟨z, hz, hescapes⟩ | ⟨_, -, hpure⟩⟩)
      · exact ⟨x, Or.inl rfl, hx⟩
      · exact ⟨z, Or.inr ⟨⟨y, hy⟩, hz⟩, hescapes⟩
      · exact absurd hpure (not_ok _)
    · rintro ⟨z, rfl | ⟨⟨y, hy⟩, hz⟩, hescapes⟩
      · exact Or.inl hescapes
      · exact Or.inr ⟨y, hy, Or.inl ⟨z, hz, hescapes⟩⟩

/-! ## Where an error escapes -/

namespace Decode

variable {S R : Type} {d : Decoder K S R} {j : Json K} {e : DecodeError}

omit [Scalar K] in
theorem not_escapes_member (name : String) (j : Json K) : ¬Escapes (member name j) e := by
  rintro ⟨herror, hmalformed⟩
  unfold member at herror
  split at herror
  · split at herror
    · cases herror
    · obtain rfl := Except.error.inj herror
      cases hmalformed
  · obtain rfl := Except.error.inj herror
    cases hmalformed

omit [Scalar K] in
theorem not_escapes_items (j : Json K) : ¬Escapes (items j) e := by
  rintro ⟨herror, hmalformed⟩
  cases j with
  | null | bool | int | real =>
    obtain rfl := Except.error.inj herror
    cases hmalformed
  | str | arr | obj => cases herror

theorem not_escapes_entry (j : Json K) : ¬Escapes (entry j) e :=
  Escapes.not_check (Entry.check_concludes j)

/-- The schedule of a saved candidate is read. -/
def Scheduled (j : Json K) : Prop :=
  ∃ v items schedule, member "sequence" j = .ok v ∧ Decode.items v = .ok items ∧
    items.mapM entry = .ok schedule

/-- An error escapes from a candidate only through its state, as it is read or, after its
resources have been, as it is measured. -/
theorem solution_escapes : Escapes (solution d j) e ↔
    Scheduled j ∧ ∃ v, member "state" j = .ok v ∧
      (Escapes (d.state v) e ∨ ∃ state, d.state v = .ok state ∧ ∃ w, member "resources" j = .ok w ∧
        (Escapes (d.resources w) e ∨
          ∃ resources, d.resources w = .ok resources ∧ Escapes (measured d state) e)) := by
  have hpure : ∀ s : Solution K S R, ¬Escapes (pure s) e := fun s => Escapes.not_ok s
  simp only [solution_eq, Escapes.bind, Escapes.mapM, not_escapes_member, not_escapes_items,
    not_escapes_entry, hpure, false_or, or_false, and_false, exists_false]
  constructor
  · rintro ⟨v, hv, items, hitems, schedule, hschedule, hescapes⟩
    exact ⟨⟨v, items, schedule, hv, hitems, hschedule⟩, hescapes⟩
  · rintro ⟨⟨v, items, schedule, hv, hitems, hschedule⟩, hescapes⟩
    exact ⟨v, hv, items, hitems, schedule, hschedule, hescapes⟩

/-- An error escapes from a front if it does from a candidate that reading gets to. -/
theorem front_escapes : Escapes (front d j) e ↔
    ∃ v, member "solutions" j = .ok v ∧ ∃ items, Decode.items v = .ok items ∧
      ∃ c, Granted.GetsTo (solution d) items c ∧ Escapes (solution d c) e := by
  simp only [front, Escapes.bind, Escapes.mapM, not_escapes_member, not_escapes_items, false_or,
    Escapes.not_check (Front.checkNumbers_concludes _ _), and_false, exists_false, or_false]

/-- Reading a result gets to a candidate: everything before it has been read. -/
def Reached (d : Decoder K S R) (j c : Json K) : Prop :=
  ∃ v fronts f w candidates, member "pareto_fronts" j = .ok v ∧ items v = .ok fronts ∧
    Granted.GetsTo (front d) fronts f ∧ member "solutions" f = .ok w ∧ items w = .ok candidates ∧
      Granted.GetsTo (solution d) candidates c

/-- An error escapes from a result if it does from a candidate that reading gets to. -/
theorem outcome_escapes :
    Escapes (outcome d j) e ↔ ∃ c, Reached d j c ∧ Escapes (solution d c) e := by
  simp only [outcome, Escapes.bind, Escapes.mapM, not_escapes_member, not_escapes_items, false_or,
    front_escapes]
  constructor
  · rintro ⟨v, hv, fronts, hfronts, f, hf, w, hw, candidates, hcandidates, c, hc, hescapes⟩
    exact ⟨c, ⟨v, fronts, f, w, candidates, hv, hfronts, hf, hw, hcandidates, hc⟩, hescapes⟩
  · rintro ⟨c, ⟨v, fronts, f, w, candidates, hv, hfronts, hf, hw, hcandidates, hc⟩, hescapes⟩
    exact ⟨v, hv, fronts, hfronts, f, hf, w, hw, candidates, hcandidates, c, hc, hescapes⟩

end Decode

/-! ## States -/

namespace Json

/-- An integer that no number of the type is near to. -/
def Oversized (j : Json K) : Prop := ∃ n, j = .int n ∧ (Scalar.ofInt? n : Option K) = none

/-- Going through the values inside lists, all numbers so far, leads to one that is too big. -/
def Overflows (j : Json K) : Prop := ∃ n, Granted.GetsTo plainNumber j.leaves n ∧ n.Oversized

theorem overflows_iff_oversized {j : Json K} (h : j.leaves = [j]) :
    j.Overflows ↔ j.Oversized := by
  have hnone : ∀ n, ¬Granted.GetsTo plainNumber ([] : List (Json K)) n := by
    simp [Granted.GetsTo]
  simp [Overflows, h, Granted.getsTo_cons, hnone]

/-- The items of a list; nothing else has any. -/
def components : Json K → List (Json K)
  | .arr items => items
  | _ => []

theorem toNumber_eq_size {j : Json K} : j.toNumber = .error .size ↔ j.Oversized := by
  cases j with
  | int n => cases hn : (Scalar.ofInt? n : Option K) <;> simp [toNumber, Oversized, hn]
  | str s =>
    simp only [toNumber, Oversized, reduceCtorEq, false_and, exists_false, iff_false]
    split <;> simp
  | _ => simp [toNumber, Oversized]

end Json

namespace Decode

variable {e : DecodeError}

/-- An error escapes from a number if that is too big. -/
theorem number_escapes {j : Json K} :
    Escapes (j.toNumber.mapError .ofUnreadable) e ↔ e = .overflow ∧ j.Oversized := by
  rw [← Json.toNumber_eq_size]
  cases j.toNumber with
  | ok x => simp [Escapes, Except.mapError]
  | error cause =>
    cases cause <;>
      simp [Escapes.error, Except.mapError, DecodeError.ofUnreadable, DecodeError.malformed]

section

variable {text : DecodeError} {t : Json K} {lone : Bool}

theorem savedNumber_escapes (htext : text.malformed = true) {j : Json K} :
    Escapes (StateFormat.savedNumber text j) e ↔ e = .overflow ∧ j.Oversized := by
  cases j with
  | str s => simp [StateFormat.savedNumber, Escapes.error, htext, Json.Oversized]
  | _ =>
    simp only [StateFormat.savedNumber]
    exact number_escapes

theorem savedNumber_eq_ok {j : Json K} {x : K} :
    StateFormat.savedNumber text j = .ok x ↔ j.plainNumber = .ok x := by
  cases j with
  | str s => simp [StateFormat.savedNumber, Json.plainNumber]
  | _ =>
    simp only [StateFormat.savedNumber, Json.plainNumber]
    exact Granted.mapError

theorem savedNumbers_escape (htext : text.malformed = true) {j : Json K} :
    Escapes (j.leaves.mapM (StateFormat.savedNumber text)) e ↔ e = .overflow ∧ j.Overflows := by
  simp only [Escapes.mapM, savedNumber_escapes htext,
    Granted.getsTo_congr fun _ _ => savedNumber_eq_ok]
  constructor
  · rintro ⟨n, hn, he, hsize⟩
    exact ⟨he, n, hn, hsize⟩
  · rintro ⟨he, n, hn, hsize⟩
    exact ⟨n, hn, he, hsize⟩

omit [Scalar K] in
theorem not_escapes_loneNumber (xs : List K) : ¬Escapes (StateFormat.loneNumber lone xs) e := by
  fun_cases StateFormat.loneNumber lone xs <;>
    simp [Escapes.error, Escapes.not_ok, DecodeError.malformed]

/-- An error escapes from a state with a third component if going through the numbers of that
leads to one that is too big. -/
theorem savedDepth_escapes_component {items rest : List (Json K)} {x : Json K}
    (hitems : items.drop 2 = x :: rest) :
    Escapes (StateFormat.savedDepth lone (.arr items)) e ↔ e = .overflow ∧ x.Overflows := by
  cases x with
  | arr parts =>
    simp only [StateFormat.savedDepth, hitems, Escapes.bind, not_escapes_loneNumber, and_false,
      exists_false, or_false]
    exact savedNumbers_escape (by split <;> rfl)
  | _ =>
    simp only [StateFormat.savedDepth, hitems]
    rw [savedNumber_escapes rfl, Json.overflows_iff_oversized rfl]

/-- An error escapes from a state that is measured if it has no third component, or one
whose numbers lead to one that is too big. -/
theorem savedDepth_escapes : Escapes (StateFormat.savedDepth lone t) e ↔
    (e = .shortState ∧ t.components.length < 3) ∨
      (e = .overflow ∧ ∃ x, t.components[2]? = some x ∧ x.Overflows) := by
  have hget : t.components[2]? = (t.components.drop 2).head? := by simp [List.head?_drop]
  cases hdrop : t.components.drop 2 with
  | nil =>
    have hshort : t.components.length < 3 := by
      have := List.drop_eq_nil_iff.mp hdrop
      omega
    have herror : StateFormat.savedDepth lone t = .error .shortState := by
      cases t with
      | arr items => simp only [StateFormat.savedDepth, show items.drop 2 = [] from hdrop]
      | _ => rfl
    simp [herror, Escapes.error, DecodeError.malformed, hget, hdrop, hshort]
  | cons x rest =>
    have hlong : ¬t.components.length < 3 := by
      have := congrArg List.length hdrop
      simp only [List.length_drop, List.length_cons] at this
      omega
    cases t with
    | arr items =>
      have hitems : items.drop 2 = x :: rest := hdrop
      rw [savedDepth_escapes_component hitems, hget, hdrop]
      simp [hlong]
    | _ => cases hdrop

example : (StateFormat.savedDepth true (.arr [.arr [.int 1], .arr [.int 2],
    .arr [.int (10 ^ 400)]]) : Except DecodeError Float).map (fun _ => ()) = .error .overflow := by
  decide +kernel

end

variable {j : Json K}

theorem rate_escapes {settings : Option (Settings K K)} :
    Escapes (solution (rate settings) j) e ↔
      e = .overflow ∧ Scheduled j ∧ ∃ v, member "state" j = .ok v ∧ v.Oversized := by
  have hmeasured : ∀ x, ¬Escapes (measured (rate settings) x) e := by
    intro x
    cases settings <;> exact Escapes.not_ok _
  have hresources : ∀ w, ¬Escapes ((rate settings).resources w) e :=
    fun w => Escapes.not_check (Usage.check_concludes w)
  have hstate : ∀ v, Escapes ((rate settings).state v) e ↔ e = .overflow ∧ v.Oversized :=
    fun v => number_escapes
  simp only [solution_escapes, hmeasured, hresources, hstate, and_false, exists_false, or_false]
  constructor
  · rintro ⟨hscheduled, v, hv, he, hsize⟩
    exact ⟨he, hscheduled, v, hv, hsize⟩
  · rintro ⟨he, hscheduled, v, hv, hsize⟩
    exact ⟨hscheduled, v, hv, he, hsize⟩

/-- How results of the tapping machine are read, where a lone number in lists may count. -/
abbrev tapping (lone : Bool) (settings : Option (Settings Float (Tapping.State Float))) :
    Decoder Float (Json Float) (Usage Float) :=
  (StateFormat.tappingWith lone).decoder settings

variable {lone : Bool} {settings : Option (Settings Float (Tapping.State Float))}

theorem tapping_state (v t : Json Float) :
    (tapping lone settings).state v = .ok t ↔ v.uniform? = some t := by
  show v.uniform?.elim (Except.error DecodeError.badValue) Except.ok = .ok t ↔ _
  cases v.uniform? <;> simp

theorem tapping_state_malformed (v : Json Float) :
    ¬Escapes ((tapping lone settings).state v) e := by
  show ¬Escapes (v.uniform?.elim (Except.error DecodeError.badValue) Except.ok) e
  cases v.uniform? with
  | none => exact fun h => absurd (Escapes.error.mp h).2 (by decide)
  | some t => exact Escapes.not_ok t

/-- Without settings nothing is measured. -/
theorem tapping_measured_escapes (t : Json Float) :
    Escapes (measured (tapping lone settings) t) e ↔
      settings.isSome = true ∧ Escapes (StateFormat.savedDepth lone t) e := by
  cases settings with
  | none => simp [measured, StateFormat.decoder, Escapes]
  | some q =>
    have hmap : measured (tapping lone (some q)) t =
        (StateFormat.savedDepth lone t >>= fun depth => pure (Tapping.remaining q depth)).map
          Scalar.bounded? := rfl
    rw [hmap, Escapes.map, Escapes.bind]
    simp [Escapes, pure, Except.pure]

theorem tapping_escapes {j : Json Float} : Escapes (solution (tapping lone settings) j) e ↔
    settings.isSome = true ∧ Scheduled j ∧
      ∃ v w, member "state" j = .ok v ∧ member "resources" j = .ok w ∧
        (∃ u, Usage.check w = .ok u) ∧ ∃ t, v.uniform? = some t ∧
          ((e = .shortState ∧ t.components.length < 3) ∨
            (e = .overflow ∧ ∃ x, t.components[2]? = some x ∧ x.Overflows)) := by
  have hresources : ∀ w, ¬Escapes ((tapping lone settings).resources w) e :=
    fun w => Escapes.not_check (Usage.check_concludes w)
  have husage : ∀ w u, (tapping lone settings).resources w = .ok u ↔ Usage.check w = .ok u :=
    fun w u => Granted.mapError
  simp only [solution_escapes, tapping_state, tapping_state_malformed, hresources, husage,
    tapping_measured_escapes, savedDepth_escapes, false_or]
  constructor
  · rintro ⟨hscheduled, v, hv, t, ht, w, hw, u, hu, hsome, hdepth⟩
    exact ⟨hsome, hscheduled, v, w, hv, hw, ⟨u, hu⟩, t, ht, hdepth⟩
  · rintro ⟨hsome, hscheduled, v, w, hv, hw, ⟨u, hu⟩, t, ht, hdepth⟩
    exact ⟨hscheduled, v, hv, t, ht, w, hw, u, hu, hsome, hdepth⟩

end Decode

/-- **Which errors escape.** Loading a result yields a result or an error, and the error
counts as malformed except in two places. In both, everything before the candidate it
comes from has been read, and so has the schedule of that candidate.

* In the one-dimensional domain, with or without settings, the state is an integer that no
  number is near to.
* For the tapping machine with settings, the state is one that measuring cannot start
  from: it has no third component, or going through the numbers of that leads to an integer
  that no number is near to. Without settings nothing escapes. Whether a lone number in
  lists counts makes no difference to that. -/
theorem escaping_errors (j : Json Float) (e : DecodeError) :
    (∀ settings : Option (Settings Float Float),
      Escapes (Decode.outcome (Decode.rate settings) j) e ↔
        ∃ c, Decode.Reached (Decode.rate settings) j c ∧ e = .overflow ∧ Decode.Scheduled c ∧
          ∃ v, Decode.member "state" c = .ok v ∧ v.Oversized) ∧
    ∀ (lone : Bool) (settings : Option (Settings Float (Tapping.State Float))),
      Escapes (Decode.outcome (Decode.tapping lone settings) j) e ↔
        ∃ c, Decode.Reached (Decode.tapping lone settings) j c ∧ settings.isSome = true ∧
          Decode.Scheduled c ∧
          ∃ v w, Decode.member "state" c = .ok v ∧ Decode.member "resources" c = .ok w ∧
            (∃ u, Usage.check w = .ok u) ∧ ∃ t, v.uniform? = some t ∧
              ((e = .shortState ∧ t.components.length < 3) ∨
                (e = .overflow ∧ ∃ x, t.components[2]? = some x ∧ x.Overflows)) := by
  constructor
  · intro settings
    simp only [Decode.outcome_escapes, Decode.rate_escapes]
  · intro lone settings
    simp only [Decode.outcome_escapes, Decode.tapping_escapes]

theorem map_eq_error {ε α β : Type} {f : α → β} {x : Except ε α} {e : ε} :
    x.map f = .error e ↔ x = .error e := by
  cases x <;> simp [Except.map]

/-- A saved result of one candidate with a given state. -/
def savedState (state : Json Float) : Json Float :=
  .obj [("pareto_fronts", .arr
    [.obj
      [("solutions", .arr
        [.obj [("sequence", .arr []), ("state", state), ("resources", .obj [])]]),
       ("step_length", .int 0), ("steps_per_iteration", .int 0), ("iteration", .int 0),
       ("runtime", .int 0)]])]

/-- A target depth of forty. -/
def deepSettings : Settings Float (Tapping.State Float) :=
  { initialState := .vector [0, 0, 0], targetState := .vector [0, 0, 40], timeDelta := 0.01
    timeMax := 1, threshold := 0.01 }

/-- Not every error counts as malformed: not the one of a state of two components, nor the
one of an integer as big as ten to the power of four hundred. -/
theorem not_all_malformed :
    (∀ lone, ¬∀ (settings : Option (Settings Float (Tapping.State Float))) (j : Json Float)
        (e : DecodeError), Decode.outcome (Decode.tapping lone settings) j = .error e →
      e.malformed = true) ∧
    ¬∀ (settings : Option (Settings Float Float)) (j : Json Float) (e : DecodeError),
      Decode.outcome (Decode.rate settings) j = .error e → e.malformed = true := by
  constructor
  · intro lone hall
    have hshort : (Decode.outcome (Decode.tapping lone (some deepSettings))
        (savedState (.arr [.int 1, .int 2]))).map (fun _ => ()) = .error .shortState := by
      cases lone <;> decide +kernel
    exact absurd (hall _ _ .shortState (map_eq_error.mp hshort)) (by decide)
  · intro hall
    have hhuge : (Decode.outcome (Decode.rate none) (savedState (.int (10 ^ 400)))).map
        (fun _ => ()) = .error .overflow := by
      decide +kernel
    exact absurd (hall _ _ .overflow (map_eq_error.mp hhuge)) (by decide)

end ModeSchedule
