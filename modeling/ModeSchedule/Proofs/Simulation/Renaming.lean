/-
ModeSchedule.Proofs.Simulation.Renaming — modes under other names.

The modes of a schedule are positions in a list. If the list is put into another
order, every position is renamed by an injective function (`Reordering`, which
exists for every permutation: `exists_reordering`).

A local problem does not look at schedules, and appending a step only asks whether
two modes are the same. So renaming commutes with appending (`rename_append`), with
the correction of an overshoot (`settle_rename`) and with a run of one mode
(`advance_rename`): state, resources, distance and the number of steps stay what
they are.
-/
import ModeSchedule.Proofs.Simulation.Locality

namespace ModeSchedule

/-! ## Schedules -/

namespace Schedule

variable {σ : Nat → Nat}

/-- The schedule with its modes renamed. -/
def rename (σ : Nat → Nat) (s : Schedule) : Schedule :=
  s.map fun e => { e with mode := σ e.mode }

@[simp] theorem rename_nil : rename σ [] = [] := rfl

@[simp] theorem rename_cons (e : Entry) (s : Schedule) :
    rename σ (e :: s) = ⟨σ e.mode, e.times⟩ :: rename σ s := rfl

theorem rename_injective (hσ : Function.Injective σ) : Function.Injective (rename σ) := by
  refine List.map_injective_iff.mpr fun e f hef => ?_
  simp only [Entry.mk.injEq, hσ.eq_iff] at hef
  cases e
  cases f
  exact congrArg₂ Entry.mk hef.1 hef.2

theorem rename_dropMarker (s : Schedule) : (s.rename σ).dropMarker = s.dropMarker.rename σ := by
  induction s using dropMarker.induct with
  | case1 => rfl
  | case2 e he => simp [dropMarker, he]
  | case3 e he => simp [dropMarker, he]
  | case4 e f s ih =>
    rw [rename_cons] at ih
    simp [dropMarker, ih]

theorem rename_push (hσ : Function.Injective σ) (mode : Nat) (s : Schedule) :
    push (σ mode) (s.rename σ) = (push mode s).rename σ := by
  induction s using push.induct mode with
  | case1 => rfl
  | case2 e he => simp [push, he]
  | case3 e he => simp [push, he, hσ.eq_iff]
  | case4 e f s ih =>
    rw [rename_cons] at ih
    simp [push, ih]

/-- Renaming commutes with appending. -/
theorem rename_append (hσ : Function.Injective σ) (mode : Nat) (s : Schedule) :
    append (σ mode) (s.rename σ) = (append mode s).rename σ := by
  unfold append
  rw [rename_dropMarker, rename_push hσ]

theorem active?_rename (s : Schedule) : (s.rename σ).active? = s.active?.map σ := by
  simp [active?, rename, List.getLast?_map, Function.comp_def]

end Schedule

/-! ## Candidates and runs -/

variable {K S R A : Type} {σ : Nat → Nat}

/-- The candidate with the modes of its schedule renamed. -/
def Solution.rename (σ : Nat → Nat) (s : Solution K S R) : Solution K S R :=
  { s with schedule := s.schedule.rename σ }

/-- The run with the modes of its candidate renamed. -/
def Run.rename (σ : Nat → Nat) (r : Run K S R) : Run K S R :=
  { r with solution := r.solution.rename σ }

theorem Problem.Local.complete_rename {P : Problem K S R A} (hP : P.Local) (s : Solution K S R) :
    P.complete (s.rename σ) = P.complete s :=
  hP.complete_withSchedule (s.schedule.rename σ) s

theorem Problem.Local.step_rename {P : Problem K S R A} (hP : P.Local) (m : A)
    (s : Solution K S R) : P.step m (s.rename σ) = (P.step m s).rename σ := by
  show P.step m (s.withSchedule (s.schedule.rename σ)) =
    (P.step m s).withSchedule ((P.step m s).schedule.rename σ)
  rw [hP.step_withSchedule, hP.step_schedule]

variable [Scalar K] {P : Problem K S R A}

/-- Renaming commutes with the correction of an overshoot. -/
theorem Overshoot.settle_rename (hP : P.Local) (previous current : Solution K S R) :
    settle P (previous.rename σ) (current.rename σ) = (settle P previous current).rename σ := by
  show settle P (previous.withSchedule (previous.schedule.rename σ))
      (current.withSchedule (current.schedule.rename σ)) =
    (settle P previous current).withSchedule ((settle P previous current).schedule.rename σ)
  rw [settle_withSchedule hP, settle_schedule]

namespace Run

omit [Scalar K] in
theorem stepped_rename (hP : P.Local) (hσ : Function.Injective σ) (dynamics : A) (i : Nat)
    (s : Solution K S R) :
    stepped P dynamics (σ i) (s.rename σ) = (stepped P dynamics i s).rename σ := by
  simp only [stepped, hP.step_rename]
  simp only [Solution.rename, Schedule.rename_append hσ]

/-- Renaming commutes with a run of one mode. -/
theorem advance_rename (hP : P.Local) (hσ : Function.Injective σ) (dynamics : A) (i n : Nat)
    (s : Solution K S R) :
    advance P dynamics (σ i) n (s.rename σ) = (advance P dynamics i n s).rename σ := by
  induction n generalizing s with
  | zero => rfl
  | succ n ih =>
    simp only [advance, stepped_rename hP hσ, hP.complete_rename, Overshoot.settle_rename hP, ih]
    split <;> rfl

end Run

/-! ## Orders of the modes -/

/-- The positions of a list of modes, renamed to those in another order. -/
structure Reordering (modes modes' : List (Mode A)) (σ : Nat → Nat) : Prop where
  injective : Function.Injective σ
  dynamics : ∀ i, (modes'[σ i]?).map Mode.dynamics = (modes[i]?).map Mode.dynamics
  length : modes'.length = modes.length

/-- The positions of a permuted list are renamed. -/
theorem exists_positions {α : Type} {xs ys : List α} (h : xs.Perm ys) :
    ∃ σ : Nat → Nat, Function.Injective σ ∧ ∀ i, ys[σ i]? = xs[i]? := by
  induction h with
  | nil => exact ⟨id, Function.injective_id, fun _ => rfl⟩
  | @cons x xs ys _ ih =>
    obtain ⟨σ, hσ, hget⟩ := ih
    refine ⟨fun i => i.casesOn 0 fun i => σ i + 1, ?_, ?_⟩
    · intro i j hij
      cases i with
      | zero => cases j with
        | zero => rfl
        | succ j => simp at hij
      | succ i => cases j with
        | zero => simp at hij
        | succ j => simpa [hσ.eq_iff] using hij
    · intro i
      cases i with
      | zero => rfl
      | succ i => simpa using hget i
  | swap x y xs =>
    refine ⟨Equiv.swap 0 1, (Equiv.swap 0 1).injective, fun i => ?_⟩
    match i with
    | 0 => simp
    | 1 => simp
    | i + 2 => rw [Equiv.swap_apply_of_ne_of_ne (by omega) (by omega)]; simp
  | trans _ _ ih ih' =>
    obtain ⟨σ, hσ, hget⟩ := ih
    obtain ⟨σ', hσ', hget'⟩ := ih'
    exact ⟨σ' ∘ σ, hσ'.comp hσ, fun i => (hget' (σ i)).trans (hget i)⟩

/-- Modes whose dynamics are a permutation of those of others are in another order. -/
theorem exists_reordering {modes modes' : List (Mode A)}
    (h : (modes.map Mode.dynamics).Perm (modes'.map Mode.dynamics)) :
    ∃ σ, Reordering modes modes' σ := by
  obtain ⟨σ, hσ, hget⟩ := exists_positions h
  refine ⟨σ, hσ, fun i => ?_, ?_⟩
  · rw [← List.getElem?_map, hget, List.getElem?_map]
  · simpa using h.length_eq.symm

namespace Reordering

variable {modes modes' : List (Mode A)}

theorem lt_iff (h : Reordering modes modes' σ) (i : Nat) :
    σ i < modes.length ↔ i < modes.length := by
  have hnone : modes'[σ i]? = none ↔ modes[i]? = none := by
    rw [← Option.map_eq_none_iff, h.dynamics, Option.map_eq_none_iff]
  rw [List.getElem?_eq_none_iff, List.getElem?_eq_none_iff, h.length] at hnone
  omega

/-- The positions of the one list are renamed to all positions of the other. -/
theorem range_perm (h : Reordering modes modes' σ) :
    ((List.range modes.length).map σ).Perm (List.range modes.length) := by
  have hnodup : ((List.range modes.length).map σ).Nodup := List.nodup_range.map h.injective
  have hsubset : (List.range modes.length).map σ ⊆ List.range modes.length := by
    intro j hj
    obtain ⟨i, hi, rfl⟩ := List.mem_map.mp hj
    exact List.mem_range.mpr ((h.lt_iff i).mpr (List.mem_range.mp hi))
  exact (List.subperm_of_subset hnodup hsubset).perm_of_length_le (by simp)

/-- What is done with the dynamics of a mode is done under both names. -/
theorem map_dynamics {β : Type} (h : Reordering modes modes' σ) (f : A → β) (i : Nat) :
    (modes'[σ i]?).map (fun m => f m.dynamics) = (modes[i]?).map fun m => f m.dynamics := by
  have hdynamics := congrArg (Option.map f) (h.dynamics i)
  simpa [Option.map_map, Function.comp_def] using hdynamics

end Reordering
end ModeSchedule
