/-
ModeSchedule.Proofs.Search.Drift — strict pruning at the tapping machine.

Strict dominance within a tolerance is not transitive: a candidate may be within another one
because their times are close, that one within a third, and so on, and the times drift as
far as the chain is long. All the same no chain leads back to its start
(`UsageOrder.not_outranks_self`), so that pruning leaves some of every list and each of its
chains begins with something it leaves (`strict_pruning_leaves_some`).

What is close to a number ends at its reach. A step to a usage that is not close goes beyond
the reach of one resource, and it brings the other one down by no more than a reach
(`Usage.Ascends`). As the reach rises with the number, a resource that comes back to where it
was has gone down more often than up. But where one goes down, the other goes up.
-/
import ModeSchedule.Proofs.Tolerance
import ModeSchedule.Proofs.Search.Survival

namespace ModeSchedule

/-! ## One resource -/

namespace Usage

variable {a b c : Rat} {up down : Nat}

/-- From one number to another by steps, of which `up` go beyond the reach of the number
before, and the other `down` to a number that has the one before within its reach. -/
structure Climbs (up down : Nat) (a b : Rat) : Prop where
  le : reach^[up] a ≤ reach^[down] b
  lt : 0 < up → reach^[up] a < reach^[down] b

theorem Climbs.refl (a : Rat) : Climbs 0 0 a a where
  le := le_rfl
  lt h := absurd h (lt_irrefl 0)

theorem Climbs.rise (h : Climbs up down a b) (hbc : reach b < c) : Climbs (up + 1) down a c := by
  -- The reach commutes with its iterates, so the step up may be taken before those down.
  have hlt : reach^[up + 1] a < reach^[down] c := calc
    reach^[up + 1] a = reach (reach^[up] a) := Function.iterate_succ_apply' reach up a
    _ ≤ reach (reach^[down] b) := reach_strictMono.monotone h.le
    _ = reach^[down] (reach b) := (Function.Commute.iterate_self reach down).symm b
    _ < reach^[down] c := reach_strictMono.iterate down hbc
  exact ⟨hlt.le, fun _ => hlt⟩

theorem Climbs.slip (h : Climbs up down a b) (hbc : b ≤ reach c) : Climbs up (down + 1) a c := by
  have hle : reach^[down] b ≤ reach^[down + 1] c :=
    (reach_strictMono.iterate down).monotone hbc
  exact ⟨h.le.trans hle, fun hup => (h.lt hup).trans_le hle⟩

/-- A climb that ends where it began goes down more often than up, if it goes up at all. -/
theorem Climbs.lt_of_pos (h : Climbs up down a a) (hup : 0 < up) : up < down :=
  (reach_strictMono.strictMono_iterate_of_lt_map (lt_reach a)).lt_iff_lt.mp (h.lt hup)

end Usage

/-! ## Both resources -/

namespace Usage

variable {u v x : Usage Rat} {n : Nat}

/-- From one usage to another by steps that climb in both resources. Wherever a step
goes down in one of them, it goes up in the other. -/
def Ascends (n : Nat) (u v : Usage Rat) : Prop :=
  ∃ up down up' down', up + down = n ∧ up' + down' = n ∧ down ≤ up' ∧
    Climbs up down u.energy v.energy ∧ Climbs up' down' u.time v.time

theorem Ascends.refl (u : Usage Rat) : Ascends 0 u u :=
  ⟨0, 0, 0, 0, rfl, rfl, le_rfl, .refl u.energy, .refl u.time⟩

/-- What is within another usage, but not close to it, is clearly less in one resource. -/
theorem nearlyWithin_reach (hwithin : nearlyWithin u v = true) (hclose : closeTo u v = false) :
    u.energy ≤ reach v.energy ∧ u.time ≤ reach v.time ∧
      (reach u.energy < v.energy ∨ reach u.time < v.time) := by
  rw [nearlyWithin_iff] at hwithin
  rw [closeTo, Bool.and_eq_false_iff] at hclose
  refine ⟨le_reach_iff.mp hwithin.1, le_reach_iff.mp hwithin.2, ?_⟩
  rw [reach_lt_iff, reach_lt_iff]
  rcases hclose with hclose | hclose
  · exact Or.inl ⟨hwithin.1.resolve_right (by simp [hclose]), hclose⟩
  · exact Or.inr ⟨hwithin.2.resolve_right (by simp [hclose]), hclose⟩

theorem Ascends.step (h : Ascends n u v) (hwithin : nearlyWithin v x = true)
    (hclose : closeTo v x = false) : Ascends (n + 1) u x := by
  obtain ⟨up, down, up', down', henergies, htimes, hpaired, henergy, htime⟩ := h
  obtain ⟨henergyLe, htimeLe, hless | hless⟩ := nearlyWithin_reach hwithin hclose
  · exact ⟨up + 1, down, up', down' + 1, by omega, by omega, hpaired,
      henergy.rise hless, htime.slip htimeLe⟩
  · exact ⟨up, down + 1, up' + 1, down', by omega, by omega, Nat.succ_le_succ hpaired,
      henergy.slip henergyLe, htime.rise hless⟩

/-- No steps lead back. Each resource would go down more often than up; but where one goes
down, the other one goes up. -/
theorem Ascends.eq_zero (h : Ascends n u u) : n = 0 := by
  obtain ⟨up, down, up', down', henergies, htimes, hpaired, henergy, htime⟩ := h
  have henergy : 0 < up → up < down := henergy.lt_of_pos
  have htime : 0 < up' → up' < down' := htime.lt_of_pos
  -- More than half of the steps would go down in the energy, and more than half in the time.
  omega

end Usage

/-! ## Chains of dominance -/

namespace UsageOrder

variable {S : Type} {complete : Solution Rat S (Usage Rat) → Bool}
  {a b : Solution Rat S (Usage Rat)} {xs : List (Solution Rat S (Usage Rat))}

theorem ascends_of_better {n : Nat} {u : Usage Rat} (h : Usage.Ascends n u a.resources)
    (hab : tolerant.strictlyBetter complete a b = true) : Usage.Ascends (n + 1) u b.resources := by
  simp only [strictlyBetter, tolerant, Bool.and_eq_true, Bool.not_eq_true'] at hab
  exact h.step hab.1.2 hab.2

theorem ascends_of_outranks (h : Pruning.Outranks (tolerant.strictlyBetter complete) xs a b) :
    ∃ n, 0 < n ∧ Usage.Ascends n a.resources b.resources := by
  induction h with
  | single h => exact ⟨1, Nat.one_pos, ascends_of_better (.refl _) h.2.2⟩
  | tail _ h ih =>
    obtain ⟨n, hn, hascends⟩ := ih
    exact ⟨n + 1, Nat.succ_pos n, ascends_of_better hascends h.2.2⟩

/-- No chain of strict dominance leads back to its start, however far each step drifts. -/
theorem not_outranks_self (a : Solution Rat S (Usage Rat)) :
    ¬Pruning.Outranks (tolerant.strictlyBetter complete) xs a a := by
  intro h
  obtain ⟨n, hn, hascends⟩ := ascends_of_outranks h
  exact hn.ne' hascends.eq_zero

end UsageOrder

namespace Search

variable {K S R A : Type} {P : Problem K S R A} {algorithm : Algorithm}
  {xs kept : List (Solution K S R)}

/-- Whatever a request to prune a list is granted, it is what nothing dominates. -/
theorem undominated_of_prune (h : prune (some P) algorithm .members xs = .ok kept) :
    kept = Pruning.undominated (algorithm.better P) xs := by
  change (if 1 < xs.length then requireMeasured P xs >>= fun _ => _ else _) = _ at h
  split at h
  · obtain ⟨_, -, hkept⟩ := Granted.bind.mp h
    exact (Except.ok.inj hkept).symm
  · exact (Except.ok.inj h).symm

end Search

/-- **Strict pruning leaves some of the candidates of the tapping machine.**

Over exact numbers, let any list be pruned by comparing its members strictly. The request is
granted if they can all be measured. Whatever it is granted, something is left of a list
that is not empty, and to each candidate that is dropped a chain leads from one that is
left, along which every candidate is strictly better than the next. -/
theorem strict_pruning_leaves_some (setup : Tapping.Setup Rat)
    (move : Linear.Drive Rat → Rat → Tapping.State Rat → Tapping.State Rat)
    (xs : List (Tapping.Candidate Rat)) :
    ((∀ s ∈ xs, s.state.misfit? = none) → ∃ kept,
      Search.prune (some (Tapping.machine setup move)) .exhaustive .members xs = .ok kept) ∧
    ∀ kept, Search.prune (some (Tapping.machine setup move)) .exhaustive .members xs = .ok kept →
      (xs ≠ [] → kept ≠ []) ∧
      ∀ z ∈ xs, z ∉ kept →
        ∃ k ∈ kept, Pruning.Outranks (Tapping.machine setup move).strictlyBetter xs k z := by
  have hirrefl : ∀ s ∈ xs, (Tapping.machine setup move).strictlyBetter s s = false := by
    intro s _
    simp [Tapping.machine, UsageOrder.problem, UsageOrder.strictlyBetter]
  refine ⟨fun hmeasured => ⟨_, Search.prune_members hmeasured hirrefl⟩, ?_⟩
  intro kept hprune
  have hkept : kept = Pruning.undominatedBy (Tapping.machine setup move).strictlyBetter xs xs :=
    (Search.undominated_of_prune hprune).trans (Pruning.undominated_eq_undominatedBy hirrefl)
  have hdescent : Pruning.Descent (Tapping.machine setup move).strictlyBetter _ xs :=
    Pruning.descent_of_acyclic UsageOrder.not_outranks_self
  rw [hkept]
  refine ⟨hdescent.undominatedBy_ne_nil, ?_⟩
  intro z hz hdropped
  obtain ⟨k, hk, rfl | houtranks⟩ := hdescent.exists_kept hz
  · exact absurd hk hdropped
  · exact ⟨k, hk, houtranks⟩

namespace Tapping

/-- A complete candidate that has used a given energy and time. -/
def finished (mode : Nat) (energy time : Rat) : Candidate Rat :=
  { schedule := [⟨mode, 1⟩], state := .vector [0, 0, 2], resources := ⟨energy, time⟩
    distance := none }

/-- Three complete candidates. The times of neighbours are close, those of the first and the
last are not. -/
def drifting : List (Candidate Rat) :=
  [finished 0 1 (1000 + 16 / 10 ^ 7), finished 1 2 (1000 + 8 / 10 ^ 7), finished 2 3 1000]

/-- Only the first of them is left. -/
theorem undominated_drifting : (Pruning.undominated
    (discrete sampleSetup).strictlyBetter drifting).map (·.schedule) = [[⟨0, 1⟩]] := by
  decide +kernel

end Tapping

/-- The last of three candidates is dropped, though the one that is left is not better. -/
theorem strict_pruning_leaves_some_sample : ∃ kept,
    Search.prune (some (Tapping.discrete Tapping.sampleSetup)) .exhaustive .members
      Tapping.drifting = .ok kept ∧
    (∀ k ∈ kept, k.schedule = [⟨0, 1⟩]) ∧
    ∃ k ∈ kept, Pruning.Outranks (Tapping.discrete Tapping.sampleSetup).strictlyBetter
      Tapping.drifting k (Tapping.finished 2 3 1000) := by
  have hmeasured : ∀ s ∈ Tapping.drifting, s.state.misfit? = none := by
    simp [Tapping.drifting, Tapping.finished, Tapping.State.misfit?]
  obtain ⟨kept, hprune⟩ := (strict_pruning_leaves_some Tapping.sampleSetup _ _).1 hmeasured
  have hschedules : ∀ k ∈ kept, k.schedule = [⟨0, 1⟩] := by
    intro k hk
    have hmem := List.mem_map_of_mem (f := Solution.schedule) hk
    rw [Search.undominated_of_prune hprune] at hmem
    exact List.mem_singleton.mp (Tapping.undominated_drifting ▸ hmem)
  refine ⟨kept, hprune, hschedules, ?_⟩
  refine ((strict_pruning_leaves_some Tapping.sampleSetup _ _).2 kept hprune).2 _
    (by simp [Tapping.drifting]) fun hlast => ?_
  have hschedule := hschedules _ hlast
  simp [Tapping.finished] at hschedule

end ModeSchedule
