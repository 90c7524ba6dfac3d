/-
ModeSchedule.Proofs.Requests — what a granted request has passed.

A request is a chain of checks in `Except PlanError`. `Granted.bind` takes such a
chain apart, and each check has a lemma that says when it passes. The strides
that a request for levels is granted are positive (`strides_pos`).
-/
import ModeSchedule.Proofs.Numbers
import ModeSchedule.Search.Sweep

namespace ModeSchedule

/-! ## Chains of checks -/

namespace Granted

variable {ε α β : Type}

/-- A chain is granted exactly if each link is. -/
theorem bind {x : Except ε α} {f : α → Except ε β} {b : β} :
    x >>= f = .ok b ↔ ∃ a, x = .ok a ∧ f a = .ok b := by
  cases x with
  | error e => simp [Bind.bind, Except.bind]
  | ok a => simp [Bind.bind, Except.bind]

theorem map {x : Except ε α} {f : α → β} {b : β} :
    x.map f = .ok b ↔ ∃ a, x = .ok a ∧ f a = b := by
  cases x with
  | error e => simp [Except.map]
  | ok a => simp [Except.map]

/-- Naming an error differently grants nothing else. -/
theorem mapError {ε' : Type} {x : Except ε α} {f : ε → ε'} {a : α} :
    x.mapError f = .ok a ↔ x = .ok a := by
  cases x <;> simp [Except.mapError]

/-- Of two chains with the same first link, the same is seen if the same is seen of
what follows it. -/
theorem map_bind_congr {γ : Type} {x : Except ε α} {f g : α → Except ε β} {seen : β → γ}
    (h : ∀ a, x = .ok a → (f a).map seen = (g a).map seen) :
    (x >>= f).map seen = (x >>= g).map seen := by
  cases x with
  | error e => rfl
  | ok a => exact h a rfl

/-- A list of requests is granted exactly if every member is. -/
theorem mapM {f : α → Except ε β} {xs : List α} {ys : List β} :
    xs.mapM f = .ok ys ↔ List.Forall₂ (fun x y => f x = .ok y) xs ys := by
  induction xs generalizing ys with
  | nil => simp [Pure.pure, Except.pure, eq_comm]
  | cons x xs ih =>
    rw [List.mapM_cons, bind]
    constructor
    · rintro ⟨y, hy, hrest⟩
      obtain ⟨zs, hzs, hys⟩ := bind.mp hrest
      obtain rfl := Except.ok.inj hys
      exact .cons hy (ih.mp hzs)
    · intro h
      cases h with
      | @cons _ y _ zs hy hzs => exact ⟨y, hy, bind.mpr ⟨zs, ih.mpr hzs, rfl⟩⟩

/-- Reading member by member what was written member by member. -/
theorem mapM_map {γ : Type} {read : β → Except ε γ} {write : α → β} {after : α → γ}
    {xs : List α} (h : ∀ x ∈ xs, read (write x) = .ok (after x)) :
    (xs.map write).mapM read = .ok (xs.map after) := by
  rw [mapM, List.forall₂_map_left_iff, List.forall₂_map_right_iff, List.forall₂_same]
  exact h

/-- What stands in the second of two related lists is related to something in the
first one. -/
theorem exists_related {rel : α → β → Prop} {xs : List α} {ys : List β}
    (h : List.Forall₂ rel xs ys) {y : β} (hy : y ∈ ys) : ∃ x ∈ xs, rel x y := by
  induction h with
  | nil => cases hy
  | @cons x z xs zs hxz _ ih =>
    rcases List.mem_cons.mp hy with rfl | hy
    · exact ⟨x, List.mem_cons_self, hxz⟩
    · obtain ⟨x', hx', hrel⟩ := ih hy
      exact ⟨x', List.mem_cons_of_mem x hx', hrel⟩

/-- What a granted list of requests yields comes from one of them. -/
theorem exists_of_mapM {f : α → Except ε β} {xs : List α} {ys : List β}
    (h : xs.mapM f = .ok ys) {y : β} (hy : y ∈ ys) : ∃ x ∈ xs, f x = .ok y :=
  exists_related (mapM.mp h) hy

/-- A list of requests is granted if every member is. -/
theorem exists_mapM {f : α → Except ε β} {xs : List α} (h : ∀ x ∈ xs, ∃ y, f x = .ok y) :
    ∃ ys, xs.mapM f = .ok ys := by
  induction xs with
  | nil => exact ⟨[], rfl⟩
  | cons x xs ih =>
    obtain ⟨y, hy⟩ := h x List.mem_cons_self
    obtain ⟨ys, hys⟩ := ih fun z hz => h z (List.mem_cons_of_mem x hz)
    exact ⟨y :: ys, mapM.mpr (.cons hy (mapM.mp hys))⟩

end Granted

/-! ## Single checks -/

theorem requireFit_eq_ok {K S R : Type} {misfit? : S → Option Misfit}
    {xs : List (Solution K S R)} :
    requireFit misfit? xs = .ok () ↔ ∀ s ∈ xs, misfit? s.state = none := by
  unfold requireFit
  rw [← List.findSome?_eq_none_iff (p := fun s : Solution K S R => misfit? s.state)]
  cases xs.findSome? fun s => misfit? s.state with
  | none => simp
  | some cause => simp

theorem requireMeasured_eq_ok {K S R A : Type} {P : Problem K S R A}
    {xs : List (Solution K S R)} :
    requireMeasured P xs = .ok () ↔ ∀ s ∈ xs, P.misfit? s.state = none :=
  requireFit_eq_ok

theorem requireModes_eq_ok {α : Type} {modes : List α} :
    requireModes modes = .ok () ↔ modes ≠ [] := by
  cases modes with
  | nil => simp [requireModes]
  | cons m modes => simp [requireModes]

theorem requirePositive_whole {K : Type} [Scalar K] {what : Quantity} {n : Int} :
    requirePositive what (.whole n : Given K) = .ok () ↔ 0 < n := by
  by_cases h : n ≤ 0
  · simp [requirePositive, Given.atMostZero?, Given.integer?, h, Int.not_lt.mpr h]
  · simp [requirePositive, Given.atMostZero?, Given.integer?, h, Int.not_le.mp h]

/-! ## Strides -/

theorem halvings_pos (n : Nat) : ∀ k ∈ Algorithm.halvings n, 0 < k := by
  induction n with
  | zero => simp [Algorithm.halvings]
  | succ n ih =>
    intro k hk
    rcases List.mem_cons.mp hk with rfl | hk
    · exact Nat.pow_pos (by omega)
    · exact ih k hk

/-- Each stride is twice the next one. -/
theorem halvings_isChain (n : Nat) :
    (Algorithm.halvings n).IsChain fun coarse fine => coarse = 2 * fine := by
  induction n with
  | zero => exact .singleton 1
  | succ n ih =>
    have hhead : (Algorithm.halvings n).head? = some (2 ^ n) := by cases n <;> rfl
    refine List.isChain_cons.mpr ⟨fun fine hfine => ?_, ih⟩
    rw [hhead, Option.mem_some_iff] at hfine
    rw [← hfine]
    exact Nat.pow_succ'

theorem halvings_getLast (n : Nat) : (Algorithm.halvings n).getLast? = some 1 := by
  induction n with
  | zero => rfl
  | succ n ih => rw [Algorithm.halvings, List.getLast?_cons, ih, Option.getD_some]

theorem strides_pos (algorithm : Algorithm) (levels : Nat) :
    ∀ k ∈ algorithm.strides levels, 0 < k := by
  cases algorithm with
  | exhaustive => exact halvings_pos _
  | heuristic => exact halvings_pos _
  | singleMachine => simp [Algorithm.strides]

theorem stridesFor_pos {K : Type} {algorithm : Algorithm} {levels : Given K}
    {strides : List Nat} (h : algorithm.stridesFor levels = .ok strides) :
    ∀ k ∈ strides, 0 < k := by
  unfold Algorithm.stridesFor at h
  split at h
  · rw [← Except.ok.inj h]
    exact strides_pos _ 1
  · unfold requireCount at h
    cases hn : levels.integer? with
    | none => simp [hn, Except.map] at h
    | some n =>
      simp only [hn, Except.map, Except.ok.injEq] at h
      rw [← h]
      exact strides_pos _ _

/-- The blocks of a length that fit into a horizon of exact numbers. -/
theorem Problem.blocksWithin_rat {S R A : Type} (P : Problem Rat S R A) (length : Rat) :
    P.blocksWithin length = .ok ⌊P.settings.timeMax / length⌋₊ :=
  Scalar.truncate_rat (P.settings.timeMax / length)

/-- The blocks of a stride: the stride is a number of the type, and the horizon
holds a whole number of blocks. -/
theorem ofStride_eq_ok {K S R A : Type} [Scalar K] {P : Problem K S R A} {stride : Nat}
    {resolution : Resolution K} :
    Resolution.ofStride P stride = .ok resolution ↔
      ∃ count blocks, Scalar.ofInt? (stride : Int) = some count ∧
        P.blocksWithin (P.settings.timeDelta * count) = .ok blocks ∧
        resolution = ⟨stride, P.settings.timeDelta * count, blocks⟩ := by
  unfold Resolution.ofStride
  cases hcount : (Scalar.ofInt? (stride : Int) : Option K) with
  | none => simp
  | some count =>
    cases hblocks : P.blocksWithin (P.settings.timeDelta * count) with
    | error cause => simp [hblocks]
    | ok blocks => simp [hblocks, eq_comm]

end ModeSchedule
