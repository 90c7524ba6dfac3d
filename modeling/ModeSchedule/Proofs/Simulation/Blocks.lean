/-
ModeSchedule.Proofs.Simulation.Blocks — words of modes, block by block.

A level of a search applies each mode for a block of steps. `Completes` says that
a word of modes, applied in blocks to the initial candidate, completes it within
the last block; `Open` that no block completes it. Every proper prefix of a
completing word is open (`Completes.isOpen`).

`Pending` is how a search comes upon an open word: from a seed. One block more
makes it a completing word or a longer pending one (`Pending.completes`,
`Pending.extend`), and its end is the same as from the initial candidate
(`Pending.endOf_eq`).
-/
import ModeSchedule.Proofs.Simulation.Locality

namespace ModeSchedule

namespace Schedule

/-- Each mode of a word for a block of steps. -/
def ofBlocks (stride : Nat) (word : List Nat) : Schedule := word.map fun i => ⟨i, stride⟩

theorem ofBlocks_append (stride : Nat) (u v : List Nat) :
    ofBlocks stride (u ++ v) = ofBlocks stride u ++ ofBlocks stride v :=
  List.map_append

theorem ofBlocks_inRange {stride count : Nat} {word : List Nat} :
    (ofBlocks stride word).InRange count ↔ ∀ i ∈ word, i < count := by
  simp [ofBlocks, InRange]

theorem steps_ofBlocks (stride : Nat) (word : List Nat) :
    (ofBlocks stride word).steps = word.flatMap (List.replicate stride) := by
  simp only [ofBlocks, steps, List.flatMap_map]

theorem length_steps_ofBlocks (stride : Nat) (word : List Nat) :
    (ofBlocks stride word).steps.length = word.length * stride := by
  simp [steps_ofBlocks, List.length_flatMap]

/-- The first blocks of a word are its first steps. -/
theorem steps_ofBlocks_take (stride : Nat) (word : List Nat) {k : Nat} (hk : k ≤ word.length) :
    (ofBlocks stride (word.take k)).steps = (ofBlocks stride word).steps.take (k * stride) := by
  have hlength : (ofBlocks stride (word.take k)).steps.length = k * stride := by
    rw [length_steps_ofBlocks, List.length_take, Nat.min_eq_left hk]
  have hsplit : (ofBlocks stride word).steps =
      (ofBlocks stride (word.take k)).steps ++ (ofBlocks stride (word.drop k)).steps := by
    rw [steps_ofBlocks, steps_ofBlocks, steps_ofBlocks, ← List.flatMap_append,
      List.take_append_drop]
  rw [hsplit, ← hlength, List.take_left]

/-- Each mode of a word several times in a row. -/
def repeated (count : Nat) (word : List Nat) : List Nat := word.flatMap (List.replicate count)

theorem length_repeated (count : Nat) (word : List Nat) :
    (repeated count word).length = word.length * count := by
  simp [repeated, List.length_flatMap]

/-- A long block is a row of short ones. -/
theorem steps_ofBlocks_repeated (count stride : Nat) (word : List Nat) :
    (ofBlocks stride (repeated count word)).steps = (ofBlocks (count * stride) word).steps := by
  rw [steps_ofBlocks, steps_ofBlocks, repeated, List.flatMap_assoc]
  refine congrArg word.flatMap (funext fun i => ?_)
  rw [List.flatMap_replicate, List.flatten_replicate_replicate]

end Schedule

open Schedule

variable {K S R A : Type} [Scalar K]

section

variable (P : Problem K S R A) (modes : List (Mode A)) (stride : Nat)

/-- The word, applied block by block to the initial candidate, completes it in
its last block with the given outcome. -/
def Completes (word : List Nat) (s : Solution K S R) : Prop :=
  word ≠ [] ∧ ∃ run, Run.replay P modes (ofBlocks stride word) = .ok run ∧ run.solution = s ∧
    run.completed = true ∧ (word.length - 1) * stride < run.steps

/-- The candidate at the end of a word. -/
def endOf (word : List Nat) : Solution K S R :=
  (Run.follow P modes (ofBlocks stride word) P.start).solution

/-- No block of the word completes the candidate. -/
def Open (word : List Nat) : Prop :=
  (∀ i ∈ word, i < modes.length) ∧
    (Run.follow P modes (ofBlocks stride word) P.start).completed = false

/-- Some seed leads to the candidate along the word, and no block completes it. -/
def Pending (word : List Nat) (s : Solution K S R) : Prop :=
  (∀ i ∈ word, i < modes.length) ∧
    ∃ j, Run.follow P modes (ofBlocks stride word) (P.seed j) = ⟨s, word.length * stride, false⟩

end

variable {P : Problem K S R A} {modes : List (Mode A)} {stride : Nat} {u v : List Nat}
  {s p : Solution K S R}

/-! ## Prefixes of words -/

theorem Run.follow_append {q : Schedule} (hq : q.InRange modes.length) (r : Schedule)
    (s : Solution K S R) :
    follow P modes (q ++ r) s = (follow P modes q s).andThen (follow P modes r) := by
  induction q generalizing s with
  | nil => exact (start_andThen s _).symm
  | cons e q ih =>
    rw [inRange_cons] at hq
    obtain ⟨m, hm⟩ := exists_mode hq.1
    rw [List.cons_append, follow_cons hm, follow_cons hm, andThen_assoc, funext (ih hq.2)]

/-- A word followed by another one, in blocks. -/
theorem follow_blocks_append (hu : ∀ i ∈ u, i < modes.length) (v : List Nat)
    (s : Solution K S R) :
    Run.follow P modes (ofBlocks stride (u ++ v)) s =
      (Run.follow P modes (ofBlocks stride u) s).andThen
        (Run.follow P modes (ofBlocks stride v)) := by
  rw [ofBlocks_append, Run.follow_append (ofBlocks_inRange.mpr hu)]

theorem follow_blocks_steps_le (hu : ∀ i ∈ u, i < modes.length) (s : Solution K S R) :
    (Run.follow P modes (ofBlocks stride u) s).steps ≤ u.length * stride := by
  rw [Run.follow_eq_walk (ofBlocks_inRange.mpr hu), ← length_steps_ofBlocks]
  exact Run.walk_steps_le _ _

theorem follow_blocks_steps (hu : ∀ i ∈ u, i < modes.length)
    (h : (Run.follow P modes (ofBlocks stride u) s).completed = false) :
    (Run.follow P modes (ofBlocks stride u) s).steps = u.length * stride := by
  rw [Run.follow_eq_walk (ofBlocks_inRange.mpr hu)] at h ⊢
  rw [← length_steps_ofBlocks]
  exact Run.walk_steps_of_not_completed (steps_inRange (ofBlocks_inRange.mpr hu)) h

theorem Completes.not_open (h : Completes P modes stride u s) : ¬Open P modes stride u := by
  obtain ⟨-, run, hrun, -, hcompleted, -⟩ := h
  intro hopen
  have hfalse := hopen.2
  rw [(Run.replay_eq_ok.mp hrun).2, hcompleted] at hfalse
  cases hfalse

theorem Completes.inRange (h : Completes P modes stride u s) : ∀ i ∈ u, i < modes.length := by
  obtain ⟨-, run, hrun, -⟩ := h
  exact ofBlocks_inRange.mp (Run.replay_eq_ok.mp hrun).1

/-- No proper prefix of a completing word completes. -/
theorem Completes.isOpen (hv : v ≠ []) (h : Completes P modes stride (u ++ v) s) :
    Open P modes stride u := by
  have hu : ∀ i ∈ u, i < modes.length := fun i hi => h.inRange i (List.mem_append_left v hi)
  obtain ⟨-, run, hrun, -, -, hlast⟩ := h
  refine ⟨hu, ?_⟩
  rw [Run.replay_eq_ok, follow_blocks_append hu] at hrun
  rw [← Bool.not_eq_true]
  intro hcompleted
  -- A run that ends within the prefix does not get to the last block.
  rw [Run.andThen_of_completed hcompleted] at hrun
  have hsteps : run.steps ≤ u.length * stride := by
    rw [← hrun.2]
    exact follow_blocks_steps_le hu P.start
  have hv := List.length_pos_of_ne_nil hv
  have hle : u.length * stride ≤ ((u ++ v).length - 1) * stride :=
    Nat.mul_le_mul_right stride (by rw [List.length_append]; omega)
  omega

theorem Completes.endOf_eq (h : Completes P modes stride u s) : endOf P modes stride u = s := by
  obtain ⟨-, run, hrun, rfl, -⟩ := h
  rw [← (Run.replay_eq_ok.mp hrun).2]
  rfl

/-- A longer word goes on from where an open prefix leads. -/
theorem Open.endOf_append (hu : Open P modes stride u) (v : List Nat) :
    endOf P modes stride (u ++ v) =
      (Run.follow P modes (ofBlocks stride v) (endOf P modes stride u)).solution := by
  unfold endOf
  rw [follow_blocks_append hu.1, Run.andThen_of_not_completed hu.2]

theorem Open.of_append (h : Open P modes stride (u ++ v)) : Open P modes stride u := by
  have hu : ∀ i ∈ u, i < modes.length := fun i hi => h.1 i (List.mem_append_left v hi)
  refine ⟨hu, ?_⟩
  have hopen := h.2
  rw [follow_blocks_append hu] at hopen
  rw [← Bool.not_eq_true]
  intro hcompleted
  rw [Run.andThen_of_completed hcompleted, hcompleted] at hopen
  cases hopen

/-! ## Shorter blocks -/

/-- A run that completes somewhere along a word completes it up to that block. -/
theorem completes_take (hstride : 0 < stride) (hu : ∀ i ∈ u, i < modes.length)
    (hcompleted : (Run.follow P modes (ofBlocks stride u) P.start).completed = true) :
    ∃ k ≤ u.length, Completes P modes stride (u.take k) (endOf P modes stride u) := by
  have hrange : (ofBlocks stride u).InRange modes.length := ofBlocks_inRange.mpr hu
  have hle : (Run.follow P modes (ofBlocks stride u) P.start).steps ≤ u.length * stride :=
    follow_blocks_steps_le hu P.start
  unfold endOf
  rw [Run.follow_eq_walk hrange] at hcompleted hle ⊢
  have hpos := Run.walk_steps_pos hcompleted
  generalize hrun : Run.walk P modes (ofBlocks stride u).steps P.start = run at *
  -- The steps taken fill all blocks but the last one.
  have hfilled : (run.steps - 1) / stride * stride ≤ run.steps - 1 := Nat.div_mul_le_self _ _
  have hreached : run.steps ≤ ((run.steps - 1) / stride + 1) * stride := by
    have hbelow : run.steps - 1 < ((run.steps - 1) / stride + 1) * stride :=
      Nat.lt_mul_of_div_lt (Nat.lt_succ_self _) hstride
    omega
  have hfit : (run.steps - 1) / stride + 1 ≤ u.length :=
    (Nat.div_lt_iff_lt_mul hstride).mpr (by omega)
  have hlength : (u.take ((run.steps - 1) / stride + 1)).length = (run.steps - 1) / stride + 1 := by
    rw [List.length_take, Nat.min_eq_left hfit]
  have htake : (ofBlocks stride (u.take ((run.steps - 1) / stride + 1))).InRange modes.length :=
    ofBlocks_inRange.mpr fun i hi => hu i (List.mem_of_mem_take hi)
  refine ⟨_, hfit, List.ne_nil_of_length_eq_add_one hlength, run, Run.replay_eq_ok.mpr ⟨htake, ?_⟩,
    rfl, hcompleted, ?_⟩
  · rw [Run.follow_eq_walk htake, steps_ofBlocks_take stride u hfit]
    subst hrun
    exact Run.walk_take hcompleted hreached
  · rw [hlength, Nat.add_sub_cancel]
    omega

theorem repeated_inRange {count : Nat} (hu : ∀ i ∈ u, i < modes.length) :
    ∀ i ∈ repeated count u, i < modes.length := by
  intro i hi
  obtain ⟨j, hj, hij⟩ := List.mem_flatMap.mp hi
  rw [List.eq_of_mem_replicate hij]
  exact hu j hj

/-- A word runs alike in long blocks and in rows of short ones. -/
theorem follow_repeated {count : Nat} (hu : ∀ i ∈ u, i < modes.length) (s : Solution K S R) :
    Run.follow P modes (ofBlocks stride (repeated count u)) s =
      Run.follow P modes (ofBlocks (count * stride) u) s := by
  rw [Run.follow_eq_walk (ofBlocks_inRange.mpr (repeated_inRange hu)),
    Run.follow_eq_walk (ofBlocks_inRange.mpr hu), steps_ofBlocks_repeated]

/-- A word that completes in long blocks does so in short ones, up to the block
in which it gets there. -/
theorem Completes.refine {count : Nat} (hstride : 0 < stride)
    (h : Completes P modes (count * stride) u s) :
    ∃ word, word.length ≤ u.length * count ∧ Completes P modes stride word s := by
  have hu := h.inRange
  have hend : endOf P modes stride (repeated count u) = s := by
    rw [← h.endOf_eq, endOf, endOf, follow_repeated hu]
  obtain ⟨-, run, hrun, -, hcompleted, -⟩ := h
  rw [← (Run.replay_eq_ok.mp hrun).2, ← follow_repeated hu] at hcompleted
  obtain ⟨k, hk, hcompletes⟩ := completes_take hstride (repeated_inRange hu) hcompleted
  rw [hend] at hcompletes
  refine ⟨(repeated count u).take k, ?_, hcompletes⟩
  rw [← length_repeated, List.length_take]
  exact Nat.min_le_right _ _

/-! ## Words as a search comes upon them -/

theorem pending_seed (j : Nat) : Pending P modes stride [] (P.seed j) :=
  ⟨by simp, j, by simp [ofBlocks, Run.follow]⟩

theorem Pending.inRange (h : Pending P modes stride u p) {i : Nat} {m : Mode A}
    (hm : modes[i]? = some m) : ∀ k ∈ u ++ [i], k < modes.length := by
  intro k hk
  rcases List.mem_append.mp hk with hk | hk
  · exact h.1 k hk
  · rw [List.mem_singleton.mp hk]
    exact (List.getElem?_eq_some_iff.mp hm).1

/-- One block more, from the seed that leads to a pending candidate. -/
theorem Pending.follow_seed (h : Pending P modes stride u p) {i : Nat} {m : Mode A}
    (hm : modes[i]? = some m) : ∃ j, Run.follow P modes (ofBlocks stride (u ++ [i])) (P.seed j) =
      { Run.advance P m.dynamics i stride p with
        steps := u.length * stride + (Run.advance P m.dynamics i stride p).steps } := by
  obtain ⟨hu, j, hfollow⟩ := h
  have hlast : Run.follow P modes (ofBlocks stride [i]) p =
      Run.advance P m.dynamics i stride p := by
    change Run.follow P modes [⟨i, stride⟩] p = _
    rw [Run.follow_cons hm]
    exact Run.andThen_stay _
  refine ⟨j, ?_⟩
  rw [follow_blocks_append hu, hfollow, Run.andThen_of_not_completed rfl, hlast]

/-- One block more, from the initial candidate. -/
theorem Pending.follow_start (hP : P.Local) (hstride : 0 < stride)
    (h : Pending P modes stride u p) {i : Nat} {m : Mode A} (hm : modes[i]? = some m) :
    Run.follow P modes (ofBlocks stride (u ++ [i])) P.start =
      { Run.advance P m.dynamics i stride p with
        steps := u.length * stride + (Run.advance P m.dynamics i stride p).steps } := by
  obtain ⟨j, hseed⟩ := h.follow_seed hm
  have hrange : (ofBlocks stride (u ++ [i])).InRange modes.length :=
    ofBlocks_inRange.mpr (h.inRange hm)
  have hne : (ofBlocks stride (u ++ [i])).steps ≠ [] := by
    rw [← List.length_pos_iff, length_steps_ofBlocks, List.length_append]
    exact Nat.mul_pos (Nat.succ_pos _) hstride
  rw [← hseed, Run.follow_eq_walk hrange, Run.follow_eq_walk hrange,
    Run.walk_seed hP hne j (steps_inRange hrange)]

/-- A pending candidate is where its word leads. -/
theorem Pending.isOpen (hP : P.Local) (h : Pending P modes stride u p) :
    Open P modes stride u ∧ Problem.Agree p (endOf P modes stride u) := by
  obtain ⟨hu, j, hfollow⟩ := h
  have hword : ∀ k ∈ (ofBlocks stride u).steps, k < modes.length :=
    steps_inRange (ofBlocks_inRange.mpr hu)
  obtain ⟨hcompleted, hagree⟩ := Run.walk_seed_agree hP j hword
  rw [← Run.follow_eq_walk (ofBlocks_inRange.mpr hu),
    ← Run.follow_eq_walk (ofBlocks_inRange.mpr hu), hfollow] at hcompleted hagree
  exact ⟨⟨hu, hcompleted.symm⟩, hagree⟩

theorem Pending.endOf_eq (hP : P.Local) (hstride : 0 < stride)
    (h : Pending P modes stride u p) {i : Nat} {m : Mode A} (hm : modes[i]? = some m) :
    endOf P modes stride (u ++ [i]) = (Run.advance P m.dynamics i stride p).solution := by
  unfold endOf
  rw [h.follow_start hP hstride hm]

/-- Whether a block completes a pending candidate is whether the longer word is
open. -/
theorem Pending.open_iff (hP : P.Local) (hstride : 0 < stride)
    (h : Pending P modes stride u p) {i : Nat} {m : Mode A} (hm : modes[i]? = some m) :
    Open P modes stride (u ++ [i]) ↔ (Run.advance P m.dynamics i stride p).completed = false := by
  unfold Open
  rw [h.follow_start hP hstride hm]
  exact and_iff_right (h.inRange hm)

/-- A block that completes a pending candidate completes the longer word. -/
theorem Pending.completes (hP : P.Local) (hstride : 0 < stride)
    (h : Pending P modes stride u p) {i : Nat} {m : Mode A} (hm : modes[i]? = some m)
    (hcompleted : (Run.advance P m.dynamics i stride p).completed = true) :
    Completes P modes stride (u ++ [i]) (Run.advance P m.dynamics i stride p).solution := by
  have hfollow := h.follow_start hP hstride hm
  have hpos : 0 < (Run.advance P m.dynamics i stride p).steps := by
    rw [Run.advance_eq_walk hm] at hcompleted ⊢
    exact Run.walk_steps_pos hcompleted
  refine ⟨List.append_ne_nil_of_right_ne_nil u (List.cons_ne_nil i []), _,
    Run.replay_eq_ok.mpr ⟨ofBlocks_inRange.mpr (h.inRange hm), hfollow⟩, rfl, hcompleted, ?_⟩
  rw [List.length_append, List.length_singleton, Nat.add_sub_cancel]
  exact Nat.lt_add_of_pos_right hpos

/-- A block that does not complete a pending candidate leaves it pending. -/
theorem Pending.extend (h : Pending P modes stride u p) {i : Nat} {m : Mode A}
    (hm : modes[i]? = some m)
    (hcompleted : (Run.advance P m.dynamics i stride p).completed = false) :
    Pending P modes stride (u ++ [i]) (Run.advance P m.dynamics i stride p).solution := by
  obtain ⟨j, hseed⟩ := h.follow_seed hm
  refine ⟨h.inRange hm, j, ?_⟩
  have hsteps : (Run.follow P modes (ofBlocks stride (u ++ [i])) (P.seed j)).steps =
      (u ++ [i]).length * stride :=
    follow_blocks_steps (h.inRange hm) (by rw [hseed, hcompleted])
  rw [hseed] at hsteps ⊢
  rw [← hsteps, ← hcompleted]

end ModeSchedule
