/-
ModeSchedule.Proofs.Simulation.Walk — runs as walks over single steps.

`Run.advance` repeats one mode and `Run.follow` goes through the entries of a
schedule. Both are `Run.walk`, which takes a word of modes one step at a time:

* `advance_eq_walk`: repeating a mode is walking a constant word.
* `follow_eq_walk`: following a schedule is walking its steps, so the encoding
  of a schedule does not matter.

A walk over two words in turn is a walk over both (`walk_append`), and a walk
that completes its candidate takes a prefix of its word (`walk_take`).
-/
import ModeSchedule.Proofs.Steps
import ModeSchedule.Simulation.Run

namespace ModeSchedule.Run

variable {K S R A : Type}

/-! ## One run after another -/

/-- Go on from the end of a run, unless its candidate is complete. -/
def andThen (r : Run K S R) (next : Solution K S R → Run K S R) : Run K S R :=
  if r.completed then r
  else
    let rest := next r.solution
    { rest with steps := r.steps + rest.steps }

theorem andThen_of_completed {r : Run K S R} (h : r.completed = true)
    (next : Solution K S R → Run K S R) : r.andThen next = r := by
  simp [andThen, h]

theorem andThen_of_not_completed {r : Run K S R} (h : r.completed = false)
    (next : Solution K S R → Run K S R) :
    r.andThen next = { next r.solution with steps := r.steps + (next r.solution).steps } := by
  simp [andThen, h]

theorem andThen_assoc (r : Run K S R) (f g : Solution K S R → Run K S R) :
    (r.andThen f).andThen g = r.andThen fun s => (f s).andThen g := by
  cases hr : r.completed with
  | true => simp [andThen, hr]
  | false => cases hf : (f r.solution).completed <;> simp [andThen, hr, hf, Nat.add_assoc]

@[simp] theorem start_andThen (s : Solution K S R) (next : Solution K S R → Run K S R) :
    (⟨s, 0, false⟩ : Run K S R).andThen next = next s := by
  simp [andThen]

/-- Going on by nothing changes nothing. -/
theorem andThen_stay (r : Run K S R) : r.andThen (fun s => ⟨s, 0, false⟩) = r := by
  obtain ⟨s, steps, completed⟩ := r
  cases completed <;> simp [andThen]

/-! ## Walks -/

variable [Scalar K]

/-- One step of a mode as a run. -/
def single (P : Problem K S R A) (dynamics : A) (mode : Nat) (s : Solution K S R) : Run K S R :=
  let next := stepped P dynamics mode s
  if P.complete next then ⟨Overshoot.settle P s next, 1, true⟩ else ⟨next, 1, false⟩

/-- Single steps one after the other, up to the one that completes the
candidate. A mode that is not in the list ends the walk. -/
def walk (P : Problem K S R A) (modes : List (Mode A)) : List Nat → Solution K S R → Run K S R
  | [], s => ⟨s, 0, false⟩
  | i :: word, s =>
    match modes[i]? with
    | none => ⟨s, 0, false⟩
    | some m => (single P m.dynamics i s).andThen (walk P modes word)

variable {P : Problem K S R A} {modes : List (Mode A)}

@[simp] theorem walk_nil (s : Solution K S R) : walk P modes [] s = ⟨s, 0, false⟩ := rfl

theorem walk_cons {i : Nat} {m : Mode A} (hm : modes[i]? = some m) (word : List Nat)
    (s : Solution K S R) :
    walk P modes (i :: word) s = (single P m.dynamics i s).andThen (walk P modes word) := by
  simp [walk, hm]

/-- The mode at a position of the list. -/
theorem exists_mode {i : Nat} (h : i < modes.length) : ∃ m, modes[i]? = some m :=
  ⟨modes[i], List.getElem?_eq_getElem h⟩

theorem walk_append {u : List Nat} (hu : ∀ i ∈ u, i < modes.length) (v : List Nat)
    (s : Solution K S R) :
    walk P modes (u ++ v) s = (walk P modes u s).andThen (walk P modes v) := by
  induction u generalizing s with
  | nil => simp
  | cons i u ih =>
    obtain ⟨m, hm⟩ := exists_mode (hu i List.mem_cons_self)
    have hrest : walk P modes (u ++ v) = fun t => (walk P modes u t).andThen (walk P modes v) :=
      funext fun t => ih (fun j hj => hu j (List.mem_cons_of_mem i hj)) t
    rw [List.cons_append, walk_cons hm, walk_cons hm, andThen_assoc, hrest]

/-- Advancing by one more step begins with a single step. -/
theorem advance_succ (P : Problem K S R A) (dynamics : A) (mode n : Nat) (s : Solution K S R) :
    advance P dynamics mode (n + 1) s =
      (single P dynamics mode s).andThen (advance P dynamics mode n) := by
  simp only [advance, single]
  split
  · simp [andThen]
  · simp [andThen, Nat.add_comm]

/-- Repeating a mode is walking a constant word. -/
theorem advance_eq_walk {i : Nat} {m : Mode A} (hm : modes[i]? = some m) (n : Nat)
    (s : Solution K S R) :
    advance P m.dynamics i n s = walk P modes (List.replicate n i) s := by
  induction n generalizing s with
  | zero => rfl
  | succ n ih =>
    rw [advance_succ, List.replicate_succ, walk_cons hm, funext ih]

theorem follow_cons {e : Entry} {m : Mode A} (hm : modes[e.mode]? = some m)
    (entries : Schedule) (s : Solution K S R) :
    follow P modes (e :: entries) s =
      (advance P m.dynamics e.mode e.times s).andThen (follow P modes entries) := by
  simp [follow, hm, andThen]

/-- Following a schedule is walking its steps. -/
theorem follow_eq_walk {q : Schedule} (hq : q.InRange modes.length) (s : Solution K S R) :
    follow P modes q s = walk P modes q.steps s := by
  induction q generalizing s with
  | nil => rfl
  | cons e q ih =>
    rw [Schedule.inRange_cons] at hq
    obtain ⟨m, hm⟩ := exists_mode hq.1
    have hword : ∀ i ∈ List.replicate e.times e.mode, i < modes.length := by
      intro i hi
      rw [List.eq_of_mem_replicate hi]
      exact hq.1
    rw [follow_cons hm, Schedule.steps_cons, walk_append hword, advance_eq_walk hm,
      funext (ih hq.2)]

/-! ## How long a walk is -/

theorem single_steps (P : Problem K S R A) (dynamics : A) (mode : Nat) (s : Solution K S R) :
    (single P dynamics mode s).steps = 1 := by
  simp only [single]
  split <;> rfl

theorem walk_steps_le (word : List Nat) (s : Solution K S R) :
    (walk P modes word s).steps ≤ word.length := by
  induction word generalizing s with
  | nil => simp
  | cons i word ih =>
    cases hm : modes[i]? with
    | none => simp [walk, hm]
    | some m =>
      rw [walk_cons hm]
      cases hc : (single P m.dynamics i s).completed with
      | true => simp [andThen_of_completed hc, single_steps]
      | false =>
        have hrest := ih (single P m.dynamics i s).solution
        simp only [andThen_of_not_completed hc, single_steps, List.length_cons]
        omega

/-- A walk that does not complete its candidate takes every step. -/
theorem walk_steps_of_not_completed {word : List Nat} (hw : ∀ i ∈ word, i < modes.length)
    {s : Solution K S R} (h : (walk P modes word s).completed = false) :
    (walk P modes word s).steps = word.length := by
  induction word generalizing s with
  | nil => rfl
  | cons i word ih =>
    obtain ⟨m, hm⟩ := exists_mode (hw i List.mem_cons_self)
    rw [walk_cons hm] at h ⊢
    cases hc : (single P m.dynamics i s).completed with
    | true => rw [andThen_of_completed hc, hc] at h; cases h
    | false =>
      rw [andThen_of_not_completed hc] at h ⊢
      have hrest := ih (fun j hj => hw j (List.mem_cons_of_mem i hj)) h
      simp only [single_steps, hrest, List.length_cons]
      omega

/-- A walk that completes its candidate takes at least one step. -/
theorem walk_steps_pos {word : List Nat} {s : Solution K S R}
    (h : (walk P modes word s).completed = true) : 0 < (walk P modes word s).steps := by
  cases word with
  | nil => simp at h
  | cons i word =>
    cases hm : modes[i]? with
    | none => simp [walk, hm] at h
    | some m =>
      rw [walk_cons hm]
      cases hc : (single P m.dynamics i s).completed with
      | true => simp [andThen_of_completed hc, single_steps]
      | false =>
        simp only [andThen_of_not_completed hc, single_steps]
        omega

theorem advance_steps_le {i : Nat} {m : Mode A} (hm : modes[i]? = some m) (n : Nat)
    (s : Solution K S R) : (advance P m.dynamics i n s).steps ≤ n := by
  rw [advance_eq_walk hm]
  simpa using walk_steps_le (List.replicate n i) s

/-- A run of one mode that does not complete its candidate takes every step. -/
theorem advance_steps_of_not_completed {i : Nat} {m : Mode A} (hm : modes[i]? = some m) {n : Nat}
    {s : Solution K S R} (h : (advance P m.dynamics i n s).completed = false) :
    (advance P m.dynamics i n s).steps = n := by
  have hi : i < modes.length := (List.getElem?_eq_some_iff.mp hm).1
  rw [advance_eq_walk hm] at h ⊢
  rw [walk_steps_of_not_completed (fun k hk => by rwa [List.eq_of_mem_replicate hk]) h,
    List.length_replicate]

theorem advance_steps_pos {i : Nat} {m : Mode A} (hm : modes[i]? = some m) {n : Nat} (hn : 0 < n)
    (s : Solution K S R) : 0 < (advance P m.dynamics i n s).steps := by
  cases hc : (advance P m.dynamics i n s).completed with
  | true =>
    rw [advance_eq_walk hm] at hc ⊢
    exact walk_steps_pos hc
  | false => rwa [advance_steps_of_not_completed hm hc]

/-- The steps that a walk has not taken may be left out. -/
theorem walk_take {word : List Nat} {s : Solution K S R} {n : Nat}
    (h : (walk P modes word s).completed = true) (hn : (walk P modes word s).steps ≤ n) :
    walk P modes (word.take n) s = walk P modes word s := by
  induction word generalizing s n with
  | nil => simp
  | cons i word ih =>
    have hpos := walk_steps_pos h
    obtain ⟨n, rfl⟩ : ∃ k, n = k + 1 := ⟨n - 1, by omega⟩
    cases hm : modes[i]? with
    | none => simp [walk, hm] at h
    | some m =>
      rw [walk_cons hm] at h hn
      rw [List.take_succ_cons, walk_cons hm, walk_cons hm]
      cases hc : (single P m.dynamics i s).completed with
      | true => rw [andThen_of_completed hc, andThen_of_completed hc]
      | false =>
        rw [andThen_of_not_completed hc] at h hn
        simp only [single_steps] at hn
        rw [andThen_of_not_completed hc, andThen_of_not_completed hc, ih h (by omega)]

/-- A walk over the steps that another one has taken leads where that one does. -/
theorem walk_take_steps {word : List Nat} (hw : ∀ i ∈ word, i < modes.length)
    (s : Solution K S R) :
    walk P modes (word.take (walk P modes word s).steps) s = walk P modes word s := by
  cases hc : (walk P modes word s).completed with
  | true => rw [walk_take hc le_rfl]
  | false => rw [walk_steps_of_not_completed hw hc, List.take_length]

end ModeSchedule.Run
