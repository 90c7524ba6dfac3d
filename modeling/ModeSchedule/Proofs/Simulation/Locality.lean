/-
ModeSchedule.Proofs.Simulation.Locality — what a local problem cannot tell apart.

A search starts from seeds, whose schedules are markers; a replay starts from
the plain initial candidate. A local problem looks at neither the marker nor any
other schedule, so from the first step on both walk alike (`walk_seed`).

Less is needed for what a run does to the schedule and for its completion: the
problem is to be `Orderly`, as every local one is.

`Replays` says that a candidate is what the replay of its own schedule ends
with. Every walk from the initial state ends with such a candidate
(`replays_walk`), and it is complete exactly if the walk was completed
(`walk_complete`).
-/
import ModeSchedule.Proofs.Simulation.Walk

namespace ModeSchedule

variable {K S R A : Type} [Scalar K]

/-- Completion depends on state and resources only, and a step leaves it to the
planner to note the schedule. -/
structure Problem.Orderly (P : Problem K S R A) : Prop where
  complete_agree : ∀ {a b}, Agree a b → P.complete a = P.complete b
  step_schedule : ∀ m a, (P.step m a).schedule = a.schedule

omit [Scalar K] in
theorem Problem.Local.orderly {P : Problem K S R A} (h : P.Local) : P.Orderly :=
  ⟨h.complete_agree, h.step_schedule⟩

/-! ## The correction of an overshoot -/

namespace Overshoot

variable {P : Problem K S R A}

/-- The correction keeps the schedule of the end of the step. -/
theorem settle_schedule (P : Problem K S R A) (previous current : Solution K S R) :
    (settle P previous current).schedule = current.schedule := by
  unfold settle
  cases hf : firstComplete? P previous current with
  | none => rfl
  | some s =>
    unfold firstComplete? at hf
    obtain ⟨t, -, rfl⟩ := Option.map_eq_some_iff.mp hf
    rfl

theorem firstInstant?_accepts {accept : K → Bool} {last gap t : K} {n : Nat} {first : K}
    (h : firstInstant? accept last gap n first = some t) : accept t = true := by
  induction n generalizing first with
  | zero => simp [firstInstant?] at h
  | succ n ih =>
    simp only [firstInstant?] at h
    split at h
    · split at h
      · next ha => rwa [← Option.some.inj h]
      · exact ih h
    · cases h

/-- The correction of a complete candidate is complete. -/
theorem settle_complete (hP : P.Orderly) {previous current : Solution K S R}
    (h : P.complete current = true) : P.complete (settle P previous current) = true := by
  unfold settle
  cases hf : firstComplete? P previous current with
  | none => exact h
  | some s =>
    unfold firstComplete? at hf
    obtain ⟨t, ht, rfl⟩ := Option.map_eq_some_iff.mp hf
    rw [Option.getD_some, ← firstInstant?_accepts ht]
    exact hP.complete_agree ⟨rfl, rfl⟩

/-- The correction looks at state, resources and distance of the start only. -/
theorem settle_congr (hP : P.Local) {a b : Solution K S R} (hab : Problem.Agree a b)
    (hd : a.distance = b.distance) (current : Solution K S R) :
    settle P a current = settle P b current := by
  have hstart : startDistance P a = startDistance P b := by
    simp only [startDistance, carriedDistance?, hd, hP.distance_agree hab]
  simp only [settle, firstComplete?, pointAt, increment, refinement, pointBound, hstart, hab.1,
    hab.2]

end Overshoot

/-! ## Other schedules -/

omit [Scalar K] in
/-- The candidate with another schedule. -/
def Solution.withSchedule (q : Schedule) (s : Solution K S R) : Solution K S R :=
  { s with schedule := q }

namespace Problem.Local

variable {P : Problem K S R A}

omit [Scalar K] in
theorem complete_withSchedule (hP : P.Local) (q : Schedule) (s : Solution K S R) :
    P.complete (s.withSchedule q) = P.complete s :=
  hP.complete_agree ⟨rfl, rfl⟩

omit [Scalar K] in
theorem distance_withSchedule (hP : P.Local) (q : Schedule) (s : Solution K S R) :
    P.distance (s.withSchedule q) = P.distance s :=
  hP.distance_agree ⟨rfl, rfl⟩

omit [Scalar K] in
theorem step_withSchedule (hP : P.Local) (m : A) (q : Schedule) (s : Solution K S R) :
    P.step m (s.withSchedule q) = (P.step m s).withSchedule q := by
  have hagree := hP.step_agree (m := m) (show Agree (s.withSchedule q) s from ⟨rfl, rfl⟩)
  have hdistance := hP.step_distance (m := m) (show Agree (s.withSchedule q) s from ⟨rfl, rfl⟩) rfl
  have hschedule := hP.step_schedule m (s.withSchedule q)
  cases h : P.step m (s.withSchedule q)
  simp only [h] at hagree hdistance hschedule
  simp only [Solution.withSchedule, Solution.mk.injEq]
  exact ⟨hschedule, hagree.1, hagree.2, hdistance⟩

end Problem.Local

/-- The correction of an overshoot keeps the schedule of the end of the step and looks at none. -/
theorem Overshoot.settle_withSchedule {P : Problem K S R A} (hP : P.Local) (p q : Schedule)
    (previous current : Solution K S R) :
    settle P (previous.withSchedule p) (current.withSchedule q) =
      (settle P previous current).withSchedule q := by
  have hpoint : ∀ relative : K, pointAt P previous (current.withSchedule q) relative =
      (pointAt P previous current relative).withSchedule q := fun _ => rfl
  rw [settle_congr hP (show Problem.Agree (previous.withSchedule p) previous from ⟨rfl, rfl⟩) rfl]
  simp only [settle, firstComplete?, hpoint, hP.complete_withSchedule, hP.distance_withSchedule]
  cases firstInstant? (fun t => P.complete (pointAt P previous current (t / P.settings.timeDelta)))
    P.settings.timeDelta (increment P previous) (pointBound P previous) 0 <;> rfl

/-! ## From seeds and from the initial candidate -/

namespace Run

variable {P : Problem K S R A} {modes : List (Mode A)}

omit [Scalar K] in
/-- A first step replaces the marker of a seed. -/
theorem stepped_seed (hP : P.Local) (dynamics : A) (i j : Nat) :
    stepped P dynamics i (P.seed j) = stepped P dynamics i P.start := by
  have hagree : Problem.Agree (P.seed j) P.start := ⟨rfl, rfl⟩
  have hstep := hP.step_agree (m := dynamics) hagree
  have hdistance := hP.step_distance (m := dynamics) hagree rfl
  have hseed := hP.step_schedule dynamics (P.seed j)
  have hstart := hP.step_schedule dynamics P.start
  simp only [stepped, Solution.mk.injEq, hseed, hstart]
  exact ⟨rfl, hstep.1, hstep.2, hdistance⟩

theorem single_seed (hP : P.Local) (dynamics : A) (i j : Nat) :
    single P dynamics i (P.seed j) = single P dynamics i P.start := by
  simp only [single, stepped_seed hP,
    Overshoot.settle_congr hP (show Problem.Agree (P.seed j) P.start from ⟨rfl, rfl⟩) rfl]

/-- From the first step on, a walk does not depend on the marker it began with. -/
theorem walk_seed (hP : P.Local) {word : List Nat} (hne : word ≠ []) (j : Nat)
    (hw : ∀ i ∈ word, i < modes.length) :
    walk P modes word (P.seed j) = walk P modes word P.start := by
  cases word with
  | nil => exact absurd rfl hne
  | cons i word =>
    obtain ⟨m, hm⟩ := exists_mode (hw i List.mem_cons_self)
    rw [walk_cons hm, walk_cons hm, single_seed hP]

/-- The marker does not matter for where a walk leads, either. -/
theorem walk_seed_agree (hP : P.Local) {word : List Nat} (j : Nat)
    (hw : ∀ i ∈ word, i < modes.length) :
    (walk P modes word (P.seed j)).completed = (walk P modes word P.start).completed ∧
      Problem.Agree (walk P modes word (P.seed j)).solution
        (walk P modes word P.start).solution := by
  cases word with
  | nil => exact ⟨rfl, rfl, rfl⟩
  | cons i word =>
    rw [walk_seed hP (List.cons_ne_nil i word) j hw]
    exact ⟨rfl, rfl, rfl⟩

/-! ## Schedules of walks -/

theorem single_schedule {dynamics : A} (hstep : ∀ a, (P.step dynamics a).schedule = a.schedule)
    (i : Nat) (s : Solution K S R) :
    (single P dynamics i s).solution.schedule = s.schedule.append i := by
  have hstepped : (stepped P dynamics i s).schedule = s.schedule.append i := by
    simp [stepped, hstep]
  simp only [single]
  split
  · simp only [Overshoot.settle_schedule, hstepped]
  · exact hstepped

/-- A run of one mode appends the steps it takes. -/
theorem advance_schedule {dynamics : A} (hstep : ∀ a, (P.step dynamics a).schedule = a.schedule)
    (i n : Nat) (s : Solution K S R) :
    (advance P dynamics i n s).solution.schedule =
      (Schedule.append i)^[(advance P dynamics i n s).steps] s.schedule := by
  induction n generalizing s with
  | zero => rfl
  | succ n ih =>
    rw [advance_succ]
    cases hc : (single P dynamics i s).completed with
    | true =>
      rw [andThen_of_completed hc, single_schedule hstep, single_steps]
      rfl
    | false =>
      rw [andThen_of_not_completed hc]
      simp only [ih, single_schedule hstep, single_steps, Nat.add_comm 1,
        Function.iterate_succ_apply]

/-- A walk appends the steps it takes. -/
theorem walk_schedule_steps (hP : P.Orderly) (word : List Nat) (s : Solution K S R) :
    (walk P modes word s).solution.schedule.steps =
      s.schedule.steps ++ word.take (walk P modes word s).steps := by
  induction word generalizing s with
  | nil => simp
  | cons i word ih =>
    cases hm : modes[i]? with
    | none => simp [walk, hm]
    | some m =>
      rw [walk_cons hm]
      cases hc : (single P m.dynamics i s).completed with
      | true => simp [andThen_of_completed hc, single_schedule (hP.step_schedule _), single_steps]
      | false =>
        simp [andThen_of_not_completed hc, ih, single_schedule (hP.step_schedule _), single_steps,
          Nat.add_comm 1]

theorem walk_schedule_inRange (hP : P.Orderly) (word : List Nat) {s : Solution K S R}
    (h : s.schedule.InRange modes.length) :
    (walk P modes word s).solution.schedule.InRange modes.length := by
  induction word generalizing s with
  | nil => exact h
  | cons i word ih =>
    cases hm : modes[i]? with
    | none => simpa [walk, hm] using h
    | some m =>
      have hi : i < modes.length := (List.getElem?_eq_some_iff.mp hm).1
      have hsingle : (single P m.dynamics i s).solution.schedule.InRange modes.length := by
        rw [single_schedule (hP.step_schedule _)]
        exact Schedule.inRange_append hi h
      rw [walk_cons hm]
      cases hc : (single P m.dynamics i s).completed with
      | true => rwa [andThen_of_completed hc]
      | false =>
        rw [andThen_of_not_completed hc]
        exact ih hsingle

/-! ## Completion -/

theorem single_complete (hP : P.Orderly) (dynamics : A) (i : Nat) (s : Solution K S R) :
    P.complete (single P dynamics i s).solution = (single P dynamics i s).completed := by
  simp only [single]
  split
  · next h => exact Overshoot.settle_complete hP h
  · next h => simpa using h

/-- After at least one step, the candidate is complete exactly if the walk was
completed. -/
theorem walk_complete (hP : P.Orderly) {word : List Nat} (hne : word ≠ [])
    (hw : ∀ i ∈ word, i < modes.length) (s : Solution K S R) :
    P.complete (walk P modes word s).solution = (walk P modes word s).completed := by
  induction word generalizing s with
  | nil => exact absurd rfl hne
  | cons i word ih =>
    obtain ⟨m, hm⟩ := exists_mode (hw i List.mem_cons_self)
    have hone := single_complete hP m.dynamics i s
    rw [walk_cons hm]
    cases hc : (single P m.dynamics i s).completed with
    | true => rw [andThen_of_completed hc, hone]
    | false =>
      rw [andThen_of_not_completed hc]
      cases word with
      | nil => simpa [hc] using hone
      | cons j word =>
        exact ih (List.cons_ne_nil j word) (fun k hk => hw k (List.mem_cons_of_mem i hk)) _

theorem advance_complete (hP : P.Orderly) {i : Nat} {m : Mode A} (hm : modes[i]? = some m)
    {n : Nat} (hn : 0 < n) (s : Solution K S R) :
    P.complete (advance P m.dynamics i n s).solution = (advance P m.dynamics i n s).completed := by
  have hi : i < modes.length := (List.getElem?_eq_some_iff.mp hm).1
  have hne : List.replicate n i ≠ [] := by simp [Nat.pos_iff_ne_zero.mp hn]
  rw [advance_eq_walk hm]
  exact walk_complete hP hne (fun k hk => by rwa [List.eq_of_mem_replicate hk]) s

end Run

/-! ## Candidates that replay -/

/-- The replay of its schedule ends with the candidate itself. -/
def Replays (P : Problem K S R A) (modes : List (Mode A)) (s : Solution K S R) : Prop :=
  s.schedule.InRange modes.length ∧ (Run.follow P modes s.schedule P.start).solution = s

variable {P : Problem K S R A} {modes : List (Mode A)}

/-- Candidates that replay are determined by their schedules. -/
theorem Replays.eq_of_schedule {a b : Solution K S R} (ha : Replays P modes a)
    (hb : Replays P modes b) (h : a.schedule = b.schedule) : a = b := by
  rw [← ha.2, ← hb.2, h]

/-- A replay is granted exactly if all modes are in range. -/
theorem Run.replay_eq_ok {q : Schedule} {run : Run K S R} :
    Run.replay P modes q = .ok run ↔
      q.InRange modes.length ∧ Run.follow P modes q P.start = run := by
  unfold Run.replay Run.checkModes
  cases hfind : q.find? fun e => decide (modes.length ≤ e.mode) with
  | some e =>
    have he := List.find?_some hfind
    have hnot : ¬q.InRange modes.length := fun h =>
      absurd (h e (List.mem_of_find?_eq_some hfind)) (by simpa using he)
    simp [hnot, bind, Except.bind]
  | none =>
    have hrange : q.InRange modes.length := fun e he => by
      simpa using List.find?_eq_none.mp hfind e he
    simp [hrange, bind, Except.bind, pure, Except.pure]

/-- The replay of a candidate succeeds. -/
theorem Replays.replay {s : Solution K S R} (h : Replays P modes s) :
    ∃ run, Run.replay P modes s.schedule = .ok run ∧ run.solution = s :=
  ⟨Run.follow P modes s.schedule P.start, Run.replay_eq_ok.mpr ⟨h.1, rfl⟩, h.2⟩

/-- A walk from the initial state ends with a candidate that replays. -/
theorem replays_walk (hP : P.Local) {word : List Nat} (hw : ∀ i ∈ word, i < modes.length) :
    Replays P modes (Run.walk P modes word P.start).solution := by
  have hrange : (Run.walk P modes word P.start).solution.schedule.InRange modes.length :=
    Run.walk_schedule_inRange hP.orderly word (Schedule.inRange_nil _)
  refine ⟨hrange, ?_⟩
  rw [Run.follow_eq_walk hrange, Run.walk_schedule_steps hP.orderly]
  change (Run.walk P modes (word.take _) P.start).solution = _
  rw [Run.walk_take_steps hw]

end ModeSchedule
