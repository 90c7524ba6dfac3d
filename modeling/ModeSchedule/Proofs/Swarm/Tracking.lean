/-
ModeSchedule.Proofs.Swarm.Tracking — a swarm knows its best.

The leader of a swarm is replaced by each trial that is strictly better, across
particles and rounds. `Leads` says who leads after a list of trials: the start, if
no trial was better, or else the earliest of the best trials. One trial more keeps
this up (`Leads.step`), hence so does a round (`Leads.foldl`) and so do all rounds
(`generations_leads`).

The particles that a round tries are the `population` that the rounds before it have
left, and what a round keeps holds of every population (`population_induction`).

Costs compare as the points of a line do as long as none is undefined; a candidate
that is not complete costs more than any number (`fitter_trans`,
`fitter_of_not_fitter`). `swarm_tracks_best` is the statement for a refinement.
-/
import ModeSchedule.Proofs.Search.Replay
import ModeSchedule.Swarm.Run

namespace ModeSchedule.Swarm

variable {K S R A : Type} [Scalar K]

/-! ## Comparing costs -/

/-- A cost, if there is one, is a number. -/
def IsCost (f : Option K) : Prop := ∀ x ∈ f, Scalar.IsNumber x

theorem fitter_none {a : Option K} (ha : IsCost a) : fitter a none = a.isSome := by
  cases a with
  | none => rfl
  | some x =>
    have hx : Scalar.exact x ≠ .undefined := ha x rfl
    simp [fitter, hx]

section

variable [Scalar.Ordered K] {a b c : Option K}

theorem fitter_asymm (h : fitter a b = true) : fitter b a = false := by
  cases a with
  | none => simp [fitter] at h
  | some x =>
    cases b with
    | none => rfl
    | some y =>
      simp only [fitter, decide_eq_true_eq] at h
      simp only [fitter, decide_eq_false_iff_not]
      intro hyx
      exact (Scalar.Ordered.lt_iff.mp h).2 (Scalar.le_of_lt hyx)

theorem fitter_irrefl (a : Option K) : fitter a a = false := by
  by_contra h
  rw [Bool.not_eq_false] at h
  rw [fitter_asymm h] at h
  cases h

theorem fitter_trans (ha : IsCost a) (hab : fitter a b = true) (hbc : fitter b c = true) :
    fitter a c = true := by
  cases a with
  | none => simp [fitter] at hab
  | some x =>
    cases b with
    | none => simp [fitter] at hbc
    | some y =>
      cases c with
      | none => rw [fitter_none ha, Option.isSome_some]
      | some z =>
        simp only [fitter, decide_eq_true_eq] at hab hbc ⊢
        exact Scalar.lt_of_lt_of_le hab (Scalar.le_of_lt hbc)

/-- What is fitter than a cost is fitter than any that is not fitter than it. -/
theorem fitter_of_not_fitter (ha : IsCost a) (hb : IsCost b) (hc : IsCost c)
    (hab : fitter a b = true) (hcb : fitter c b = false) : fitter a c = true := by
  cases a with
  | none => simp [fitter] at hab
  | some x =>
    cases c with
    | none => rw [fitter_none ha, Option.isSome_some]
    | some z =>
      cases b with
      | none => rw [fitter_none hc] at hcb; cases hcb
      | some y =>
        simp only [fitter, decide_eq_true_eq, decide_eq_false_iff_not] at hab hcb ⊢
        have hyz : y ≤ z := by
          by_contra hyz
          exact hcb ((Scalar.not_le (hb y rfl) (hc z rfl)).mp hyz)
        exact Scalar.lt_of_lt_of_le hab hyz

end

/-- A member of a list of costs such that none is fitter: their minimum. -/
def Least (costs : List (Option K)) (f : Option K) : Prop :=
  f ∈ costs ∧ ∀ x ∈ costs, fitter x f = false

/-! ## Who leads -/

/-- A trial as the leader that it may become. -/
def Trial.asLeader (t : Trial K S R) : Leader K S R := ⟨t.counts, t.solution, t.fitness⟩

/-- Who leads after a list of trials that began with a leader. -/
inductive Leads (start : Leader K S R) (trials : List (Trial K S R)) : Leader K S R → Prop where
  /-- No trial is fitter than the start. -/
  | start (hnone : ∀ e ∈ trials, fitter e.fitness start.fitness = false) : Leads start trials start
  /-- A trial is fitter than the start and all trials before it, and none after it is
  fitter still. -/
  | trial {early late : List (Trial K S R)} {e : Trial K S R} (hsplit : trials = early ++ e :: late)
      (hstart : fitter e.fitness start.fitness = true)
      (hearly : ∀ d ∈ early, fitter e.fitness d.fitness = true)
      (hlate : ∀ d ∈ late, fitter d.fitness e.fitness = false) : Leads start trials e.asLeader

theorem lead_of_fitter {l : Leader K S R} {t : Trial K S R}
    (h : fitter t.fitness l.fitness = true) : lead l t = t.asLeader := by
  simp [lead, h, Trial.asLeader]

theorem lead_of_not_fitter {l : Leader K S R} {t : Trial K S R}
    (h : fitter t.fitness l.fitness = false) : lead l t = l := by
  simp [lead, h]

variable {start l : Leader K S R} {trials done : List (Trial K S R)}

namespace Leads

variable [Scalar.Ordered K]

/-- One trial more. -/
theorem step (h : Leads start done l) {t : Trial K S R} (hstart : IsCost start.fitness)
    (hdone : ∀ e ∈ done, IsCost e.fitness) (ht : IsCost t.fitness) :
    Leads start (done ++ [t]) (lead l t) := by
  cases h with
  | start hnone =>
    cases hfitter : fitter t.fitness start.fitness with
    | true =>
      rw [lead_of_fitter hfitter]
      refine .trial rfl hfitter (fun d hd => ?_) (by simp)
      exact fitter_of_not_fitter ht hstart (hdone d hd) hfitter (hnone d hd)
    | false =>
      rw [lead_of_not_fitter hfitter]
      refine .start fun e he => ?_
      rcases List.mem_append.mp he with he | he
      · exact hnone e he
      · rwa [List.mem_singleton.mp he]
  | @trial early late e hsplit hbetter hearly hlate =>
    subst hsplit
    have he : IsCost e.fitness := hdone e (by simp)
    cases hfitter : fitter t.fitness e.fitness with
    | true =>
      rw [lead_of_fitter hfitter]
      refine .trial rfl (fitter_trans ht hfitter hbetter) (fun d hd => ?_) (by simp)
      rcases List.mem_append.mp hd with hd | hd
      · exact fitter_trans ht hfitter (hearly d hd)
      · rcases List.mem_cons.mp hd with rfl | hd
        · exact hfitter
        · exact fitter_of_not_fitter ht he (hdone d (by simp [hd])) hfitter (hlate d hd)
    | false =>
      rw [lead_of_not_fitter hfitter]
      have hsplit : early ++ e :: late ++ [t] = early ++ e :: (late ++ [t]) := by simp
      refine .trial hsplit hbetter hearly fun d hd => ?_
      rcases List.mem_append.mp hd with hd | hd
      · exact hlate d hd
      · rwa [List.mem_singleton.mp hd]

/-- A list of trials more. -/
theorem foldl (h : Leads start done l) (hstart : IsCost start.fitness)
    (hcosts : ∀ e ∈ done ++ trials, IsCost e.fitness) :
    Leads start (done ++ trials) (trials.foldl lead l) := by
  induction trials generalizing done l with
  | nil => rwa [List.append_nil]
  | cons t trials ih =>
    rw [List.append_cons] at hcosts ⊢
    have hdone : ∀ e ∈ done, IsCost e.fitness := fun e he => hcosts e (by simp [he])
    exact ih (h.step hstart hdone (hcosts t (by simp))) hcosts

/-- The leader's cost is the least of all. -/
theorem least (h : Leads start trials l) :
    Least (start.fitness :: trials.map Trial.fitness) l.fitness := by
  cases h with
  | start hnone =>
    refine ⟨List.mem_cons_self, fun x hx => ?_⟩
    rcases List.mem_cons.mp hx with rfl | hx
    · exact fitter_irrefl start.fitness
    · obtain ⟨e, he, rfl⟩ := List.mem_map.mp hx
      exact hnone e he
  | @trial early late e hsplit hbetter hearly hlate =>
    subst hsplit
    refine ⟨List.mem_cons_of_mem _ (List.mem_map.mpr ⟨e, by simp, rfl⟩), fun x hx => ?_⟩
    rcases List.mem_cons.mp hx with rfl | hx
    · exact fitter_asymm hbetter
    · obtain ⟨d, hd, rfl⟩ := List.mem_map.mp hx
      rcases List.mem_append.mp hd with hd | hd
      · exact fitter_asymm (hearly d hd)
      · rcases List.mem_cons.mp hd with rfl | hd
        · exact fitter_irrefl d.fitness
        · exact hlate d hd

omit [Scalar.Ordered K] in
/-- Where no trial is better, the start still leads. -/
theorem eq_start (h : Leads start trials l)
    (hnone : ∀ e ∈ trials, fitter e.fitness start.fitness = false) : l = start := by
  cases h with
  | start => rfl
  | @trial early late e hsplit hbetter =>
    rw [hnone e (by simp [hsplit])] at hbetter
    cases hbetter

omit [Scalar.Ordered K] in
/-- Where some trial is better, the earliest of the best leads. -/
theorem exists_earliest (h : Leads start trials l)
    (hsome : ∃ e ∈ trials, fitter e.fitness start.fitness = true) :
    ∃ early e late, trials = early ++ e :: late ∧ l = e.asLeader ∧
      ∀ d ∈ early, fitter e.fitness d.fitness = true := by
  cases h with
  | start hnone =>
    obtain ⟨e, he, hbetter⟩ := hsome
    rw [hnone e he] at hbetter
    cases hbetter
  | @trial early late e hsplit _ hearly => exact ⟨early, e, late, hsplit, rfl, hearly⟩

omit [Scalar.Ordered K] in
/-- The leader's cost is that of its candidate, as it is for the start and all trials. -/
theorem fitness_eq {P : Problem K S R A} (h : Leads start trials l)
    (hstart : start.fitness = fitnessOf P start.solution)
    (htrials : ∀ e ∈ trials, e.fitness = fitnessOf P e.solution) :
    l.fitness = fitnessOf P l.solution := by
  cases h with
  | start => exact hstart
  | @trial early late e hsplit => exact htrials e (by simp [hsplit])

end Leads

/-! ## Rounds -/

variable {P : Problem K S R A} {modes : List (Mode A)} {q : Parameters K} {limit : Int}
  {order : List Nat} {n : Nat} {particles : List (Particle K)} {gens : List (Generation K S R)}

/-- A trial replays the counts of its particle, and its cost is that of its candidate. -/
theorem trial_cases {p : Particle K} {e : Trial K S R} (h : trial P modes order p = .ok e) :
    e.counts = p.counts ∧ e.fitness = fitnessOf P e.solution ∧
      ∃ schedule run, withCounts? order p.counts = some schedule ∧
        Run.replay P modes schedule = .ok run ∧ run.solution = e.solution := by
  unfold trial at h
  split at h
  · cases h
  · next schedule hschedule =>
    split at h
    · cases h
    · next solution fitness heval =>
      obtain rfl := Except.ok.inj h
      unfold evaluate at heval
      obtain ⟨Q, hQ, heval⟩ := Granted.bind.mp heval
      obtain rfl : P = Q := Except.ok.inj hQ
      obtain ⟨run, hrun, heval⟩ := Granted.bind.mp heval
      obtain ⟨-, -, heval⟩ := Granted.bind.mp heval
      have hpair := Except.ok.inj heval
      simp only [Prod.mk.injEq] at hpair
      refine ⟨rfl, ?_, schedule, run, hschedule, hrun, hpair.1⟩
      show fitness = fitnessOf P solution
      rw [← hpair.1, ← hpair.2]

/-- The particles after a round: each one remembers its best place and then moves
towards the leader. -/
def moved (q : Parameters K) (limit : Int) (l : Leader K S R) (trials : List (Trial K S R))
    (particles : List (Particle K)) : List (Particle K) :=
  (List.zipWith remember trials particles).map (Particle.move q limit l.counts)

theorem length_moved {trials : List (Trial K S R)} (h : trials.length = particles.length) :
    (moved q limit l trials particles).length = particles.length := by
  simp [moved, h]

/-- A round replays all particles and lets the best lead; then the rest follow. -/
theorem generations_succ
    (h : generations P modes q limit order (n + 1) particles l = .ok gens) :
    ∃ trials rest, particles.mapM (trial P modes order) = .ok trials ∧
      trials.length = particles.length ∧
      generations P modes q limit order n
        (moved q limit (trials.foldl lead l) trials particles) (trials.foldl lead l) = .ok rest ∧
      gens = ⟨trials, trials.foldl lead l⟩ :: rest := by
  unfold generations at h
  obtain ⟨trials, htrials, h⟩ := Granted.bind.mp h
  obtain ⟨rest, hrest, h⟩ := Granted.bind.mp h
  have hlength := (Granted.mapM.mp htrials).length_eq
  exact ⟨trials, rest, htrials, hlength.symm, hrest, (Except.ok.inj h).symm⟩

theorem length_generations (h : generations P modes q limit order n particles l = .ok gens) :
    gens.length = n := by
  induction n generalizing particles l gens with
  | zero => obtain rfl := Except.ok.inj h; rfl
  | succ n ih =>
    obtain ⟨trials, rest, -, -, hrest, rfl⟩ := generations_succ h
    rw [List.length_cons, ih hrest]

/-- The particles after rounds. -/
def population (q : Parameters K) (limit : Int) (particles : List (Particle K))
    (gens : List (Generation K S R)) : List (Particle K) :=
  gens.foldl (fun particles gen => moved q limit gen.leader gen.trials particles) particles

/-- Each round tries the population that the rounds before it have left. -/
theorem generations_population
    (h : generations P modes q limit order n particles l = .ok gens) {t : Nat}
    {gen : Generation K S R} (hgen : gens[t]? = some gen) :
    (population q limit particles (gens.take t)).mapM (trial P modes order) = .ok gen.trials := by
  induction n generalizing particles l gens t with
  | zero =>
    obtain rfl := Except.ok.inj h
    cases hgen
  | succ n ih =>
    obtain ⟨trials, rest, htrials, -, hrest, rfl⟩ := generations_succ h
    cases t with
    | zero =>
      obtain rfl := Option.some.inj hgen
      exact htrials
    | succ t => exact ih hrest hgen

/-- What holds of the particles and the leader to begin with, and is kept by every round, holds of
every population and a leader. -/
theorem population_induction {motive : List (Particle K) → Leader K S R → Prop}
    (hround : ∀ {particles l trials}, motive particles l →
      particles.mapM (trial P modes order) = .ok trials →
      motive (moved q limit (trials.foldl lead l) trials particles) (trials.foldl lead l))
    (h : generations P modes q limit order n particles l = .ok gens) (hstart : motive particles l)
    (t : Nat) : ∃ l, motive (population q limit particles (gens.take t)) l := by
  induction n generalizing particles l gens t with
  | zero =>
    obtain rfl := Except.ok.inj h
    rw [List.take_nil]
    exact ⟨l, hstart⟩
  | succ n ih =>
    obtain ⟨trials, rest, htrials, -, hrest, rfl⟩ := generations_succ h
    cases t with
    | zero => exact ⟨l, hstart⟩
    | succ t => exact ih hrest (hround hstart htrials) t

/-- Each round tries as many particles as there were to begin with. -/
theorem generations_trials (h : generations P modes q limit order n particles l = .ok gens) :
    ∀ gen ∈ gens, ∃ tried : List (Particle K), tried.length = particles.length ∧
      tried.mapM (trial P modes order) = .ok gen.trials := by
  intro gen hgen
  obtain ⟨t, ht⟩ := List.mem_iff_getElem?.mp hgen
  obtain ⟨-, hlength⟩ := population_induction
    (motive := fun tried _ => tried.length = particles.length)
    (fun hlength htrials =>
      (length_moved (Granted.mapM.mp htrials).length_eq.symm).trans hlength) h rfl t
  exact ⟨_, hlength, generations_population h ht⟩

/-- After each round, the leader is the best of all trials so far. -/
theorem generations_leads [Scalar.Ordered K]
    (h : generations P modes q limit order n particles l = .ok gens)
    (hleads : Leads start done l) (hstart : IsCost start.fitness)
    (hdone : ∀ e ∈ done, IsCost e.fitness)
    (hcosts : ∀ e ∈ gens.flatMap Generation.trials, IsCost e.fitness) {t : Nat}
    {gen : Generation K S R} (hgen : gens[t]? = some gen) :
    Leads start (done ++ (gens.take (t + 1)).flatMap Generation.trials) gen.leader := by
  induction n generalizing particles l gens done t with
  | zero => obtain rfl := Except.ok.inj h; cases hgen
  | succ n ih =>
    obtain ⟨trials, rest, -, -, hrest, rfl⟩ := generations_succ h
    rw [List.flatMap_cons] at hcosts
    have hboth : ∀ e ∈ done ++ trials, IsCost e.fitness := by
      intro e he
      rcases List.mem_append.mp he with he | he
      · exact hdone e he
      · exact hcosts e (List.mem_append_left _ he)
    have hnext : Leads start (done ++ trials) (trials.foldl lead l) := hleads.foldl hstart hboth
    cases t with
    | zero =>
      obtain rfl := Option.some.inj hgen
      simpa using hnext
    | succ t =>
      rw [List.take_succ_cons, List.flatMap_cons, ← List.append_assoc]
      exact ih hrest hnext hboth (fun e he => hcosts e (List.mem_append_right _ he)) hgen

/-! ## Refinements -/

/-- The trials of the first rounds, in the order in which they were made. -/
def Refinement.trialsOf (r : Refinement K S R) (rounds : Nat) : List (Trial K S R) :=
  (r.generations.take rounds).flatMap Generation.trials

omit [Scalar K] in
theorem length_grid {G : Type} (source : Source G K) (columns n : Nat) (g : G) :
    (source.grid columns n g).1.length = n := by
  induction n generalizing g with
  | zero => rfl
  | succ n ih => simp [Source.grid, ih]

/-- What a refinement does: it leaves a candidate without a schedule alone, and refines
any other one in rounds that begin with it and with scattered particles. -/
theorem refine_cases {G : Type} {source : Source G K} {s : Solution K S R} {g g' : G}
    {r : Refinement K S R} (h : refine source P q modes s g = .ok (r, g')) :
    r.start = Leader.ofSolution P s ∧
      (s.schedule = [] ∧ r.generations = [] ∨
        s.schedule ≠ [] ∧ ∃ limit : Nat, P.maxSteps = .ok limit ∧
          generations P modes q limit (s.schedule.map Entry.mode) q.rounds
            (scatter source q.particles limit (s.schedule.map Entry.times) g).1
            (Leader.ofSolution P s) = .ok r.generations) := by
  unfold refine at h
  obtain ⟨-, -, h⟩ := Granted.bind.mp h
  cases hempty : s.schedule.isEmpty with
  | true =>
    simp only [hempty, if_true, Except.ok.injEq, Prod.mk.injEq] at h
    obtain ⟨rfl, -⟩ := h
    exact ⟨rfl, Or.inl ⟨List.isEmpty_iff.mp hempty, rfl⟩⟩
  | false =>
    have hschedule : s.schedule ≠ [] := by simpa using hempty
    simp only [hempty, Bool.false_eq_true, if_false] at h
    split at h
    · cases h
    · split at h
      · cases h
      · next limit hlimit =>
        obtain ⟨rounds, hrounds, h⟩ := Granted.bind.mp h
        have hpair := Except.ok.inj h
        simp only [Prod.mk.injEq] at hpair
        obtain ⟨rfl, -⟩ := hpair
        exact ⟨rfl, Or.inr ⟨hschedule, limit, hlimit, hrounds⟩⟩

theorem length_scatter {G : Type} (source : Source G K) (n : Nat) (limit : Int)
    (counts : List Nat) (g : G) : (scatter source n limit counts g).1.length = n := by
  simp [scatter, length_grid]

/-- What the rounds of a refinement keep of its trials. -/
structure Refinement.Tracked (P : Problem K S R A) (modes : List (Mode A)) (order : List Nat)
    (q : Parameters K) (start : Leader K S R) (r : Refinement K S R) : Prop where
  length : r.generations.length = q.rounds
  tried : ∀ gen ∈ r.generations, ∃ tried : List (Particle K), tried.length = q.particles ∧
    tried.mapM (trial P modes order) = .ok gen.trials
  leads : ∀ (t : Nat) (gen : Generation K S R), r.generations[t]? = some gen →
    Leads start (r.trialsOf (t + 1)) gen.leader

theorem refine_tracked [Scalar.Ordered K] {G : Type} {source : Source G K} {s : Solution K S R}
    {g g' : G} {r : Refinement K S R} (hschedule : s.schedule ≠ [])
    (h : refine source P q modes s g = .ok (r, g')) (hinput : IsCost (fitnessOf P s))
    (hcosts : ∀ e ∈ r.trialsOf q.rounds, IsCost e.fitness) :
    r.Tracked P modes (s.schedule.map Entry.mode) q (Leader.ofSolution P s) := by
  obtain ⟨-, ⟨hnil, -⟩ | ⟨-, limit, -, hgenerations⟩⟩ := refine_cases h
  · exact absurd hnil hschedule
  have hlength : r.generations.length = q.rounds := length_generations hgenerations
  have hempty : Leads (Leader.ofSolution P s) [] (Leader.ofSolution P s) := .start (by simp)
  constructor
  case length => exact hlength
  case tried =>
    rw [← length_scatter source q.particles limit (s.schedule.map Entry.times) g]
    exact generations_trials hgenerations
  case leads =>
    intro t gen hgen
    rw [Refinement.trialsOf, ← hlength, List.take_length] at hcosts
    exact generations_leads hgenerations hempty hinput (by simp) hcosts hgen

namespace Refinement.Tracked

variable {start : Leader K S R} {r : Refinement K S R}

/-- The cost of every trial is that of its candidate. -/
theorem fitness_eq (h : r.Tracked P modes order q start) (t : Nat) :
    ∀ e ∈ r.trialsOf t, e.fitness = fitnessOf P e.solution := by
  intro e he
  obtain ⟨gen, hgen, he⟩ := List.mem_flatMap.mp he
  obtain ⟨tried, -, htried⟩ := h.tried gen (List.mem_of_mem_take hgen)
  obtain ⟨p, -, hp⟩ := Granted.exists_of_mapM htried he
  exact (trial_cases hp).2.1

/-- The last round ends with the leader of the refinement. -/
theorem last (h : r.Tracked P modes order q start) (hrounds : 0 < q.rounds) :
    ∃ gen, r.generations.getLast? = some gen ∧ r.leader = gen.leader ∧
      Leads start (r.trialsOf q.rounds) r.leader := by
  obtain ⟨t, ht⟩ : ∃ t, q.rounds = t + 1 := ⟨q.rounds - 1, by omega⟩
  have hlt : t < r.generations.length := by
    rw [h.length]
    omega
  have hgen : r.generations[t]? = some r.generations[t] := List.getElem?_eq_getElem hlt
  have hlast : r.generations.getLast? = some r.generations[t] := by
    rw [List.getLast?_eq_getElem?, h.length, ht]
    exact hgen
  have hleader : r.leader = r.generations[t].leader := by rw [Refinement.leader, hlast]
  refine ⟨r.generations[t], hlast, hleader, ?_⟩
  rw [hleader, ht]
  exact h.leads t r.generations[t] hgen

variable [Scalar.Ordered K]

/-- Each entry of the history is the least cost so far. -/
theorem history_least (h : r.Tracked P modes order q start) (t : Nat) (best : Option K)
    (hbest : r.history[t]? = some best) :
    Least (start.fitness :: (r.trialsOf (t + 1)).map Trial.fitness) best := by
  rw [Refinement.history, List.getElem?_map, Option.map_eq_some_iff] at hbest
  obtain ⟨gen, hgen, rfl⟩ := hbest
  exact (h.leads t gen hgen).least

/-- The history never increases. -/
theorem history_pairwise (h : r.Tracked P modes order q start) :
    r.history.Pairwise fun earlier later => fitter earlier later = false := by
  refine List.pairwise_iff_getElem.mpr fun i j hi hj hij => ?_
  have hearlier := h.history_least i _ (List.getElem?_eq_getElem hi)
  have hlater := h.history_least j _ (List.getElem?_eq_getElem hj)
  -- What was tried up to a round was tried up to any later one.
  refine hlater.2 _ (List.cons_subset_cons _ (List.map_subset _ ?_) hearlier.1)
  intro e he
  obtain ⟨gen, hgen, he⟩ := List.mem_flatMap.mp he
  have hprefix : r.generations.take (i + 1) ⊆ r.generations.take (j + 1) :=
    (List.take_sublist_take_left (by omega)).subset
  exact List.mem_flatMap.mpr ⟨gen, hprefix hgen, he⟩

end Refinement.Tracked

/-- **A swarm knows its best.** A refinement has one entry in its history and one
valid count for each round, and each round replays as many particles as there are.
An entry of the history is the least of the candidate's cost and the costs of all
trials up to that round, so the history never increases; a valid count counts the
finite costs of its round. The best cost is the last entry and the cost of the
candidate returned. That is the given one if no trial costs less, or else the
earliest trial of the least cost. -/
theorem swarm_tracks_best {G K S R A : Type} [Scalar K] [Scalar.Ordered K] (source : Source G K)
    (P : Problem K S R A) (q : Parameters K) (hrounds : 0 < q.rounds) (modes : List (Mode A))
    (s : Solution K S R) (hschedule : s.schedule ≠ []) (g g' : G) (r : Refinement K S R)
    (h : refine source P q modes s g = .ok (r, g')) (hinput : IsCost (fitnessOf P s))
    (hcosts : ∀ e ∈ r.trialsOf q.rounds, IsCost e.fitness) :
    (∀ gen ∈ r.generations, ∃ tried : List (Particle K), tried.length = q.particles ∧
      tried.mapM (trial P modes (s.schedule.map Entry.mode)) = .ok gen.trials) ∧
    r.history.length = q.rounds ∧ r.validCounts.length = q.rounds ∧
    (∀ (t : Nat) (best : Option K), r.history[t]? = some best →
      Least (fitnessOf P s :: (r.trialsOf (t + 1)).map Trial.fitness) best) ∧
    (r.history.Pairwise fun earlier later => fitter earlier later = false) ∧
    (∀ (t count : Nat), r.validCounts[t]? = some count → ∃ gen ∈ r.generations[t]?,
      count = gen.trials.countP fun e => finite e.fitness) ∧
    r.history.getLast? = some r.leader.fitness ∧ r.leader.fitness = fitnessOf P r.solution ∧
    ((∀ e ∈ r.trialsOf q.rounds, fitter e.fitness (fitnessOf P s) = false) → r.solution = s) ∧
    ((∃ e ∈ r.trialsOf q.rounds, fitter e.fitness (fitnessOf P s) = true) →
      ∃ early e late, r.trialsOf q.rounds = early ++ e :: late ∧ r.solution = e.solution ∧
        e.fitness = r.leader.fitness ∧ ∀ d ∈ early, fitter e.fitness d.fitness = true) := by
  have htracked := refine_tracked hschedule h hinput hcosts
  obtain ⟨gen, hlast, hleader, hfinal⟩ := htracked.last hrounds
  refine ⟨htracked.tried, by simp [Refinement.history, htracked.length],
    by simp [Refinement.validCounts, htracked.length], htracked.history_least,
    htracked.history_pairwise, ?_, ?_, hfinal.fitness_eq rfl (htracked.fitness_eq q.rounds), ?_, ?_⟩
  · intro t count hcount
    rw [Refinement.validCounts, List.getElem?_map, Option.map_eq_some_iff] at hcount
    obtain ⟨gen, hgen, rfl⟩ := hcount
    exact ⟨gen, hgen, rfl⟩
  · rw [Refinement.history, List.getLast?_map, hlast, hleader]
    rfl
  · intro hnone
    rw [Refinement.solution, hfinal.eq_start hnone]
    rfl
  · intro hsome
    obtain ⟨early, e, late, hsplit, hbest, hearly⟩ := hfinal.exists_earliest hsome
    refine ⟨early, e, late, hsplit, ?_, ?_, hearly⟩
    · rw [Refinement.solution, hbest]
      rfl
    · rw [hbest]
      rfl

/-! ## A swarm of two particles -/

/-- A target four units away that counts as reached from one unit on. -/
def sampleSettings : Settings Rat Rat :=
  { Rate.sampleSettings with targetState := 4, timeMax := 6 }

/-- Two particles that move between three rounds. -/
def sampleParameters : Parameters Rat :=
  { particles := 2, rounds := 3, inertia := 1 / 2, cognitive := 2 / 5, social := 4 / 5 }

/-- Four steps of half a unit and two of a unit. -/
def sampleCandidate : Rate.Candidate Rat :=
  { schedule := [⟨1, 4⟩, ⟨0, 2⟩], state := 31 / 10, resources := ⟨31 / 10, 51 / 10⟩
    distance := some (9 / 10) }

/-- A source that draws nine once and then always one. -/
def sampleSource : Source Nat Rat := ⟨fun drawn => (if drawn = 0 then 9 else 1, drawn + 1)⟩

/-- Neither particle is better than the candidate at first. Both move towards it, and so the
second one comes by a place that is. -/
theorem sample_refine : ∃ r g, refine sampleSource (Rate.problem sampleSettings)
      sampleParameters Rate.sampleModes sampleCandidate 0 = .ok (r, g) ∧
    (r.history, r.validCounts, r.solution.schedule) =
      ([some (41 / 5), some (227 / 30), some (227 / 30)], [1, 2, 1], [⟨1, 3⟩, ⟨0, 2⟩]) ∧
    (r.generations.map fun round => round.trials.map Trial.counts) =
      [[[6, 1], [1, 1]], [[4, 2], [3, 2]], [[2, 2], [4, 2]]] := by
  have h : (refine sampleSource (Rate.problem sampleSettings) sampleParameters
      Rate.sampleModes sampleCandidate 0).map
        (fun x => ((x.1.history, x.1.validCounts, x.1.solution.schedule),
          x.1.generations.map fun round => round.trials.map Trial.counts)) =
      .ok (([some (41 / 5), some (227 / 30), some (227 / 30)], [1, 2, 1], [⟨1, 3⟩, ⟨0, 2⟩]),
        [[[6, 1], [1, 1]], [[4, 2], [3, 2]], [[2, 2], [4, 2]]]) := by cbv
  obtain ⟨⟨r, g⟩, hr, hseen⟩ := Granted.map.mp h
  exact ⟨r, g, hr, Prod.mk.inj hseen⟩

theorem swarm_tracks_best_sample : ∃ r g, refine sampleSource (Rate.problem sampleSettings)
      sampleParameters Rate.sampleModes sampleCandidate 0 = .ok (r, g) ∧
    r.solution.schedule = [⟨1, 3⟩, ⟨0, 2⟩] ∧
    (r.generations.map fun round => round.trials.map Trial.counts) =
      [[[6, 1], [1, 1]], [[4, 2], [3, 2]], [[2, 2], [4, 2]]] ∧
    Least (fitnessOf (Rate.problem sampleSettings) sampleCandidate ::
      (r.trialsOf 3).map Trial.fitness) (some (227 / 30)) ∧
    fitnessOf (Rate.problem sampleSettings) r.solution = some (227 / 30) := by
  obtain ⟨r, g, hr, hseen, hcounts⟩ := sample_refine
  simp only [Prod.mk.injEq] at hseen
  obtain ⟨hhistory, -, hschedule⟩ := hseen
  obtain ⟨-, -, -, hleast, -, -, hlast, hfitness, -⟩ :=
    swarm_tracks_best sampleSource (Rate.problem sampleSettings) sampleParameters (by decide)
      Rate.sampleModes sampleCandidate (by simp [sampleCandidate]) 0 g r hr
      (fun x _ => Scalar.isNumber_rat x) (fun e _ x _ => Scalar.isNumber_rat x)
  refine ⟨r, g, hr, hschedule, hcounts, hleast 2 _ (by rw [hhistory]; rfl), ?_⟩
  rw [← hfitness]
  rw [hhistory] at hlast
  exact (Option.some.inj hlast).symm

end ModeSchedule.Swarm
