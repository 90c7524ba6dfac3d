/-
ModeSchedule.Proofs.Swarm.Box — the counts that a swarm tries.

Every count of a particle lies in a box, from one up to the steps that the horizon
holds, or it is lost on its way through the number type and its particle is never
replayed (`toCount_boxed`). Scattering puts particles into the box, and every round
leaves them there (`scatter_inBox`, `moved_inBox`), so each trial of a refinement
replays a schedule with counts in the box (`refine_inBox`).

The leader is the given candidate or one of the trials (`refine_origin`). A replay in
the box takes a step, so what a measured and complete candidate is refined to is measured
and complete (`refine_arrived`).

The box bounds each count by itself: `refinement_in_box` is what that says about the
steps of a refined candidate, and `horizon_left` is a refinement that takes more steps
than the horizon holds.
-/
import ModeSchedule.Proofs.Canonical
import ModeSchedule.Proofs.Counting
import ModeSchedule.Proofs.Simulation.Measuring
import ModeSchedule.Proofs.Swarm.Improvement

namespace ModeSchedule.Swarm

variable {K S R A : Type} [Scalar K]

/-! ## The box -/

/-- A count from one up to the limit, or one that is lost. -/
def Boxed (limit : Nat) (n : Int) : Prop := n < 0 ∨ 1 ≤ n ∧ n ≤ limit

theorem maxSteps_pos {P : Problem K S R A} {limit : Nat} (h : P.maxSteps = .ok limit) :
    1 ≤ limit := by
  obtain ⟨n, -, rfl⟩ := Granted.map.mp h
  exact le_max_left 1 n

section

variable [Scalar.Counting K]

/-- The steps that the horizon holds are counted as they are, or not at all. -/
theorem asCount_maxSteps {P : Problem K S R A} {limit : Nat} (h : P.maxSteps = .ok limit) :
    Scalar.asCount K limit = limit ∨ Scalar.asCount K limit < 0 := by
  obtain ⟨n, hn, rfl⟩ := Granted.map.mp h
  obtain ⟨i, hi, rfl⟩ := Granted.map.mp hn
  by_cases hsmall : i ≤ 1
  · have hone : max 1 i.toNat = 1 := by omega
    rw [hone, Int.natCast_one]
    exact Or.inl Scalar.Counting.asCount_one
  · have hlimit : ((max 1 i.toNat : Nat) : Int) = i := by omega
    rw [hlimit]
    obtain ⟨q, hq, hfloor⟩ := Scalar.truncate_eq_floor hi (by omega)
    rw [← hfloor] at hsmall ⊢
    exact Scalar.Counting.asCount_floor hq (by omega)

/-- A rule that picks integers which are counted as they are, or not at all. -/
def Kept (K : Type) [Scalar K] (rule : Rat → Int) : Prop :=
  ∀ {x : K} {q : Rat}, Scalar.exact x = .finite q → 0 < rule q →
    Scalar.asCount K (rule q) = rule q ∨ Scalar.asCount K (rule q) < 0

theorem clamp_boxed {P : Problem K S R A} {limit : Nat} (h : P.maxSteps = .ok limit) {n : Int}
    (hn : 0 < n → Scalar.asCount K n = n ∨ Scalar.asCount K n < 0) :
    Boxed limit (Scalar.asCount K (clamp limit n)) := by
  have hpos := maxSteps_pos h
  by_cases hlow : n ≤ 1
  · have hone : clamp limit n = 1 := by
      unfold clamp
      omega
    rw [hone, Scalar.Counting.asCount_one]
    exact Or.inr ⟨le_refl 1, by omega⟩
  · by_cases hhigh : limit ≤ n
    · have hlimit : clamp limit n = limit := by
        unfold clamp
        omega
      rw [hlimit]
      rcases asCount_maxSteps h with hkept | hlost
      · exact Or.inr (by omega)
      · exact Or.inl hlost
    · have hsame : clamp limit n = n := by
        unfold clamp
        omega
      rw [hsame]
      rcases hn (by omega) with hkept | hlost
      · exact Or.inr (by omega)
      · exact Or.inl hlost

theorem toCount_boxed {P : Problem K S R A} {limit : Nat} (h : P.maxSteps = .ok limit)
    {rule : Rat → Int} (hrule : Kept K rule) (x : K) : Boxed limit (toCount rule limit x) := by
  unfold toCount
  split
  · next q hq => exact clamp_boxed h (hrule hq)
  · next negative _ =>
    cases negative with
    | true => exact clamp_boxed h fun _ => Or.inl Scalar.Counting.asCount_one
    | false =>
      rcases asCount_maxSteps h with hkept | hlost
      · have hpos := maxSteps_pos h
        simp only [Bool.false_eq_true, if_false, hkept]
        exact Or.inr (by omega)
      · exact Or.inl hlost
  · exact Or.inl (by decide)

end

/-! ## Particles -/

/-- A particle with a number of counts, all of them in the box. -/
structure Particle.InBox (limit columns : Nat) (p : Particle K) : Prop where
  length : p.genes.length = columns
  boxed : ∀ n ∈ p.counts, Boxed limit n

omit [Scalar K] in
theorem length_row {G : Type} (source : Source G K) (n : Nat) (g : G) :
    (source.row n g).1.length = n := by
  induction n generalizing g with
  | zero => rfl
  | succ n ih => simp [Source.row, ih]

omit [Scalar K] in
theorem length_of_mem_grid {G : Type} (source : Source G K) (columns n : Nat) (g : G) :
    ∀ row ∈ (source.grid columns n g).1, row.length = columns := by
  induction n generalizing g with
  | zero => simp [Source.grid]
  | succ n ih =>
    intro row hrow
    rcases List.mem_cons.mp hrow with rfl | hrow
    · exact length_row source columns g
    · exact ih _ row hrow

variable {P : Problem K S R A} {limit : Nat} {q : Parameters K} {modes : List (Mode A)}
  {order : List Nat} {columns n : Nat} {particles : List (Particle K)} {l : Leader K S R}
  {trials : List (Trial K S R)} {gens : List (Generation K S R)}

section

variable [Scalar.Counting K]

/-- Scattered particles are in the box. -/
theorem scatter_inBox (h : P.maxSteps = .ok limit) {G : Type} (source : Source G K)
    (counts : List Nat) (g : G) :
    ∀ p ∈ (scatter source n limit counts g).1, p.InBox limit counts.length := by
  intro p hp
  obtain ⟨row, hrow, rfl⟩ := List.mem_map.mp hp
  have hlength := length_of_mem_grid source counts.length n g row hrow
  constructor
  case length => simp [Particle.scatter, hlength]
  case boxed =>
    intro c hc
    obtain ⟨gene, hgene, rfl⟩ := List.mem_map.mp hc
    obtain ⟨i, hi, rfl⟩ := List.mem_iff_getElem.mp hgene
    simp only [Particle.scatter, List.getElem_zipWith]
    exact toCount_boxed h Scalar.Counting.asCount_floor _

/-- A move ends in the box. -/
theorem move_inBox (h : P.maxSteps = .ok limit) {leader : List Int}
    (hleader : leader.length = columns) {p : Particle K} (hp : p.genes.length = columns) :
    (p.move q limit leader).InBox limit columns := by
  constructor
  case length => simp [Particle.move, hleader, hp]
  case boxed =>
    intro c hc
    obtain ⟨gene, hgene, rfl⟩ := List.mem_map.mp hc
    obtain ⟨i, hi, rfl⟩ := List.mem_iff_getElem.mp hgene
    simp only [Particle.move, List.getElem_zipWith]
    exact toCount_boxed h Scalar.Counting.asCount_nearestEven _

omit [Scalar.Counting K] in
theorem remember_length (t : Trial K S R) (p : Particle K) :
    (remember t p).genes.length = p.genes.length := by
  unfold remember
  split <;> simp

/-- The particles after a round are in the box. -/
theorem moved_inBox (h : P.maxSteps = .ok limit) (hl : l.counts.length = columns)
    (hparticles : ∀ p ∈ particles, p.InBox limit columns) :
    ∀ p ∈ moved q limit l trials particles, p.InBox limit columns := by
  intro p hp
  obtain ⟨r, hr, rfl⟩ := List.mem_map.mp hp
  obtain ⟨i, hi, rfl⟩ := List.mem_iff_getElem.mp hr
  refine move_inBox h hl ?_
  rw [List.getElem_zipWith, remember_length]
  exact (hparticles _ (List.getElem_mem _)).length

end

/-! ## Trials -/

/-- The candidate is the end of a replay of the modes, each for a number of steps from
the box. -/
def ReplaysInBox (P : Problem K S R A) (modes : List (Mode A)) (limit : Nat) (order : List Nat)
    (t : Solution K S R) : Prop :=
  ∃ schedule run, schedule.map Entry.mode = order ∧
    (∀ e ∈ schedule, 1 ≤ e.times ∧ e.times ≤ limit) ∧
    Run.replay P modes schedule = .ok run ∧ run.solution = t

/-- The schedule of a particle has its counts. -/
theorem withCounts?_eq {counts : List Int} {schedule : Schedule}
    (h : withCounts? order counts = some schedule) :
    schedule.map (fun e => (e.mode, (e.times : Int))) = order.zip counts := by
  unfold withCounts? at h
  generalize order.zip counts = pairs at h ⊢
  induction pairs generalizing schedule with
  | nil =>
    obtain rfl : [] = schedule := by simpa using h
    rfl
  | cons x pairs ih =>
    rw [List.mapM_cons] at h
    obtain ⟨e, he, h⟩ := Option.bind_eq_some_iff.mp h
    obtain ⟨rest, hrest, h⟩ := Option.bind_eq_some_iff.mp h
    obtain rfl : e :: rest = schedule := Option.some.inj h
    split at he
    · cases he
    · next hx =>
      obtain rfl := Option.some.inj he
      rw [List.map_cons, ih hrest]
      simp only [List.cons.injEq, and_true]
      exact Prod.ext rfl (Int.toNat_of_nonneg (by omega))

/-- A particle in the box is replayed in the box, if it is replayed at all. -/
theorem trial_inBox {p : Particle K} {e : Trial K S R} (hp : p.InBox limit order.length)
    (h : trial P modes order p = .ok e) :
    ReplaysInBox P modes limit order e.solution := by
  obtain ⟨-, -, schedule, run, hschedule, hrun, hsolution⟩ := trial_cases h
  have hlength : p.counts.length = order.length := by simpa [Particle.counts] using hp.length
  have heq := withCounts?_eq hschedule
  refine ⟨schedule, run, ?_, ?_, hrun, hsolution⟩
  · have hfst := congrArg (List.map Prod.fst) heq
    rw [List.map_map, List.map_fst_zip hlength.ge] at hfst
    exact hfst
  · intro entry hentry
    have hmem : (entry.mode, (entry.times : Int)) ∈ order.zip p.counts := by
      rw [← heq]
      exact List.mem_map_of_mem hentry
    rcases hp.boxed _ (List.of_mem_zip hmem).2 with hlost | hkept
    · omega
    · omega

/-! ## Rounds -/

theorem isSome_of_fitter {a b : Option K} (h : fitter a b = true) : a.isSome = true := by
  cases a with
  | none => simp [fitter] at h
  | some x => rfl

/-- After a round, the leader is the one before it or one of its trials, of some cost. -/
theorem foldl_lead_cases (trials : List (Trial K S R)) (l : Leader K S R) :
    trials.foldl lead l = l ∨
      ∃ e ∈ trials, e.fitness.isSome = true ∧ trials.foldl lead l = e.asLeader := by
  induction trials generalizing l with
  | nil => exact Or.inl rfl
  | cons t trials ih =>
    rw [List.foldl_cons]
    rcases ih (lead l t) with hlead | ⟨e, he, hcost, hlead⟩
    · rw [hlead]
      cases hfitter : fitter t.fitness l.fitness with
      | true =>
        have hcost := isSome_of_fitter hfitter
        exact Or.inr ⟨t, List.mem_cons_self, hcost, lead_of_fitter hfitter⟩
      | false => exact Or.inl (lead_of_not_fitter hfitter)
    · exact Or.inr ⟨e, List.mem_cons_of_mem t he, hcost, hlead⟩

/-- The leader of a round is the first one or one of the trials so far, of some cost. -/
theorem generations_origin (h : generations P modes q limit order n particles l = .ok gens) :
    ∀ gen ∈ gens, gen.leader = l ∨
      ∃ other ∈ gens, ∃ e ∈ other.trials, e.fitness.isSome = true ∧ gen.leader = e.asLeader := by
  induction n generalizing particles l gens with
  | zero =>
    obtain rfl := Except.ok.inj h
    simp
  | succ n ih =>
    obtain ⟨trials, rest, -, -, hrest, rfl⟩ := generations_succ h
    have hfirst : trials.foldl lead l = l ∨
        ∃ other ∈ (⟨trials, trials.foldl lead l⟩ :: rest : List (Generation K S R)),
          ∃ e ∈ other.trials, e.fitness.isSome = true ∧ trials.foldl lead l = e.asLeader :=
      (foldl_lead_cases trials l).imp_right fun htrial => ⟨_, List.mem_cons_self, htrial⟩
    intro gen hgen
    rcases List.mem_cons.mp hgen with rfl | hgen
    · exact hfirst
    · rcases ih hrest gen hgen with hlead | ⟨other, hother, htrial⟩
      · rwa [hlead]
      · exact Or.inr ⟨other, List.mem_cons_of_mem _ hother, htrial⟩

/-- After a round, the leader still has as many counts as the particles have genes. -/
theorem length_foldl_lead (hl : l.counts.length = columns)
    (hparticles : ∀ p ∈ particles, p.genes.length = columns)
    (htrials : particles.mapM (trial P modes order) = .ok trials) :
    (trials.foldl lead l).counts.length = columns := by
  rcases foldl_lead_cases trials l with hlead | ⟨e, he, -, hlead⟩
  · rw [hlead, hl]
  · obtain ⟨p, hp, htrial⟩ := Granted.exists_of_mapM htrials he
    rw [hlead, Trial.asLeader, (trial_cases htrial).1, Particle.counts, List.length_map,
      hparticles p hp]

/-- Every trial of every round is a replay in the box. -/
theorem generations_inBox [Scalar.Counting K] (hlimit : P.maxSteps = .ok limit)
    (h : generations P modes q limit order n particles l = .ok gens)
    (hl : l.counts.length = order.length)
    (hparticles : ∀ p ∈ particles, p.InBox limit order.length) :
    ∀ gen ∈ gens, ∀ e ∈ gen.trials, ReplaysInBox P modes limit order e.solution := by
  intro gen hgen e he
  obtain ⟨t, ht⟩ := List.mem_iff_getElem?.mp hgen
  obtain ⟨-, -, hpopulation⟩ := population_induction
    (motive := fun particles l =>
      l.counts.length = order.length ∧ ∀ p ∈ particles, p.InBox limit order.length)
    (fun hround htrials => by
      have hleader := length_foldl_lead hround.1 (fun p hp => (hround.2 p hp).length) htrials
      exact ⟨hleader, moved_inBox hlimit hleader hround.2⟩)
    h ⟨hl, hparticles⟩ t
  obtain ⟨p, hp, htrial⟩ := Granted.exists_of_mapM (generations_population h ht) he
  exact trial_inBox (hpopulation p hp) htrial

/-! ## Refinements -/

variable {G : Type} {source : Source G K} {s : Solution K S R} {g g' : G} {r : Refinement K S R}

/-- A candidate of some cost is complete. -/
theorem complete_of_isSome (h : (fitnessOf P s).isSome = true) : P.complete s = true := by
  unfold fitnessOf at h
  split at h
  · assumption
  · cases h

/-- A refinement ends with the given candidate or with one of its trials that is
complete. -/
theorem refine_origin (h : refine source P q modes s g = .ok (r, g')) :
    r.solution = s ∨ ∃ gen ∈ r.generations, ∃ e ∈ gen.trials, P.complete e.solution = true ∧
      r.solution = e.solution := by
  obtain ⟨hstart, hcases⟩ := refine_cases h
  unfold Refinement.solution Refinement.leader
  cases hlast : r.generations.getLast? with
  | none =>
    simp only [hstart]
    exact Or.inl rfl
  | some gen =>
    have hgen := List.mem_of_getLast? hlast
    rcases hcases with ⟨-, hnone⟩ | ⟨-, limit, -, hgenerations⟩
    · rw [hnone] at hgen
      cases hgen
    · rcases generations_origin hgenerations gen hgen with
        hlead | ⟨other, hother, e, he, hcost, hlead⟩
      · simp only [hlead]
        exact Or.inl rfl
      · obtain ⟨tried, -, htried⟩ := generations_trials hgenerations other hother
        obtain ⟨p, -, htrial⟩ := Granted.exists_of_mapM htried he
        rw [(trial_cases htrial).2.1] at hcost
        simp only [hlead]
        exact Or.inr ⟨other, hother, e, he, complete_of_isSome hcost, rfl⟩

/-- Every trial of a refinement is a replay in the box. -/
theorem refine_inBox [Scalar.Counting K] (h : refine source P q modes s g = .ok (r, g')) :
    ∀ gen ∈ r.generations, ∀ e ∈ gen.trials, ∃ limit, P.maxSteps = .ok limit ∧
      ReplaysInBox P modes limit (s.schedule.map Entry.mode) e.solution := by
  obtain ⟨-, ⟨-, hnone⟩ | ⟨-, limit, hlimit, hgenerations⟩⟩ := refine_cases h
  · simp [hnone]
  · have hleader : (Leader.ofSolution P s).counts.length = (s.schedule.map Entry.mode).length := by
      simp [Leader.ofSolution]
    have hscattered : ∀ p ∈ (scatter source q.particles limit (s.schedule.map Entry.times) g).1,
        p.InBox limit (s.schedule.map Entry.mode).length := by
      intro p hp
      have hp := scatter_inBox hlimit source (s.schedule.map Entry.times) g p hp
      rwa [List.length_map] at hp ⊢
    intro gen hgen e he
    exact ⟨limit, hlimit, generations_inBox hlimit hgenerations hleader hscattered gen hgen e he⟩

/-- A replay in the box takes a step, so it ends with a measured candidate. -/
theorem ReplaysInBox.measured (hP : P.Measures) {t : Solution K S R} (horder : order ≠ [])
    (h : ReplaysInBox P modes limit order t) : Measured P t := by
  obtain ⟨schedule, run, rfl, hcounts, hrun, rfl⟩ := h
  refine Run.replay_measured hP (fun hnone => ?_) hrun
  cases schedule with
  | nil => exact horder rfl
  | cons e schedule =>
    have hpos := (hcounts e List.mem_cons_self).1
    have hlength := congrArg List.length hnone
    simp only [Schedule.steps_cons, List.length_append, List.length_replicate,
      List.length_nil] at hlength
    omega

/-- What refines a measured and complete candidate is measured and complete. -/
theorem refine_arrived [Scalar.Counting K] (hP : P.Measures) (hs : Arrived P s)
    (h : refine source P q modes s g = .ok (r, g')) : Arrived P r.solution := by
  rcases refine_origin h with hsame | ⟨gen, hgen, e, he, hcomplete, hsolution⟩
  · rwa [hsame]
  · rw [hsolution]
    obtain ⟨limit, -, hreplays⟩ := refine_inBox h gen hgen e he
    have hschedule : s.schedule.map Entry.mode ≠ [] := by
      rcases (refine_cases h).2 with ⟨-, hnone⟩ | ⟨hschedule, -⟩
      · rw [hnone] at hgen
        cases hgen
      · simpa using hschedule
    exact ⟨hreplays.measured hP hschedule, hcomplete⟩

omit [Scalar K] in
theorem totalSteps_le {schedule : Schedule} (h : ∀ e ∈ schedule, e.times ≤ limit) :
    schedule.totalSteps ≤ limit * schedule.length := by
  induction schedule with
  | nil => simp [Schedule.totalSteps]
  | cons e schedule ih =>
    have hfirst := h e List.mem_cons_self
    have hrest := ih fun f hf => h f (List.mem_cons_of_mem e hf)
    rw [Schedule.totalSteps, List.length_cons, Nat.mul_succ]
    omega

/-- A replay in the box takes at most as many steps as the box allows each mode. -/
theorem ReplaysInBox.totalSteps_le (hP : P.Orderly) {t : Solution K S R}
    (h : ReplaysInBox P modes limit order t) : t.schedule.totalSteps ≤ limit * order.length := by
  obtain ⟨schedule, run, rfl, hcounts, hrun, rfl⟩ := h
  obtain ⟨hrange, rfl⟩ := Run.replay_eq_ok.mp hrun
  have hsteps : (Run.walk P modes schedule.steps P.start).solution.schedule.steps = _ :=
    Run.walk_schedule_steps hP schedule.steps P.start
  rw [Run.follow_eq_walk hrange, Schedule.totalSteps_eq_length, hsteps, List.length_append,
    List.length_take, List.length_map]
  have hstart : P.start.schedule.steps.length = 0 := rfl
  have hall := Swarm.totalSteps_le fun e he => (hcounts e he).2
  rw [Schedule.totalSteps_eq_length] at hall
  omega

/-- **A swarm stays in its box.** Every trial of a refinement replays the modes of the
given candidate in their order, each for a number of steps from one up to what the
horizon holds. The refinement ends with the given candidate, or with such a replay: it
takes at most as many steps as the horizon holds for each entry, so it stays within
the horizon if there is one entry. As long as all costs are numbers, the given
candidate is given up only for a lower cost. The one-dimensional domain is orderly, and
both rationals and doubles count. -/
theorem refinement_in_box :
    (∀ {K : Type} [Scalar K] (settings : Settings K K), (Rate.problem settings).Orderly) ∧
    ∀ {G K S R A : Type} [Scalar K] [Scalar.Counting K] (source : Source G K)
      (P : Problem K S R A) (_ : P.Orderly) (q : Parameters K) (modes : List (Mode A))
      (s : Solution K S R) (g g' : G) (r : Refinement K S R)
      (_ : refine source P q modes s g = .ok (r, g')),
      (∀ gen ∈ r.generations, ∀ e ∈ gen.trials, ∃ limit, P.maxSteps = .ok limit ∧
        ReplaysInBox P modes limit (s.schedule.map Entry.mode) e.solution) ∧
      (r.solution = s ∨ ∃ limit, P.maxSteps = .ok limit ∧
        ReplaysInBox P modes limit (s.schedule.map Entry.mode) r.solution) ∧
      (∀ limit, P.maxSteps = .ok limit → s.schedule.totalSteps ≤ limit →
        r.solution.schedule.totalSteps ≤ limit * max 1 s.schedule.length) ∧
      ∀ [Scalar.Ordered K], IsCost (fitnessOf P s) →
        (∀ e ∈ r.trialsOf q.rounds, IsCost e.fitness) →
        r.solution = s ∨ fitter (fitnessOf P r.solution) (fitnessOf P s) = true := by
  refine ⟨fun settings => (Rate.problem_local settings).orderly, ?_⟩
  intro G K S R A _ _ source P hP q modes s g g' r h
  have htrials := refine_inBox h
  have hend : r.solution = s ∨ ∃ limit, P.maxSteps = .ok limit ∧
      ReplaysInBox P modes limit (s.schedule.map Entry.mode) r.solution := by
    rcases refine_origin h with hsame | ⟨gen, hgen, e, he, -, hsolution⟩
    · exact Or.inl hsame
    · rw [hsolution]
      exact Or.inr (htrials gen hgen e he)
  refine ⟨htrials, hend, ?_, ?_⟩
  · intro limit hlimit hwithin
    rcases hend with hsame | ⟨limit', hlimit', hreplays⟩
    · rw [hsame]
      exact hwithin.trans (Nat.le_mul_of_pos_right limit (by omega))
    · obtain rfl : limit = limit' := Except.ok.inj (hlimit.symm.trans hlimit')
      have hle := hreplays.totalSteps_le hP
      rw [List.length_map] at hle
      exact hle.trans (Nat.mul_le_mul_left limit (le_max_right 1 _))
  · intro _ hinput hcosts
    obtain ⟨hleads, hfitness⟩ := refine_leads h hinput hcosts
    rw [← hfitness, Refinement.solution]
    generalize r.leader = l at hleads
    cases hleads with
    | start => exact Or.inl rfl
    | trial _ hbetter => exact Or.inr hbetter

/-! ## A refinement beyond the horizon -/

/-- A horizon of five steps, and a target that counts as reached from half a unit on. -/
def steepSettings : Settings Float Float :=
  { initialState := 0, targetState := 9, timeDelta := 1, timeMax := 5, threshold := 0.5 }

/-- Two expensive modes, back and forth, and a cheap one. -/
def steepModes : List (Mode Float) := [⟨0, -10⟩, ⟨1, 14⟩, ⟨2, 1⟩]

/-- One particle that is tried once. -/
def singleTrial : Parameters Float :=
  { particles := 1, rounds := 1, inertia := 0.2, cognitive := 0.4, social := 0.4 }

/-- Five steps, four of them expensive. -/
def steepCandidate : Rate.Candidate Float :=
  { schedule := [⟨0, 2⟩, ⟨1, 2⟩, ⟨2, 1⟩], state := 8.55, resources := ⟨48.55, 4.55⟩
    distance := some 0.4499999999999993 }

/-- Fewer expensive steps and more cheap ones cost less and take seven steps. -/
theorem steep_solution : ∃ r, solution (some (Rate.problem steepSettings)) singleTrial steepModes
      steepCandidate (.listed [4.0, 4.0, 9.0]) = .ok r ∧
    r.solution.schedule = [⟨0, 1⟩, ⟨1, 1⟩, ⟨2, 5⟩] := by
  refine Granted.map.mp ?_
  decide +kernel

/-- What a request for one candidate refines. -/
theorem refine_of_solution {S R A : Type} {P : Problem Float S R A} {q : Parameters Float}
    {modes : List (Mode A)} {s : Solution Float S R} {plan : DrawPlan} {r : Refinement Float S R}
    (h : solution (some P) q modes s plan = .ok r) :
    ∃ g g', Generator.ofPlan? plan = some g ∧
      refine Generator.source P q modes s g = .ok (r, g') := by
  unfold solution at h
  obtain ⟨_, hP, h⟩ := Granted.bind.mp h
  obtain rfl := Except.ok.inj hP
  obtain ⟨g, hg, h⟩ := Granted.bind.mp h
  obtain ⟨⟨r, g'⟩, hr, h⟩ := Granted.bind.mp h
  obtain rfl := Except.ok.inj h
  refine ⟨g, g', ?_, hr⟩
  unfold requireGenerator at hg
  split at hg
  · next hplan => rw [hplan, Except.ok.inj hg]
  · cases hg

theorem refinement_in_box_sample : ∃ g g' r,
    refine Generator.source (Rate.problem steepSettings) singleTrial steepModes steepCandidate g =
      .ok (r, g') ∧
    r.solution.schedule = [⟨0, 1⟩, ⟨1, 1⟩, ⟨2, 5⟩] ∧ r.solution.schedule.totalSteps ≤ 5 * 3 := by
  obtain ⟨r, hr, hschedule⟩ := steep_solution
  obtain ⟨g, g', -, hrefine⟩ := refine_of_solution hr
  have hwithin := (refinement_in_box.2 Generator.source (Rate.problem steepSettings)
    (refinement_in_box.1 steepSettings) singleTrial steepModes steepCandidate g g' r hrefine).2.2.1
  exact ⟨g, g', r, hrefine, hschedule, hwithin 5 (by decide +kernel) (by decide)⟩

/-- A refinement does not stay within the horizon. -/
theorem horizon_left : ¬∀ (settings : Settings Float Float) (q : Parameters Float)
    (modes : List (Mode Float)) (s : Rate.Candidate Float) (plan : DrawPlan)
    (r : Refinement Float Float (Usage Float)) (limit : Nat),
    (Rate.problem settings).maxSteps = .ok limit → (Rate.problem settings).complete s = true →
    s.schedule.totalSteps ≤ limit →
    solution (some (Rate.problem settings)) q modes s plan = .ok r →
    r.solution.schedule.totalSteps ≤ limit := by
  intro hstays
  obtain ⟨r, hr, hschedule⟩ := steep_solution
  have hfive := hstays steepSettings singleTrial steepModes steepCandidate _ r 5
    (by decide +kernel) (by decide +kernel) (by decide) hr
  rw [hschedule] at hfive
  exact absurd hfive (by decide)

end ModeSchedule.Swarm
