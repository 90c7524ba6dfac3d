/-
ModeSchedule.Proofs.Swarm.Population — where the particles of a swarm are.

Exact counts are never lost, so with them the box of a particle is what it says: every count, and
every best one so far, is from one up to the limit (`Particle.Within`). Scattering with draws from
one up to ten moves a count by at most four before it is kept in the box (`jittered_near`). A round
leaves the particles, and as many counts of the leader as there are entries, where they are
(`Confined.moved`), however fast the particles fly; so every population of a refinement stays in
the box (`Confined.population`).

What a refinement returns is no particle but what the replay of one noted, and that may stop early.
The steps noted begin those of the particle, so the modes noted begin those of the given schedule
(`ReplaysInBox.shape`). `swarm_stays_in_box` is the statement for refinements.
-/
import ModeSchedule.Proofs.Simulation.Normalization
import ModeSchedule.Proofs.Swarm.Box

namespace ModeSchedule

namespace Source

variable {G K : Type} {source : Source G K} {p : K → Prop}

/-- What holds of every draw holds of every number in a row of them. -/
theorem forall_mem_row (h : ∀ g, p (source.draw g).1) (n : Nat) (g : G) :
    ∀ x ∈ (source.row n g).1, p x := by
  induction n generalizing g with
  | zero => simp [row]
  | succ n ih =>
    intro x hx
    rcases List.mem_cons.mp hx with rfl | hx
    · exact h g
    · exact ih _ x hx

theorem forall_mem_grid (h : ∀ g, p (source.draw g).1) (columns n : Nat) (g : G) :
    ∀ row ∈ (source.grid columns n g).1, ∀ x ∈ row, p x := by
  induction n generalizing g with
  | zero => simp [grid]
  | succ n ih =>
    intro row hrow
    rcases List.mem_cons.mp hrow with rfl | hrow
    · exact forall_mem_row h columns g
    · exact ih _ row hrow

end Source

namespace Swarm

/-! ## The box of exact counts -/

variable {limit columns count : Nat}

theorem clamp_mem (h : 1 ≤ limit) (n : Int) : clamp limit n ∈ Set.Icc (1 : Int) limit := by
  have hlimit : (1 : Int) ≤ limit := by exact_mod_cast h
  exact ⟨le_min (le_max_right n 1) hlimit, min_le_right _ _⟩

/-- An exact count is never lost on its way into the box. -/
theorem toCount_mem (h : 1 ≤ limit) (rule : Rat → Int) (x : Rat) :
    toCount rule limit x ∈ Set.Icc (1 : Int) limit := clamp_mem h (rule x)

theorem larger_rat (x y : Rat) : Scalar.larger x y = max x y := (max_def_lt x y).symm

/-- The integer that a draw scatters a count to, before it is kept in the box. -/
def jittered (n : Nat) (draw : Rat) : Int := ⌊max (n + (draw - 5)) 1⌋

theorem scatter_rat (limit : Int) (n : Nat) (draw : Rat) :
    Gene.scatter limit n draw =
      { count := clamp limit (jittered n draw), velocity := 0
        best := clamp limit (jittered n draw) } := by
  have hmoved : Scalar.larger (Scalar.ofNat n + (draw - 5)) 1 = max ((n : Rat) + (draw - 5)) 1 :=
    larger_rat _ _
  rw [Gene.scatter, hmoved]
  rfl

/-- A draw from one up to ten moves a count by at most four. -/
theorem jittered_near {n : Nat} {draw : Rat} (hn : 1 ≤ n) (hdraw : 1 ≤ draw ∧ draw < 10) :
    |jittered n draw - n| ≤ 4 := by
  have hn' : (1 : Rat) ≤ n := by exact_mod_cast hn
  have hlow : (n : Int) - 4 ≤ jittered n draw := by
    refine Int.le_floor.mpr (le_max_of_le_left ?_)
    push_cast
    linarith [hdraw.1]
  -- The draw stays below ten, so what is rounded down stays below five more.
  have hhigh : jittered n draw < n + 5 := by
    refine Int.floor_lt.mpr (max_lt ?_ ?_)
    · push_cast
      linarith [hdraw.2]
    · push_cast
      linarith
  exact abs_le.mpr ⟨by omega, by omega⟩

/-- A gene whose count and whose best count are in the box. -/
structure Gene.Within (limit : Nat) (g : Gene Rat) : Prop where
  count : g.count ∈ Set.Icc (1 : Int) limit
  best : g.best ∈ Set.Icc (1 : Int) limit

/-- A particle with a number of genes, all of them in the box. -/
structure Particle.Within (limit columns : Nat) (p : Particle Rat) : Prop where
  length : p.genes.length = columns
  genes : ∀ g ∈ p.genes, g.Within limit

/-! ## Scattering -/

/-- A gene at a count that a draw has scattered by at most four. -/
def Gene.Scattered (limit n : Nat) (g : Gene Rat) : Prop :=
  ∃ draw : Rat, (1 ≤ draw ∧ draw < 10) ∧ |jittered n draw - n| ≤ 4 ∧
    g.count = clamp limit (jittered n draw) ∧ g.best = g.count ∧ g.velocity = 0

theorem Gene.Scattered.within (h : 1 ≤ limit) {n : Nat} {g : Gene Rat}
    (hg : g.Scattered limit n) : g.Within limit := by
  obtain ⟨draw, -, -, hcount, hbest, -⟩ := hg
  have hmem : g.count ∈ Set.Icc (1 : Int) limit := by
    rw [hcount]
    exact clamp_mem h _
  exact ⟨hmem, hbest ▸ hmem⟩

variable {G S R A : Type} {source : Source G Rat}

/-- Every gene of every scattered particle is near the count of its entry. -/
theorem scatter_near (hsource : ∀ g, 1 ≤ (source.draw g).1 ∧ (source.draw g).1 < 10)
    {counts : List Nat} (hcounts : ∀ n ∈ counts, 1 ≤ n) (n : Nat) (g : G) :
    ∀ p ∈ (scatter source n limit counts g).1,
      List.Forall₂ (Gene.Scattered limit) counts p.genes := by
  intro p hp
  obtain ⟨row, hrow, rfl⟩ := List.mem_map.mp hp
  have hlength := length_of_mem_grid source counts.length n g row hrow
  have hdraws := Source.forall_mem_grid (p := fun x => 1 ≤ x ∧ x < 10) hsource _ n g row hrow
  refine List.forall₂_iff_get.mpr ⟨by simp [Particle.scatter, hlength], fun i hi hi' => ?_⟩
  simp only [Particle.scatter, List.get_eq_getElem, List.getElem_zipWith, scatter_rat]
  have hdraw := hdraws _ (List.getElem_mem (hlength.symm ▸ hi))
  exact ⟨_, hdraw, jittered_near (hcounts _ (List.getElem_mem hi)) hdraw, rfl, rfl, rfl⟩

theorem Particle.within_of_scattered (h : 1 ≤ limit) {counts : List Nat} {p : Particle Rat}
    (hp : List.Forall₂ (Gene.Scattered limit) counts p.genes) :
    p.Within limit counts.length where
  length := hp.length_eq.symm
  genes := by
    intro g hg
    obtain ⟨n, -, hn⟩ := Granted.exists_related hp hg
    exact hn.within h

/-! ## Rounds -/

variable {P : Problem Rat S R A} {q : Parameters Rat} {modes : List (Mode A)} {order : List Nat}
  {n : Nat} {particles : List (Particle Rat)} {l : Leader Rat S R} {trials : List (Trial Rat S R)}
  {gens : List (Generation Rat S R)}

theorem move_within (h : 1 ≤ limit) {leader : List Int} (hleader : leader.length = columns)
    {p : Particle Rat} (hp : p.Within limit columns) :
    (p.move q limit leader).Within limit columns where
  length := by simp [Particle.move, hleader, hp.length]
  genes := by
    intro g hg
    obtain ⟨i, hi, rfl⟩ := List.mem_iff_getElem.mp hg
    simp only [Particle.move, List.getElem_zipWith]
    exact ⟨toCount_mem h nearestEven _, (hp.genes _ (List.getElem_mem _)).best⟩

theorem remember_within (t : Trial Rat S R) {p : Particle Rat} (hp : p.Within limit columns) :
    (remember t p).Within limit columns := by
  refine ⟨(remember_length t p).trans hp.length, ?_⟩
  unfold remember
  split
  · intro g hg
    obtain ⟨gene, hgene, rfl⟩ := List.mem_map.mp hg
    exact ⟨(hp.genes gene hgene).count, (hp.genes gene hgene).count⟩
  · exact hp.genes

/-- A number of particles in the box, and a leader with a count for each of their genes. -/
structure Confined (limit columns count : Nat) (particles : List (Particle Rat))
    (l : Leader Rat S R) : Prop where
  length : particles.length = count
  within : ∀ p ∈ particles, p.Within limit columns
  leader : l.counts.length = columns

/-- A round leaves the particles in the box. -/
theorem Confined.moved (h : Confined limit columns count particles l) (hlimit : 1 ≤ limit)
    (htrials : particles.mapM (trial P modes order) = .ok trials) :
    Confined limit columns count (moved q limit (trials.foldl lead l) trials particles)
      (trials.foldl lead l) := by
  have hlength := (Granted.mapM.mp htrials).length_eq
  have hleader := length_foldl_lead h.leader (fun p hp => (h.within p hp).length) htrials
  refine ⟨(length_moved hlength.symm).trans h.length, fun p hp => ?_, hleader⟩
  obtain ⟨r, hr, rfl⟩ := List.mem_map.mp hp
  obtain ⟨i, hi, rfl⟩ := List.mem_iff_getElem.mp hr
  rw [List.getElem_zipWith]
  exact move_within hlimit hleader (remember_within _ (h.within _ (List.getElem_mem _)))

/-- Every population of a run is in the box. -/
theorem Confined.population (hconfined : Confined limit columns count particles l)
    (hlimit : 1 ≤ limit) (h : generations P modes q limit order n particles l = .ok gens)
    (t : Nat) : (population q limit particles (gens.take t)).length = count ∧
      ∀ p ∈ population q limit particles (gens.take t), p.Within limit columns := by
  obtain ⟨l, hpopulation⟩ :=
    population_induction (fun h htrials => h.moved hlimit htrials) h hconfined t
  exact ⟨hpopulation.length, hpopulation.within⟩

/-! ## Runs that are granted -/

theorem withCounts?_eq_some (order : List Nat) {counts : List Int} (h : ∀ n ∈ counts, 0 ≤ n) :
    withCounts? order counts = some (List.zipWith (fun i n => ⟨i, n.toNat⟩) order counts) := by
  unfold withCounts?
  induction order generalizing counts with
  | nil => rfl
  | cons i order ih =>
    cases counts with
    | nil => rfl
    | cons n counts =>
      have hn : ¬n < 0 := Int.not_lt.mpr (h n List.mem_cons_self)
      rw [List.zip_cons_cons, List.mapM_cons, if_neg hn,
        ih fun m hm => h m (List.mem_cons_of_mem n hm)]
      rfl

/-- A particle in the box is replayed, if states can be measured. -/
theorem exists_trial (hmisfit : ∀ state, P.misfit? state = none)
    (horder : ∀ i ∈ order, i < modes.length) {p : Particle Rat} (hp : p.Within limit columns) :
    ∃ e, trial P modes order p = .ok e := by
  have hcounts : ∀ n ∈ p.counts, 0 ≤ n := by
    intro n hn
    obtain ⟨gene, hgene, rfl⟩ := List.mem_map.mp hn
    have hlow := (hp.genes gene hgene).count.1
    omega
  have hschedule := withCounts?_eq_some order hcounts
  generalize List.zipWith _ order p.counts = schedule at hschedule
  have hrange : Schedule.InRange modes.length schedule := by
    intro e he
    have hmem : (e.mode, (e.times : Int)) ∈ order.zip p.counts := by
      rw [← withCounts?_eq hschedule]
      exact List.mem_map_of_mem he
    exact horder _ (List.of_mem_zip hmem).1
  have heval : evaluate (some P) modes schedule =
      .ok ((Run.follow P modes schedule P.start).solution,
        fitnessOf P (Run.follow P modes schedule P.start).solution) := by
    refine Granted.bind.mpr ⟨P, rfl, Granted.bind.mpr ⟨_, Run.replay_eq_ok.mpr ⟨hrange, rfl⟩, ?_⟩⟩
    exact Granted.bind.mpr ⟨(), requireMeasured_eq_ok.mpr fun t _ => hmisfit t.state, rfl⟩
  simp only [trial, hschedule, heval]
  exact ⟨_, rfl⟩

theorem exists_generations (hmisfit : ∀ state, P.misfit? state = none)
    (horder : ∀ i ∈ order, i < modes.length) (hlimit : 1 ≤ limit) (n : Nat)
    (h : Confined limit columns count particles l) :
    ∃ gens, generations P modes q limit order n particles l = .ok gens := by
  induction n generalizing particles l with
  | zero => exact ⟨[], rfl⟩
  | succ n ih =>
    obtain ⟨trials, htrials⟩ := Granted.exists_mapM fun p hp =>
      exists_trial (P := P) hmisfit horder (h.within p hp)
    obtain ⟨rest, hrest⟩ := ih (h.moved hlimit htrials)
    exact ⟨_, Granted.bind.mpr ⟨trials, htrials, Granted.bind.mpr ⟨rest, hrest, rfl⟩⟩⟩

/-! ## Refinements -/

variable {s : Solution Rat S R} {g : G}

/-- The particles that a refinement begins with. -/
def scattered (source : Source G Rat) (q : Parameters Rat) (limit : Int) (s : Solution Rat S R)
    (g : G) : List (Particle Rat) :=
  (scatter source q.particles limit (s.schedule.map Entry.times) g).1

/-- A refinement begins with as many particles as it is to have, all of them in the box. -/
theorem scattered_confined (P : Problem Rat S R A) (hlimit : 1 ≤ limit)
    (hsource : ∀ g, 1 ≤ (source.draw g).1 ∧ (source.draw g).1 < 10)
    (hs : ∀ n ∈ s.schedule.map Entry.times, 1 ≤ n) :
    Confined limit s.schedule.length q.particles (scattered source q limit s g)
      (Leader.ofSolution P s) where
  length := length_scatter ..
  within := by
    intro p hp
    have hwithin := Particle.within_of_scattered hlimit (scatter_near hsource hs _ g p hp)
    rwa [List.length_map] at hwithin
  leader := by simp [Leader.ofSolution]

/-- A refinement is granted if all states can be measured and no position of a mode is beyond a
word. -/
theorem exists_refine (hmisfit : ∀ state, P.misfit? state = none)
    (hlimit : P.maxSteps = .ok limit) (hmodes : modes.length ≤ 2 ^ 63)
    (hschedule : s.schedule ≠ []) (hrange : s.schedule.InRange modes.length)
    (hconfined : Confined limit columns count (scattered source q limit s g)
      (Leader.ofSolution P s)) :
    ∃ r g', refine source P q modes s g = .ok (r, g') := by
  have horder : ∀ i ∈ s.schedule.map Entry.mode, i < modes.length := by
    intro i hi
    obtain ⟨e, he, rfl⟩ := List.mem_map.mp hi
    exact hrange e he
  have hfits : s.schedule.any (fun e =>
      !Word.signed e.mode || (Scalar.ofInt? e.times : Option Rat).isNone) = false := by
    refine List.any_eq_false.mpr fun e he => ?_
    have hmode := hrange e he
    simp only [Scalar.ofInt_rat, Option.isNone_some, Bool.or_false, Bool.not_eq_true',
      Bool.not_eq_false, Word.signed, Bool.and_eq_true, decide_eq_true_eq]
    omega
  obtain ⟨gens, hgens⟩ := exists_generations (q := q) hmisfit horder (maxSteps_pos hlimit)
    q.rounds hconfined
  have hmeasured := Granted.mapError (f := SwarmError.plan).mpr
    (requireMeasured_eq_ok.mpr fun t (_ : t ∈ [s]) => hmisfit t.state)
  refine ⟨⟨q, Leader.ofSolution P s, gens⟩,
    (scatter source q.particles limit (s.schedule.map Entry.times) g).2,
    Granted.bind.mpr ⟨(), hmeasured, ?_⟩⟩
  rw [if_neg (by simpa using hschedule), if_neg (by simp [hfits])]
  simp only [hlimit]
  exact Granted.bind.mpr ⟨gens, hgens, rfl⟩

/-- A replay in the box of modes that change notes some of the first of them, with counts in the
box. -/
theorem ReplaysInBox.shape (hP : P.Orderly) (horder : order.IsChain (· ≠ ·)) {t : Solution Rat S R}
    (h : ReplaysInBox P modes limit order t) :
    t.schedule.map Entry.mode <+: order ∧
      ∀ e ∈ t.schedule, 1 ≤ e.times ∧ e.times ≤ limit := by
  obtain ⟨schedule, run, rfl, hcounts, hrun, rfl⟩ := h
  obtain ⟨hrange, rfl⟩ := Run.replay_eq_ok.mp hrun
  have hgiven : schedule.Canonical :=
    ⟨fun e he => (hcounts e he).1, Schedule.changing_iff.mpr horder⟩
  have hnoted := Run.follow_canonical hP hrange
  have hsteps : (Run.follow P modes schedule P.start).solution.schedule.steps <+:
      schedule.steps := by
    rw [Run.follow_steps hP hrange]
    exact List.take_prefix _ _
  -- Both schedules are canonical, so what begins the steps begins the entries, too.
  obtain ⟨hmodes, hentries⟩ := Schedule.begins_of_steps hnoted hgiven hsteps
  refine ⟨hmodes, fun e he => ⟨hnoted.1 e he, ?_⟩⟩
  obtain ⟨f, hf, -, hle⟩ := hentries e he
  exact hle.trans (hcounts f hf).2

/-- **A swarm stays in its box and keeps the order of the modes.** Let completion depend on state
and resources only, let a step leave the schedule to the planner, and let the source draw from one
up to ten. A candidate with a canonical schedule in range, and with entries, is refined as follows.

* Each particle has one gene per entry. To begin with, each count has been scattered by at most
  four, and then kept in the box from one up to the steps that the horizon holds.
* The refinement is granted if all states can be measured, and no mode is beyond 64 bits.
* Each round tries the population that the rounds before it have left. However many rounds there
  have been, that has as many particles as it should, and all counts and all best counts of them
  are in the box.
* The outcome is the given candidate, or it is complete, its modes begin those of the given one,
  and all its counts are in the box. -/
theorem swarm_stays_in_box {G S R A : Type} (source : Source G Rat)
    (hsource : ∀ g, 1 ≤ (source.draw g).1 ∧ (source.draw g).1 < 10) (P : Problem Rat S R A)
    (hP : P.Orderly) (q : Parameters Rat) (modes : List (Mode A)) (s : Solution Rat S R)
    (hschedule : s.schedule ≠ []) (hcanonical : s.schedule.Canonical)
    (hrange : s.schedule.InRange modes.length) (g : G) :
    ∃ limit, P.maxSteps = .ok limit ∧
      (∀ p ∈ scattered source q limit s g,
        List.Forall₂ (Gene.Scattered limit) (s.schedule.map Entry.times) p.genes) ∧
      ((∀ state, P.misfit? state = none) → modes.length ≤ 2 ^ 63 →
        ∃ r g', refine source P q modes s g = .ok (r, g')) ∧
      ∀ r g', refine source P q modes s g = .ok (r, g') →
        r.generations.length = q.rounds ∧
        (∀ (t : Nat) (gen : Generation Rat S R), r.generations[t]? = some gen →
          (population q limit (scattered source q limit s g) (r.generations.take t)).mapM
            (trial P modes (s.schedule.map Entry.mode)) = .ok gen.trials) ∧
        (∀ t : Nat,
          (population q limit (scattered source q limit s g) (r.generations.take t)).length =
            q.particles ∧
          ∀ p ∈ population q limit (scattered source q limit s g) (r.generations.take t),
            p.Within limit s.schedule.length) ∧
        (r.solution = s ∨
          r.solution.schedule.map Entry.mode <+: s.schedule.map Entry.mode ∧
            (∀ e ∈ r.solution.schedule, 1 ≤ e.times ∧ e.times ≤ limit) ∧
            P.complete r.solution = true) := by
  have hlimit : P.maxSteps = .ok (max 1 ⌊P.settings.timeMax / P.settings.timeDelta⌋₊) := by
    rw [Problem.maxSteps, P.blocksWithin_rat]
    rfl
  generalize max 1 ⌊P.settings.timeMax / P.settings.timeDelta⌋₊ = limit at hlimit
  have hpos := maxSteps_pos hlimit
  have hcounts : ∀ n ∈ s.schedule.map Entry.times, 1 ≤ n := by
    intro n hn
    obtain ⟨e, he, rfl⟩ := List.mem_map.mp hn
    exact hcanonical.1 e he
  have hconfined := scattered_confined (q := q) (g := g) P hpos hsource hcounts
  refine ⟨limit, hlimit, scatter_near hsource hcounts q.particles g, fun hmisfit hmodes =>
    exists_refine hmisfit hlimit hmodes hschedule hrange hconfined, fun r g' h => ?_⟩
  obtain ⟨-, ⟨hnil, -⟩ | ⟨-, limit', hlimit', hgenerations⟩⟩ := refine_cases h
  · exact absurd hnil hschedule
  obtain rfl : limit = limit' := Except.ok.inj (hlimit.symm.trans hlimit')
  refine ⟨length_generations hgenerations, fun t gen => generations_population hgenerations,
    hconfined.population hpos hgenerations, ?_⟩
  rcases refine_origin h with hsame | ⟨gen, hgen, e, he, hcomplete, hsolution⟩
  · exact Or.inl hsame
  · obtain ⟨limit', hlimit', hreplays⟩ := refine_inBox h gen hgen e he
    obtain rfl : limit = limit' := Except.ok.inj (hlimit.symm.trans hlimit')
    obtain ⟨hmodes, hentries⟩ :=
      hreplays.shape hP (Schedule.changing_iff.mp hcanonical.2)
    rw [hsolution]
    exact Or.inr ⟨hmodes, hentries, hcomplete⟩

/-- Both particles are scattered to corners of the box, and the refinement keeps both modes. -/
theorem swarm_stays_in_box_sample : ∃ limit,
    (Rate.problem sampleSettings).maxSteps = .ok limit ∧
    (∀ p ∈ scattered sampleSource sampleParameters limit sampleCandidate 0,
      List.Forall₂ (Gene.Scattered limit) [4, 2] p.genes) ∧
    ∃ r g, refine sampleSource (Rate.problem sampleSettings) sampleParameters Rate.sampleModes
        sampleCandidate 0 = .ok (r, g) ∧
      r.solution.schedule = [⟨1, 3⟩, ⟨0, 2⟩] ∧
      r.solution.schedule.map Entry.mode <+: [1, 0] ∧
      (∀ e ∈ r.solution.schedule, e.times ≤ limit) ∧
      (Rate.problem sampleSettings).complete r.solution = true := by
  have hsource : ∀ drawn, 1 ≤ (sampleSource.draw drawn).1 ∧ (sampleSource.draw drawn).1 < 10 := by
    intro drawn
    simp only [sampleSource]
    split <;> decide +kernel
  obtain ⟨r, g, hr, hseen, -⟩ := sample_refine
  simp only [Prod.mk.injEq] at hseen
  obtain ⟨-, -, hschedule⟩ := hseen
  obtain ⟨limit, hlimit, hscattered, -, hrefined⟩ := swarm_stays_in_box sampleSource hsource
    (Rate.problem sampleSettings) (Rate.problem_local _).orderly sampleParameters
    Rate.sampleModes sampleCandidate (by simp [sampleCandidate])
    (by simp [sampleCandidate, Schedule.Canonical, Schedule.Changing])
    (by simp [sampleCandidate, Schedule.InRange, Rate.sampleModes]) 0
  refine ⟨limit, hlimit, hscattered, r, g, hr, hschedule, ?_⟩
  obtain ⟨-, -, -, hsame | ⟨hmodes, hcounts, hcomplete⟩⟩ := hrefined r g hr
  · rw [hsame] at hschedule
    exact absurd hschedule (by decide)
  · exact ⟨hmodes, fun e he => (hcounts e he).2, hcomplete⟩

end Swarm
end ModeSchedule
