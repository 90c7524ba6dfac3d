/-
ModeSchedule.Proofs.Archive.RoundTrip — what is saved is read back.

Each record of the one-dimensional domain is read back from its own value:
`Decode.entry_toJson`, `Usage.check_toJson`, `Decode.solution_toJson`,
`Decode.front_toJson`. Only distances are not saved, so a result comes back with the
distances that loading measures (`Decode.outcome_toJson`). It comes back at all if the
numbers of its fronts are admitted, as those of a search are whose clock does not go
back (`Search.outcome_admitted`, in exact arithmetic).

What has been read is not changed by saving and reading it once more, however it was
spelled (`Decode.outcome_stable`). Nor is what a search or a refinement yields: its
candidates carry the distances that loading measures (`Rate.remeasure_arrived`).
`decode_undoes_encode` puts these together.
-/
import ModeSchedule.Archive.SavedRun
import ModeSchedule.Proofs.Search.Horizon
import ModeSchedule.Proofs.Swarm.Box
import ModeSchedule.Proofs.Timekeeping

namespace ModeSchedule

variable {K : Type} [Scalar K]

/-! ## Checks -/

namespace Check

variable {α β : Type}

theorem both_eq_ok {a : Check α} {b : Check β} {x : α × β} :
    both a b = .ok x ↔ a = .ok x.1 ∧ b = .ok x.2 := by
  obtain ⟨x, y⟩ := x
  unfold both
  cases a with
  | ok a =>
    cases b with
    | ok b => simp
    | error e => cases e <;> simp
  | error e =>
    cases b with
    | ok b => cases e <;> simp
    | error e' => cases e <;> cases e' <;> simp

theorem ensure_eq_ok {condition : α → Bool} {fault : Fault} {c : Check α} {x : α} :
    ensure condition fault c = .ok x ↔ c = .ok x ∧ condition x = true := by
  unfold ensure
  cases c with
  | error e => simp
  | ok y =>
    by_cases hy : condition y = true
    · simp only [hy, if_true, Except.ok.injEq]
      exact ⟨fun h => ⟨h, h ▸ hy⟩, And.left⟩
    · simp only [hy, fail]
      exact ⟨nofun, fun h => absurd (Except.ok.inj h.1 ▸ h.2) hy⟩

theorem under_eq_ok {step : String} {c : Check α} {x : α} : under step c = .ok x ↔ c = .ok x := by
  unfold under
  split <;> simp

theorem nonnegative_eq_ok {j : Json K} {x : K} :
    nonnegative j = .ok x ↔ number j = .ok x ∧ 0 ≤ x := by
  rw [nonnegative, ensure_eq_ok, decide_eq_true_iff]

/-- A natural number is read back. -/
theorem natural_int (n : Nat) : natural (.int n : Json K) = .ok n := by
  simp [natural, integer, ensure, Except.map]

end Check

/-! ## Single records -/

theorem Decode.entry_toJson (e : Entry) : Decode.entry (e.toJson : Json K) = .ok e := by
  simp [Decode.entry, Entry.check, Entry.toJson, Check.object, Check.required, Check.optional,
    Json.find?, List.lookup, Check.natural_int, Check.under, Check.both, Except.map,
    Except.mapError]

theorem Usage.check_toJson (u : Usage K) : Usage.check u.toJson = .ok u := by
  simp [Usage.check, Usage.toJson, Check.object, Check.optional, Json.find?, List.lookup,
    Check.number, Check.under, Check.both, Except.map]

/-! ## Candidates -/

/-- A candidate with the distance that loading gives it: measured under the settings, if
there are any. -/
def Rate.remeasured (settings : Option (Settings K K)) (s : Candidate K) : Candidate K :=
  { s with distance := settings.bind fun q => Scalar.bounded? (distance q s) }

namespace Decode

variable {S R : Type} {d : Decoder K S R} {j : Json K}

/-- The distance that a candidate is given with its state. -/
def measured (d : Decoder K S R) (state : S) : Except DecodeError (Option K) :=
  match d.distance with
  | none => .ok none
  | some measure => (measure state).map Scalar.bounded?

theorem solution_eq (d : Decoder K S R) (j : Json K) : solution d j = do
    let schedule ← (← items (← member "sequence" j)).mapM entry
    let state ← d.state (← member "state" j)
    let resources ← d.resources (← member "resources" j)
    let distance ← measured d state
    return { schedule, state, resources, distance } := by
  obtain ⟨stateOf, resourcesOf, distanceOf⟩ := d
  cases distanceOf with
  | none => rfl
  | some measure =>
    refine bind_congr fun _ => bind_congr fun _ => bind_congr fun _ => bind_congr fun _ =>
      bind_congr fun state => bind_congr fun _ => bind_congr fun _ => ?_
    simp only [measured]
    cases measure state <;> rfl

/-- A candidate is read exactly if all its parts are. -/
theorem solution_eq_ok {s : Solution K S R} : solution d j = .ok s ↔
    (∃ v items, member "sequence" j = .ok v ∧ Decode.items v = .ok items ∧
      items.mapM entry = .ok s.schedule) ∧
    (∃ v, member "state" j = .ok v ∧ d.state v = .ok s.state) ∧
    (∃ v, member "resources" j = .ok v ∧ d.resources v = .ok s.resources) ∧
    measured d s.state = .ok s.distance := by
  simp only [solution_eq, Granted.bind]
  constructor
  · rintro ⟨v, hv, xs, hxs, schedule, hschedule, w, hw, state, hstate, u, hu, resources,
      hresources, distance, hdistance, h⟩
    obtain rfl := Except.ok.inj h
    exact ⟨⟨v, xs, hv, hxs, hschedule⟩, ⟨w, hw, hstate⟩, ⟨u, hu, hresources⟩, hdistance⟩
  · rintro ⟨⟨v, xs, hv, hxs, hschedule⟩, ⟨w, hw, hstate⟩, ⟨u, hu, hresources⟩, hdistance⟩
    exact ⟨v, hv, xs, hxs, _, hschedule, w, hw, _, hstate, u, hu, _, hresources, _, hdistance, rfl⟩

variable {settings : Option (Settings K K)}

/-- How results of the one-dimensional domain are read. -/
abbrev rate (settings : Option (Settings K K)) : Decoder K K (Usage K) :=
  StateFormat.number.decoder settings

theorem rate_measured (s : Rate.Candidate K) :
    measured (rate settings) s.state = .ok (Rate.remeasured settings s).distance := by
  cases settings <;> rfl

theorem solution_toJson (s : Rate.Candidate K) :
    solution (rate settings) (s.toJson .real Usage.toJson) = .ok (Rate.remeasured settings s) := by
  have hschedule : (s.schedule.map Entry.toJson).mapM (entry (K := K)) = .ok s.schedule := by
    have hentries := Granted.mapM_map fun e (_ : e ∈ s.schedule) =>
      show entry (e.toJson : Json K) = .ok (id e) from entry_toJson e
    rwa [List.map_id] at hentries
  have hresources : (rate settings).resources s.resources.toJson = .ok s.resources := by
    show (Usage.check s.resources.toJson).mapError DecodeError.ofRejection = .ok s.resources
    exact Granted.mapError.mpr (Usage.check_toJson s.resources)
  exact solution_eq_ok.mpr ⟨⟨_, _, rfl, rfl, hschedule⟩, ⟨_, rfl, rfl⟩, ⟨_, rfl, hresources⟩,
    rate_measured s⟩

/-- A candidate that has been read carries the distance that loading measures. -/
theorem remeasured_of_solution {s : Rate.Candidate K} (h : solution (rate settings) j = .ok s) :
    Rate.remeasured settings s = s := by
  have hdistance := (solution_eq_ok.mp h).2.2.2
  rw [rate_measured, Except.ok.injEq] at hdistance
  obtain ⟨schedule, state, resources, distance⟩ := s
  exact congrArg (Solution.mk schedule state resources) hdistance

end Decode

/-! ## Fronts -/

/-- A front whose candidates have the distances that loading gives them. -/
def Rate.remeasuredFront (settings : Option (Settings K K)) (f : Front K K (Usage K)) :
    Front K K (Usage K) :=
  { f with solutions := f.solutions.map (remeasured settings) }

theorem Rate.remeasuredFront_eq_self {settings : Option (Settings K K)} {f : Front K K (Usage K)}
    (h : ∀ s ∈ f.solutions, remeasured settings s = s) : remeasuredFront settings f = f := by
  rw [remeasuredFront, List.map_congr_left h, List.map_id']

/-- A result whose candidates have the distances that loading gives them. -/
def Rate.remeasure (settings : Option (Settings K K)) (o : Outcome K K (Usage K)) :
    Outcome K K (Usage K) :=
  o.map (remeasuredFront settings)

theorem Rate.remeasure_eq_self {settings : Option (Settings K K)} {o : Outcome K K (Usage K)}
    (h : ∀ f ∈ o, remeasuredFront settings f = f) : remeasure settings o = o := by
  rw [remeasure, List.map_congr_left h, List.map_id']

namespace Front

variable {S R : Type} {solutions : List (Solution K S R)} {f : Front K S R}

/-- The limits that the check of a front sets: neither its step length nor its runtime is
below zero. -/
def Admitted (f : Front K S R) : Prop := 0 ≤ f.stepLength ∧ 0 ≤ f.runtime

theorem checkNumbers_eq_ok {stepLength stride rounds runtime : Json K} :
    checkNumbers (.ok solutions) (.obj [("step_length", stepLength),
      ("steps_per_iteration", stride), ("iteration", rounds), ("runtime", runtime)]) = .ok f ↔
    solutions = f.solutions ∧ Check.nonnegative stepLength = .ok f.stepLength ∧
      Check.natural stride = .ok f.stride ∧ Check.natural rounds = .ok f.rounds ∧
      Check.nonnegative runtime = .ok f.runtime := by
  unfold checkNumbers
  rw [Granted.map]
  constructor
  · rintro ⟨⟨xs, a, b, c, e⟩, h, rfl⟩
    simpa [Check.both_eq_ok, Check.optional, Check.under_eq_ok, Json.find?, List.lookup] using h
  · intro h
    refine ⟨(f.solutions, f.stepLength, f.stride, f.rounds, f.runtime), ?_, rfl⟩
    simpa [Check.both_eq_ok, Check.optional, Check.under_eq_ok, Json.find?, List.lookup] using h

end Front

namespace Decode

variable {S R : Type} {d : Decoder K S R} {j : Json K} {settings : Option (Settings K K)}

theorem front_eq_ok {f : Front K S R} : front d j = .ok f ↔
    (∃ v items, member "solutions" j = .ok v ∧ Decode.items v = .ok items ∧
      items.mapM (solution d) = .ok f.solutions) ∧
    (∃ v, member "step_length" j = .ok v ∧ Check.nonnegative v = .ok f.stepLength) ∧
    (∃ v, member "steps_per_iteration" j = .ok v ∧ Check.natural v = .ok f.stride) ∧
    (∃ v, member "iteration" j = .ok v ∧ Check.natural v = .ok f.rounds) ∧
    (∃ v, member "runtime" j = .ok v ∧ Check.nonnegative v = .ok f.runtime) := by
  simp only [front, Granted.bind, Granted.mapError, Front.checkNumbers_eq_ok]
  constructor
  · rintro ⟨v, hv, items, hitems, xs, hxs, a, ha, b, hb, c, hc, e, he, rfl, ha', hb', hc', he'⟩
    exact ⟨⟨v, items, hv, hitems, hxs⟩, ⟨a, ha, ha'⟩, ⟨b, hb, hb'⟩, ⟨c, hc, hc'⟩, ⟨e, he, he'⟩⟩
  · rintro ⟨⟨v, items, hv, hitems, hxs⟩, ⟨a, ha, ha'⟩, ⟨b, hb, hb'⟩, ⟨c, hc, hc'⟩, ⟨e, he, he'⟩⟩
    exact ⟨v, hv, items, hitems, _, hxs, a, ha, b, hb, c, hc, e, he, rfl, ha', hb', hc', he'⟩

/-- A front is read back, with the measured distances, exactly if its numbers are
admitted. -/
theorem front_toJson {f f' : Front K K (Usage K)} :
    front (rate settings) (f.toJson .real Usage.toJson) = .ok f' ↔
      f.Admitted ∧ Rate.remeasuredFront settings f = f' := by
  have hsolutions : (f.solutions.map (Solution.toJson .real Usage.toJson)).mapM
      (solution (rate settings)) = .ok (f.solutions.map (Rate.remeasured settings)) :=
    Granted.mapM_map fun s _ => solution_toJson s
  constructor
  · intro h
    obtain ⟨⟨v, items, hv, hitems, hread⟩, ⟨a, ha, hlength⟩, ⟨b, hb, hstride⟩, ⟨c, hc, hrounds⟩,
      ⟨e, he, hruntime⟩⟩ := front_eq_ok.mp h
    obtain rfl := Except.ok.inj hv
    obtain rfl := Except.ok.inj hitems
    obtain rfl := Except.ok.inj ha
    obtain rfl := Except.ok.inj hb
    obtain rfl := Except.ok.inj hc
    obtain rfl := Except.ok.inj he
    rw [hsolutions, Except.ok.injEq] at hread
    obtain ⟨hlength, hlengthLimit⟩ := Check.nonnegative_eq_ok.mp hlength
    obtain ⟨hruntime, hruntimeLimit⟩ := Check.nonnegative_eq_ok.mp hruntime
    rw [Check.natural_int, Except.ok.injEq] at hstride hrounds
    rw [Check.number, Except.ok.injEq] at hlength hruntime
    obtain ⟨solutions, stepLength, stride, rounds, runtime⟩ := f'
    subst hread hlength hstride hrounds hruntime
    exact ⟨⟨hlengthLimit, hruntimeLimit⟩, rfl⟩
  · rintro ⟨⟨hlength, hruntime⟩, rfl⟩
    exact front_eq_ok.mpr ⟨⟨_, _, rfl, rfl, hsolutions⟩,
      ⟨_, rfl, Check.nonnegative_eq_ok.mpr ⟨rfl, hlength⟩⟩, ⟨_, rfl, Check.natural_int _⟩,
      ⟨_, rfl, Check.natural_int _⟩, ⟨_, rfl, Check.nonnegative_eq_ok.mpr ⟨rfl, hruntime⟩⟩⟩

/-- What is read as a front is admitted and has the measured distances. -/
theorem remeasured_of_front {f : Front K K (Usage K)} (h : front (rate settings) j = .ok f) :
    f.Admitted ∧ Rate.remeasuredFront settings f = f := by
  obtain ⟨⟨_, items, -, -, hread⟩, ⟨_, -, hlength⟩, -, -, ⟨_, -, hruntime⟩⟩ := front_eq_ok.mp h
  refine ⟨⟨(Check.nonnegative_eq_ok.mp hlength).2, (Check.nonnegative_eq_ok.mp hruntime).2⟩, ?_⟩
  refine Rate.remeasuredFront_eq_self fun s hs => ?_
  obtain ⟨_, -, hsolution⟩ := Granted.exists_of_mapM hread hs
  exact remeasured_of_solution hsolution

/-! ## Results -/

/-- A result is read back, with the measured distances, exactly if its fronts are
admitted. -/
theorem outcome_toJson {o o' : Outcome K K (Usage K)} :
    outcome (rate settings) (o.toJson .real Usage.toJson) = .ok o' ↔
      (∀ f ∈ o, f.Admitted) ∧ Rate.remeasure settings o = o' := by
  show (o.map (Front.toJson .real Usage.toJson)).mapM (front (rate settings)) = .ok o' ↔ _
  rw [Granted.mapM, List.forall₂_map_left_iff]
  simp only [front_toJson]
  rw [List.forall₂_and_left, ← List.forall₂_map_left_iff, List.forall₂_eq_eq_eq]
  rfl

/-- What has been read is not changed by being saved and read again. -/
theorem outcome_stable {o : Outcome K K (Usage K)} (h : outcome (rate settings) j = .ok o) :
    outcome (rate settings) (o.toJson .real Usage.toJson) = .ok o := by
  obtain ⟨v, -, h⟩ := Granted.bind.mp h
  obtain ⟨fronts, -, hread⟩ := Granted.bind.mp h
  have hall : ∀ f ∈ o, f.Admitted ∧ Rate.remeasuredFront settings f = f := by
    intro f hf
    obtain ⟨_, -, hfront⟩ := Granted.exists_of_mapM hread hf
    exact remeasured_of_front hfront
  exact outcome_toJson.mpr ⟨fun f hf => (hall f hf).1,
    Rate.remeasure_eq_self fun f hf => (hall f hf).2⟩

end Decode

/-! ## What planning yields -/

theorem Rate.remeasured_of_arrived [Scalar.Capped K] {q : Settings K K} {s : Candidate K}
    (h : Arrived (problem q) s) : remeasured (some q) s = s := by
  obtain ⟨schedule, state, resources, distance⟩ := s
  exact congrArg (Solution.mk schedule state resources) (distance_of_arrived h).symm

/-- Loading leaves the distances of measured and complete candidates as they are. -/
theorem Rate.remeasure_arrived [Scalar.Capped K] {q : Settings K K} {o : Outcome K K (Usage K)}
    (h : ∀ f ∈ o, ∀ s ∈ f.solutions, Arrived (problem q) s) : remeasure (some q) o = o :=
  remeasure_eq_self fun f hf =>
    remeasuredFront_eq_self fun s hs => remeasured_of_arrived (h f hf s hs)

namespace Swarm

variable {G S R A : Type} [Scalar.Counting K] {source : Source G K} {P : Problem K S R A}
  {p : Parameters K} {modes : List (Mode A)} {g g' : G} {o : Outcome K S R}
  {rs : List (FrontRefinement K S R)}

/-- The refinement of a result of measured and complete candidates is one, too. -/
theorem refineOutcome_arrived (hP : P.Measures) (ho : ∀ f ∈ o, ∀ s ∈ f.solutions, Arrived P s)
    (h : refineOutcome source (some P) p modes o g = .ok (rs, g')) :
    ∀ f ∈ rs.map FrontRefinement.refined, ∀ s ∈ f.solutions, Arrived P s := by
  have hrefines : List.Forall₂ (Refines fun s t => Arrived P s → Arrived P t) o
      (rs.map FrontRefinement.refined) :=
    refineOutcome_refines (fun _ _ _ _ hr hs => refine_arrived hP hs hr) h
  intro f' hf' t ht
  obtain ⟨f, hf, hfront⟩ := Granted.exists_related hrefines hf'
  obtain ⟨s, hs, harrived⟩ := Granted.exists_related hfront.solutions ht
  exact harrived (ho f hf s hs)

omit [Scalar.Counting K] in
/-- The numbers of a front are left alone. -/
theorem refineOutcome_admitted (ho : ∀ f ∈ o, f.Admitted)
    (h : refineOutcome source (some P) p modes o g = .ok (rs, g')) :
    ∀ f ∈ rs.map FrontRefinement.refined, f.Admitted := by
  have hrefines : List.Forall₂ (Refines fun _ _ => True) o (rs.map FrontRefinement.refined) :=
    refineOutcome_refines (fun _ _ _ _ _ => trivial) h
  intro f' hf'
  obtain ⟨f, hf, hfront⟩ := Granted.exists_related hrefines hf'
  rw [Front.Admitted, hfront.stepLength, hfront.runtime]
  exact ho f hf

end Swarm

/-! ## Searches under a clock that does not go back -/

section

variable {S R A : Type} {w : Workspace Rat S R A}

theorem tick_le {length : Rat} (h : 0 ≤ length) (n : Nat) (clock : Rat) :
    clock ≤ tick length n clock := by
  induction n generalizing clock with
  | zero => exact le_rfl
  | succ n ih => exact (le_add_of_nonneg_right h).trans (ih (clock + length))

theorem Extension.grow_clock (h : 0 ≤ w.stepCost) {switching : Switching} {stride : Nat}
    {watch : Option (Stopwatch Rat)} (partials : List (Solution Rat S R)) (clock : Rat) :
    clock ≤ (grow w switching stride watch partials clock).clock := by
  obtain ⟨k, hcourse⟩ := grow_course w switching stride watch partials clock
  rw [hcourse.time]
  exact tick_le h _ clock

theorem Level.runRounds_clock (h : 0 ≤ w.stepCost) {algorithm : Algorithm} {stride : Nat}
    {watch : Stopwatch Rat} {n : Nat} {frontier : Frontier Rat S R} {clock : Rat} :
    ∀ r ∈ runRounds w algorithm stride watch n frontier clock, clock ≤ r.clock := by
  induction n generalizing frontier clock with
  | zero => simp [runRounds]
  | succ n ih =>
    intro r hr
    rcases eq_or_ne frontier.partials [] with hempty | hne
    · rw [runRounds_empty hempty] at hr
      cases hr
    · obtain ⟨first, later, hcons, hfirst, hlater⟩ :=
        runRounds_cons w algorithm stride watch n clock hne
      have hclock : clock ≤ first.clock := by
        rw [hfirst, Round.clock, Round.perform_extension]
        exact Extension.grow_clock h frontier.partials clock
      rw [hcons] at hr
      rcases List.mem_cons.mp hr with rfl | hr
      · exact hclock
      · rcases hlater with ⟨-, rfl⟩ | ⟨-, rfl⟩
        · cases hr
        · exact hclock.trans (ih r hr)

/-- A level takes no less than no time. -/
theorem Level.runtime_nonneg (h : 0 ≤ w.stepCost) {algorithm : Algorithm}
    {resolution : Resolution Rat} {watch : Stopwatch Rat} {accepted : List (Solution Rat S R)}
    {clock : Rat} : 0 ≤ (perform w algorithm resolution watch accepted clock).front.runtime := by
  have hclock : clock ≤ (perform w algorithm resolution watch accepted clock).clock := by
    unfold Level.clock
    cases hlast : (perform w algorithm resolution watch accepted clock).rounds.getLast? with
    | none => exact le_rfl
    | some r => exact runRounds_clock h r (List.mem_of_getLast? hlast)
  show 0 ≤ (Stopwatch.started none clock).elapsed _
  rw [Stopwatch.elapsed_started]
  exact (sub_nonneg.mpr hclock).trans_eq (zero_add _).symm

end

/-- In exact arithmetic the fronts of a search are admitted. -/
theorem Search.outcome_admitted {S R A : Type} {P : Problem Rat S R A} {modes : List (Mode A)}
    {stepCost clock : Rat} {algorithm : Algorithm} {levels : Given Rat} {script : Script Rat}
    {sweep : Sweep Rat S R} (hdelta : 0 ≤ P.settings.timeDelta) (hcost : 0 ≤ stepCost)
    (h : scriptedSweep (some P) modes stepCost algorithm levels script clock = .ok sweep) :
    ∀ f ∈ sweep.outcome, f.Admitted := by
  intro f hf
  obtain ⟨stage, hstage, rfl, -⟩ := Sweep.exists_stage_of_outcome hf
  constructor
  · obtain ⟨count, _, hcount, -, hresolution⟩ := ofStride_eq_ok.mp (ofStride_stage h stage hstage).2
    rw [Scalar.ofInt_rat, Option.some.injEq] at hcount
    show 0 ≤ stage.level.resolution.stepLength
    rw [hresolution, ← hcount]
    exact mul_nonneg hdelta (by positivity)
  · obtain ⟨plan, -, rfl, -, -⟩ := exists_plan_of_sweep h
    obtain ⟨_, _, _, hlevel⟩ := Sweep.exists_performed hstage
    rw [hlevel]
    exact Level.runtime_nonneg hcost

/-! ## Saving and loading -/

/-- What loading yields after a result of the one-dimensional domain has been saved. -/
def Rate.reload (settings : Option (Settings K K)) (o : Outcome K K (Usage K)) :
    Except DecodeError (Outcome K K (Usage K)) :=
  Decode.outcome (Decode.rate settings) (o.toJson .real Usage.toJson)

/-- **Loading undoes saving.** A result of the one-dimensional domain is read back
exactly if the numbers of its fronts are admitted. It comes back with the distances that
the settings measure, none without settings, and with everything else as it was. Whatever
has been read, from any value however it was spelled, comes back as it is. So does what a
search yields, and what a refinement makes of that, under the same settings. -/
theorem decode_undoes_encode {K : Type} [Scalar K] (settings : Option (Settings K K)) :
    (∀ o o' : Outcome K K (Usage K), Rate.reload settings o = .ok o' ↔
      (∀ f ∈ o, f.Admitted) ∧ Rate.remeasure settings o = o') ∧
    (∀ (j : Json K) (o : Outcome K K (Usage K)),
      Decode.outcome (Decode.rate settings) j = .ok o → Rate.reload settings o = .ok o) ∧
    ∀ [Scalar.Capped K] [Scalar.Counting K] (q : Settings K K), settings = some q →
      ∀ (modes : List (Mode K)) (stepCost : K) (algorithm : Algorithm) (levels : Given K)
        (script : Script K) (clock : K) (sweep : Sweep K K (Usage K)),
        Search.scriptedSweep (some (Rate.problem q)) modes stepCost algorithm levels script clock =
          .ok sweep → (∀ f ∈ sweep.outcome, f.Admitted) →
        Rate.reload settings sweep.outcome = .ok sweep.outcome ∧
        ∀ {G : Type} (source : Source G K) (p : Swarm.Parameters K) (modes' : List (Mode K))
          (g g' : G) (rs : List (Swarm.FrontRefinement K K (Usage K))),
          Swarm.refineOutcome source (some (Rate.problem q)) p modes' sweep.outcome g =
            .ok (rs, g') →
          Rate.reload settings (rs.map Swarm.FrontRefinement.refined) =
            .ok (rs.map Swarm.FrontRefinement.refined) := by
  refine ⟨fun o o' => Decode.outcome_toJson, fun j o h => Decode.outcome_stable h, ?_⟩
  rintro _ _ q rfl modes stepCost algorithm levels script clock sweep hsweep hadmitted
  have hP := Rate.problem_measures q
  have harrived := Search.accepted_arrived hP hsweep
  refine ⟨Decode.outcome_toJson.mpr ⟨hadmitted, Rate.remeasure_arrived harrived⟩, ?_⟩
  intro G source p modes' g g' rs hrefine
  exact Decode.outcome_toJson.mpr ⟨Swarm.refineOutcome_admitted hadmitted hrefine,
    Rate.remeasure_arrived (Swarm.refineOutcome_arrived hP harrived hrefine)⟩

/-- A value with texts and truth values for numbers, a member too many and some that are
left to their defaults. -/
def looseValue : Json Rat :=
  .obj [("pareto_fronts", .arr
    [.obj
      [("solutions", .arr
        [.obj
          [("sequence", .arr
             [.obj [("mode", .str "1")], .obj [("mode", .int 0), ("times", .real 2)]]),
           ("state", .str "5e-1"),
           ("resources", .obj [("energy", .bool true), ("heat", .null)])]]),
       ("step_length", .str "1"), ("steps_per_iteration", .bool true), ("iteration", .int 0),
       ("runtime", .int 3)]])]

theorem looseValue_read : ∃ o, Decode.outcome (Decode.rate (some Rate.sampleSettings)) looseValue =
      .ok o ∧
    (o.map fun f => f.solutions.map fun s => (s.schedule, s.state, s.resources, s.distance)) =
      [[([⟨1, 1⟩, ⟨0, 2⟩], 1 / 2, ⟨1, 0⟩, some (3 / 2))]] := by
  refine Granted.map.mp ?_
  cbv

/-- What a search finds, and what a swarm that cannot better it leaves. -/
theorem sample_refineSweep : ∃ sweep rs g,
    Search.scriptedSweep (some (Rate.problem Rate.sampleSettings)) Rate.sampleModes 0 .exhaustive
      (.whole 2) (.steady [] 0) 0 = .ok sweep ∧
    Swarm.refineOutcome Swarm.sampleSource (some (Rate.problem Rate.sampleSettings))
      Swarm.sampleParameters Rate.sampleModes sweep.outcome 0 = .ok (rs, g) ∧
    (rs.map fun r => r.refined.solutions.map Solution.schedule) =
      [[[⟨0, 2⟩]], [[⟨1, 1⟩, ⟨0, 1⟩], [⟨0, 1⟩, ⟨1, 1⟩]]] := by
  have h : (Search.scriptedSweep (some (Rate.problem Rate.sampleSettings)) Rate.sampleModes 0
      .exhaustive (.whole 2) (.steady [] 0) 0).map (fun sweep =>
        (Swarm.refineOutcome Swarm.sampleSource (some (Rate.problem Rate.sampleSettings))
          Swarm.sampleParameters Rate.sampleModes sweep.outcome 0).map fun x =>
            x.1.map fun r => r.refined.solutions.map Solution.schedule) =
      .ok (.ok [[[⟨0, 2⟩]], [[⟨1, 1⟩, ⟨0, 1⟩], [⟨0, 1⟩, ⟨1, 1⟩]]]) := by cbv
  obtain ⟨sweep, hsweep, hrefined⟩ := Granted.map.mp h
  obtain ⟨⟨rs, g⟩, hrs, hschedules⟩ := Granted.map.mp hrefined
  exact ⟨sweep, rs, g, hsweep, hrs, hschedules⟩

theorem decode_undoes_encode_sample :
    (∃ o, Decode.outcome (Decode.rate (some Rate.sampleSettings)) looseValue = .ok o ∧
      (o.map fun f => f.solutions.map fun s => (s.schedule, s.state, s.resources, s.distance)) =
        [[([⟨1, 1⟩, ⟨0, 2⟩], 1 / 2, ⟨1, 0⟩, some (3 / 2))]] ∧
      Rate.reload (some Rate.sampleSettings) o = .ok o) ∧
    ∃ sweep rs g,
      Search.scriptedSweep (some (Rate.problem Rate.sampleSettings)) Rate.sampleModes 0 .exhaustive
        (.whole 2) (.steady [] 0) 0 = .ok sweep ∧
      Swarm.refineOutcome Swarm.sampleSource (some (Rate.problem Rate.sampleSettings))
        Swarm.sampleParameters Rate.sampleModes sweep.outcome 0 = .ok (rs, g) ∧
      (rs.map fun r => r.refined.solutions.map Solution.schedule) =
        [[[⟨0, 2⟩]], [[⟨1, 1⟩, ⟨0, 1⟩], [⟨0, 1⟩, ⟨1, 1⟩]]] ∧
      Rate.reload (some Rate.sampleSettings) sweep.outcome = .ok sweep.outcome ∧
      Rate.reload (some Rate.sampleSettings) (rs.map Swarm.FrontRefinement.refined) =
        .ok (rs.map Swarm.FrontRefinement.refined) := by
  obtain ⟨-, hread, hplanned⟩ := decode_undoes_encode (some Rate.sampleSettings)
  obtain ⟨o, ho, hmembers⟩ := looseValue_read
  obtain ⟨sweep, rs, g, hsweep, hrs, hschedules⟩ := sample_refineSweep
  have hadmitted := Search.outcome_admitted (P := Rate.problem Rate.sampleSettings)
    (by decide : (0 : Rat) ≤ 1) le_rfl hsweep
  obtain ⟨hfound, hrefined⟩ := hplanned Rate.sampleSettings rfl Rate.sampleModes 0 .exhaustive
    (.whole 2) (.steady [] 0) 0 sweep hsweep hadmitted
  exact ⟨⟨o, ho, hmembers, hread looseValue o ho⟩, sweep, rs, g, hsweep, hrs, hschedules, hfound,
    hrefined Swarm.sampleSource Swarm.sampleParameters Rate.sampleModes 0 g rs hrs⟩

end ModeSchedule
