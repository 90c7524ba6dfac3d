/-
ModeSchedule.Proofs.Search.Pauses — a pause takes nothing from a search.

A search that pauses runs beside the same search without pauses. Its clock gets
ahead with each pause, but its stopwatch trails the clock by as much, so both
find the same (`Level.perform_later`). What the pauses do is end the search or
themselves, as the dialogue with the script of keys has it: the paused search
reads that dialogue and performs as many of the levels (`Sweep.runStages_heard`).

Two consequences are stated of requests. How long the keys take makes no
difference (`waiting_is_free`). And without a timeout, the keys alone say which
levels are performed and which keys are read (`interactive_protocol`).
-/
import ModeSchedule.Proofs.Timekeeping
import ModeSchedule.Proofs.Search.Dialogue
import ModeSchedule.Proofs.Search.Limits
import ModeSchedule.Proofs.Search.Replay

namespace ModeSchedule

open Scalar Stopwatch

variable {K S R A : Type} [Scalar K]

/-! ## Levels at a later time -/

/-- The extension while the clock is ahead. -/
def Extension.later (ahead : K) (e : Extension K S R) : Extension K S R :=
  { e with clock := e.clock + ahead }

/-- The round while the clock is ahead. -/
def Round.later (ahead : K) (r : Round K S R) : Round K S R :=
  { r with extension := r.extension.later ahead }

/-- The level while the clock is ahead, under another stopwatch. -/
def Level.later (ahead : K) (watch : Stopwatch K) (l : Level K S R) : Level K S R :=
  { l with watch, startedAt := l.startedAt + ahead, rounds := l.rounds.map (Round.later ahead) }

/-- What a level comes to: its front, what it compared, and why it failed. -/
structure Findings (K S R : Type) where
  front : Front K S R
  compared : List (Solution K S R)
  failure? : Option PlanError

def Level.findings (l : Level K S R) : Findings K S R := ⟨l.front, l.compared, l.failure?⟩

def Stage.findings (s : Stage K S R) : Findings K S R := s.level.findings

namespace Level

variable {ahead : K} {watch : Stopwatch K} {l : Level K S R}

theorem later_final : (l.later ahead watch).final = l.final := by
  unfold final later
  rw [List.getLast?_map]
  cases l.rounds.getLast? <;> rfl

theorem later_clock : (l.later ahead watch).clock = l.clock + ahead := by
  unfold clock later
  rw [List.getLast?_map]
  cases l.rounds.getLast? <;> rfl

theorem later_findings [ExactSums K] : (l.later ahead watch).findings = l.findings := by
  have hfront : (l.later ahead watch).front = l.front := by
    have hruntime : (started none (l.startedAt + ahead)).elapsed (l.clock + ahead) =
        (started none l.startedAt).elapsed l.clock := by
      rw [elapsed_started, elapsed_started, ExactSums.add_sub_add_right]
    unfold front
    rw [later_final, later_clock]
    simp only [later, hruntime, List.length_map]
  have hcompared : (l.later ahead watch).compared = l.compared := by
    simp only [compared, later, List.flatMap_map]
    rfl
  have hfailure : (l.later ahead watch).failure? = l.failure? := by
    unfold failure? later
    rw [List.getLast?_map]
    cases l.rounds.getLast? <;> rfl
  simp only [findings, hfront, hcompared, hfailure]

end Level

section

variable [ExactSums K] {ahead : K} {watch watch' : Stopwatch K}

/-- An extension does not depend on when it is made, if the stopwatch trails. -/
theorem Extension.grow_later (h : Trails ahead watch watch') (w : Workspace K S R A)
    (switching : Switching) (stride : Nat) (partials : List (Solution K S R)) (clock : K) :
    grow w switching stride (some watch') partials (clock + ahead) =
      (grow w switching stride (some watch) partials clock).later ahead := by
  induction partials generalizing clock with
  | nil => rfl
  | cons s rest ih =>
    simp only [grow, Option.any_some, tick_later, h.expired]
    cases switching.candidates w.modes.length s.schedule with
    | error cause => rfl
    | ok modes =>
      dsimp only
      split
      · rfl
      · rw [ih]
        rfl

theorem Round.perform_later (h : Trails ahead watch watch') (w : Workspace K S R A)
    (algorithm : Algorithm) (stride : Nat) (f : Frontier K S R) (clock : K) :
    perform w algorithm stride (some watch') f (clock + ahead) =
      (perform w algorithm stride (some watch) f clock).later ahead := by
  simp only [perform_eq, led, Extension.grow_later h, Extension.later]
  split <;> rfl

theorem Level.runRounds_later (h : Trails ahead watch watch') (w : Workspace K S R A)
    (algorithm : Algorithm) (stride n : Nat) (f : Frontier K S R) (clock : K) :
    runRounds w algorithm stride watch' n f (clock + ahead) =
      (runRounds w algorithm stride watch n f clock).map (Round.later ahead) := by
  induction n generalizing f clock with
  | zero => rfl
  | succ n ih =>
    have hclock : ∀ r : Round K S R, (r.later ahead).clock = r.clock + ahead := fun _ => rfl
    have hfailure : ∀ r : Round K S R, (r.later ahead).failure? = r.failure? := fun _ => rfl
    simp only [runRounds, Round.perform_later h, hclock, hfailure, h.expired]
    split
    · rfl
    · split
      · rfl
      · exact congrArg (_ :: ·) (ih _ _)

/-- A level does not depend on when it is performed, if the stopwatch trails. -/
theorem Level.perform_later (h : Trails ahead watch watch') (w : Workspace K S R A)
    (algorithm : Algorithm) (resolution : Resolution K) (accepted : List (Solution K S R))
    (clock : K) :
    perform w algorithm resolution watch' accepted (clock + ahead) =
      (perform w algorithm resolution watch accepted clock).later ahead watch' := by
  simp only [perform, Level.runRounds_later h, later]

end

/-! ## Sweeps -/

namespace Sweep

/-- A stage hears the first answer of a dialogue, and the rest of it is left to the
stages that follow. -/
theorem dialogue_conclude (pausing : Bool) (script : Script K) (level : Level K S R) (n : Nat) :
    Prompt.dialogue pausing (n + 1) script.keys =
      (conclude pausing script level).answer ::
        if (conclude pausing script level).quit then []
        else Prompt.dialogue
          (pausing && !(conclude pausing script level).answer.any fun a => a.command == .resume) n
          (((conclude pausing script level).answer.map script.after).getD script).keys := by
  cases pausing with
  | false => rfl
  | true =>
    simp only [Prompt.dialogue, conclude, if_true, Stage.quit, Option.any_some, Option.map_some,
      Option.getD_some, Script.after]
    cases (Prompt.answer script.keys).command <;> rfl

/-- Where only the answers end a sweep, they are the dialogue over all its levels. -/
theorem answers_eq_dialogue {w : Workspace K S R A} {algorithm : Algorithm}
    {plan : List (Resolution K)} {accepted : List (Solution K S R)} {pausing : Bool}
    {script : Script K} {watch : Stopwatch K} {clock : K}
    (hlast : ∀ stage ∈ runStages w algorithm plan accepted pausing script watch clock,
      stage.last = stage.quit) :
    (runStages w algorithm plan accepted pausing script watch clock).map Stage.answer =
      Prompt.dialogue pausing plan.length script.keys := by
  induction plan generalizing accepted pausing script watch clock with
  | nil => exact (Prompt.dialogue_zero pausing script.keys).symm
  | cons resolution plan ih =>
    obtain ⟨first, later, hcons, hfirst, hlater⟩ :=
      runStages_cons w algorithm resolution plan accepted pausing script watch clock
    rw [hcons] at hlast ⊢
    rw [List.length_cons, dialogue_conclude pausing script _ plan.length, ← hfirst, List.map_cons,
      ← hlast first List.mem_cons_self]
    rcases hlater with ⟨hends, rfl⟩ | ⟨hgoes, rfl⟩
    · rw [hends]
      rfl
    · rw [hgoes, ih fun stage hstage => hlast stage (List.mem_cons_of_mem _ hstage)]
      rfl

variable [ExactSums K] {ahead : K} {watch watch' : Stopwatch K}

/-- A stage beside the stage of the same level without a pause: it finds the same,
leaves the stopwatch trailing, and is the last one for the same reasons, or
because the user quits. -/
structure Beside (watch : Stopwatch K) (stage full : Stage K S R) : Prop where
  findings : stage.findings = full.findings
  trails : ∃ ahead, Trails ahead watch stage.watch ∧ stage.clock = full.clock + ahead
  last : stage.last = (stage.quit || full.last)

theorem conclude_beside (w : Workspace K S R A) (algorithm : Algorithm)
    (resolution : Resolution K) (accepted : List (Solution K S R)) (silent script : Script K)
    (clock : K) (pausing : Bool) (h : Trails ahead watch watch') (hwatch : watch.running = true) :
    Beside watch
      (conclude pausing script
        (Level.perform w algorithm resolution watch' accepted (clock + ahead)))
      (conclude false silent (Level.perform w algorithm resolution watch accepted clock)) := by
  rw [Level.perform_later h]
  generalize hfull : Level.perform w algorithm resolution watch accepted clock = full
  have hfullWatch : full.watch = watch := by rw [← hfull]; rfl
  have hfindings : (conclude pausing script (full.later ahead watch')).findings =
      (conclude false silent full).findings := by
    rw [Stage.findings, Stage.findings, conclude_level, conclude_level, Level.later_findings]
  obtain ⟨further, hfurther, hclock⟩ : ∃ further,
      Trails further watch (conclude pausing script (full.later ahead watch')).watch ∧
        (conclude pausing script (full.later ahead watch')).clock = full.clock + further := by
    cases pausing with
    | false => exact ⟨ahead, h, Level.later_clock⟩
    | true =>
      simp only [conclude, if_true, Level.later_clock]
      exact ⟨_, h.pause hwatch full.clock _, (ExactSums.add_sub_self_left full.clock _).symm⟩
  have hexpired : (conclude pausing script (full.later ahead watch')).expired =
      (conclude false silent full).expired := by
    rw [Stage.expired, hclock, hfurther.expired, ← hfullWatch]
    rfl
  have hfailure : (conclude pausing script (full.later ahead watch')).level.failure? =
      (conclude false silent full).level.failure? := congrArg Findings.failure? hfindings
  refine ⟨hfindings, ⟨further, hfurther, hclock⟩, ?_⟩
  rw [Stage.last, hexpired, hfailure, Bool.or_assoc]
  rfl

/-- The stages of a sweep that pauses, beside those of the same sweep without
pauses. -/
structure Heard (pausing : Bool) (keys : List String) (stages full : List (Stage K S R)) :
    Prop where
  /-- The answers are the dialogue over the levels of the other sweep. -/
  answers : stages.map Stage.answer = Prompt.dialogue pausing full.length keys
  /-- The levels performed come to the same. -/
  findings : stages.map Stage.findings <+: full.map Stage.findings

/-- Under a trailing stopwatch, a sweep hears its dialogue over the levels of the
sweep without pauses, and finds the same in those it performs. -/
theorem runStages_heard (w : Workspace K S R A) (algorithm : Algorithm)
    (plan : List (Resolution K)) (accepted : List (Solution K S R)) (silent script : Script K)
    (clock : K) (pausing : Bool) (h : Trails ahead watch watch') (hwatch : watch.running = true) :
    Heard pausing script.keys
      (runStages w algorithm plan accepted pausing script watch' (clock + ahead))
      (runStages w algorithm plan accepted false silent watch clock) := by
  induction plan generalizing accepted pausing script watch' ahead clock with
  | nil => exact ⟨(Prompt.dialogue_zero pausing script.keys).symm, List.nil_prefix⟩
  | cons resolution plan ih =>
    obtain ⟨full, fullLater, hfullCons, hfull, hfullLater⟩ :=
      runStages_cons_unpaused w algorithm resolution plan accepted silent watch clock
    obtain ⟨first, later, hcons, hfirst, hlater⟩ :=
      runStages_cons w algorithm resolution plan accepted pausing script watch' (clock + ahead)
    have hbeside := conclude_beside w algorithm resolution accepted silent script clock pausing h
      hwatch
    rw [← hfirst, ← hfull] at hbeside
    -- What the first stage hears is the first answer, and the rest is left to the others.
    have hdialogue := dialogue_conclude pausing script
      (Level.perform w algorithm resolution watch' accepted (clock + ahead)) fullLater.length
    rw [← hfirst] at hdialogue
    rw [hcons, hfullCons]
    rcases hlater with ⟨hends, rfl⟩ | ⟨hgoes, rfl⟩
    · constructor
      case answers =>
        rw [List.length_cons, hdialogue]
        cases hquit : first.quit with
        | true => rfl
        | false =>
          -- The other sweep ends here as well.
          rw [hbeside.last, hquit, Bool.false_or] at hends
          rcases hfullLater with ⟨-, rfl⟩ | ⟨hfullGoes, -⟩
          · rw [List.length_nil, Prompt.dialogue_zero]
            rfl
          · rw [hends] at hfullGoes
            cases hfullGoes
      case findings =>
        rw [List.map_cons, List.map_cons, hbeside.findings]
        exact (List.prefix_cons_inj _).mpr List.nil_prefix
    · rw [hbeside.last, Bool.or_eq_false_iff] at hgoes
      obtain ⟨further, hfurther, hclock⟩ := hbeside.trails
      have haccepted : first.level.final.accepted = full.level.final.accepted :=
        congrArg (fun findings => findings.front.solutions) hbeside.findings
      rcases hfullLater with ⟨hfullEnds, -⟩ | ⟨-, rfl⟩
      · rw [hfullEnds] at hgoes
        cases hgoes.2
      · have hnext := ih full.level.final.accepted
          ((first.answer.map script.after).getD script) full.clock
          (pausing && !first.answer.any fun a => a.command == .resume) hfurther
        rw [hgoes.1] at hdialogue
        rw [haccepted, hclock]
        constructor
        case answers =>
          rw [List.length_cons, hdialogue, List.map_cons]
          exact congrArg (first.answer :: ·) hnext.answers
        case findings =>
          rw [List.map_cons, List.map_cons, hbeside.findings]
          exact (List.prefix_cons_inj _).mpr hnext.findings

/-- The same of sweeps that start under the same stopwatch. -/
theorem runStages_heard_of_started (w : Workspace K S R A) (algorithm : Algorithm)
    (plan : List (Resolution K)) (timeout : Option K) (silent script : Script K) (pausing : Bool)
    (clock : K) :
    Heard pausing script.keys
      (runStages w algorithm plan [] pausing script (started timeout clock) clock)
      (runStages w algorithm plan [] false silent (started timeout clock) clock) := by
  have h := runStages_heard w algorithm plan [] silent script clock pausing
    (Trails.refl (started timeout clock) clock) rfl
  rwa [ExactSums.add_sub_self] at h

omit [ExactSums K] in
/-- A sweep beside another one is known from the keys. -/
theorem Heard.unique {pausing : Bool} {keys : List String}
    {stages stages' full : List (Stage K S R)}
    (h : Heard pausing keys stages full) (h' : Heard pausing keys stages' full) :
    stages.map Stage.answer = stages'.map Stage.answer ∧
      stages.map Stage.findings = stages'.map Stage.findings := by
  have hanswers := h.answers.trans h'.answers.symm
  have hlength : (stages.map Stage.findings).length = (stages'.map Stage.findings).length := by
    have hlength := congrArg List.length hanswers
    rwa [List.length_map, List.length_map] at hlength ⊢
  exact ⟨hanswers,
    (List.prefix_of_prefix_length_le h.findings h'.findings hlength.le).eq_of_length hlength⟩

/-- The waits of a script show neither in what the levels come to nor in what is
read. -/
theorem perform_waits (w : Workspace K S R A) (algorithm : Algorithm) (plan : List (Resolution K))
    (keys : List String) (waits waits' : Nat → K) (clock : K) :
    (perform w algorithm plan ⟨keys, waits⟩ clock).stages.map Stage.answer =
        (perform w algorithm plan ⟨keys, waits'⟩ clock).stages.map Stage.answer ∧
      (perform w algorithm plan ⟨keys, waits⟩ clock).stages.map Stage.findings =
        (perform w algorithm plan ⟨keys, waits'⟩ clock).stages.map Stage.findings := by
  -- Both sweeps run beside the one that never pauses.
  have heard := fun waits'' => runStages_heard_of_started w algorithm plan
    w.problem.settings.timeout ⟨keys, waits⟩ ⟨keys, waits''⟩ w.problem.settings.interactive clock
  exact (heard waits).unique (heard waits')

omit [ExactSums K] in
theorem outcome_eq_findings (sweep : Sweep K S R) : sweep.outcome =
    ((sweep.stages.map Stage.findings).map Findings.front).filter
      fun front => !front.solutions.isEmpty := by
  rw [List.map_map]
  rfl

omit [ExactSums K] in
theorem failure?_eq_findings (sweep : Sweep K S R) : sweep.failure? =
    (sweep.stages.map Stage.findings).findSome? Findings.failure? := by
  rw [List.findSome?_map]
  rfl

omit [ExactSums K] in
theorem compared_eq_findings (sweep : Sweep K S R) :
    (sweep.stages.flatMap fun stage => stage.level.compared) =
      (sweep.stages.map Stage.findings).flatMap Findings.compared := by
  rw [List.flatMap_map]
  rfl

omit [Scalar K] [ExactSums K] in
theorem keysRead_eq (sweep : Sweep K S R) :
    sweep.keysRead = Prompt.read (sweep.stages.map Stage.answer) := by
  rw [Prompt.read, List.flatMap_map]
  rfl

end Sweep

/-- **Waiting for a key never costs search time.** However long each key takes to
come, a search returns the same outcome, runtimes included, and reads the same
keys, or it is refused for the same reason. -/
theorem waiting_is_free [ExactSums K] (P : Problem K S R A) (modes : List (Mode A)) (stepCost : K)
    (algorithm : Algorithm) (levels : Given K) (keys : List String) (waits waits' : Nat → K)
    (clock : K) :
    (Search.scriptedSweep (some P) modes stepCost algorithm levels ⟨keys, waits⟩ clock).map
        (fun sweep => (sweep.outcome, sweep.keysRead)) =
      (Search.scriptedSweep (some P) modes stepCost algorithm levels ⟨keys, waits'⟩ clock).map
        fun sweep => (sweep.outcome, sweep.keysRead) := by
  unfold Search.scriptedSweep
  refine Granted.map_bind_congr fun problem _ => Granted.map_bind_congr fun _ _ =>
    Granted.map_bind_congr fun _ _ => Granted.map_bind_congr fun _ _ =>
      Granted.map_bind_congr fun strides _ => Granted.map_bind_congr fun plan _ => ?_
  obtain ⟨hanswers, hfindings⟩ := Sweep.perform_waits ⟨problem, modes, stepCost⟩ algorithm plan
    keys waits waits' clock
  dsimp only
  rw [Sweep.compared_eq_findings, Sweep.compared_eq_findings, hfindings,
    Sweep.failure?_eq_findings, Sweep.failure?_eq_findings, hfindings]
  refine Granted.map_bind_congr fun _ _ => ?_
  split
  · rfl
  · refine congrArg Except.ok (Prod.ext ?_ ?_)
    · dsimp only
      rw [Sweep.outcome_eq_findings, Sweep.outcome_eq_findings, hfindings]
    · dsimp only
      rw [Sweep.keysRead_eq, Sweep.keysRead_eq, hanswers]

/-- Of two keys the first is ignored, and a third one is the end of the input. Waiting
for longer than the timeout does not keep the second level from being performed. -/
theorem waiting_is_free_sample :
    (Search.scriptedSweep (some ((Rate.problem Rate.sampleSettings).governed (some 13) true))
        Rate.sampleModes 1 .exhaustive (.whole 2) ⟨["x", "c"], fun _ => 0⟩ 0).map
        (fun sweep => (sweep.outcome.length, sweep.keysRead)) = .ok (2, ["x", "c", ""]) ∧
    (Search.scriptedSweep (some ((Rate.problem Rate.sampleSettings).governed (some 13) true))
        Rate.sampleModes 1 .exhaustive (.whole 2) ⟨["x", "c"], fun _ => 0⟩ 0).map
        (fun sweep => (sweep.outcome, sweep.keysRead)) =
      (Search.scriptedSweep (some ((Rate.problem Rate.sampleSettings).governed (some 13) true))
        Rate.sampleModes 1 .exhaustive (.whole 2) ⟨["x", "c"], fun n => n + 20⟩ 0).map
        fun sweep => (sweep.outcome, sweep.keysRead) := by
  constructor
  · cbv
  · exact waiting_is_free ((Rate.problem Rate.sampleSettings).governed (some 13) true)
      Rate.sampleModes 1 .exhaustive (.whole 2) ["x", "c"] (fun _ => 0) (fun n => n + 20) 0

/-! ## Sweeps without a timeout -/

section

variable {P : Problem K S R A} {timeout : Option K} {pausing : Bool} {modes : List (Mode A)}
  {stepCost : K} {algorithm : Algorithm} {plan : List (Resolution K)} {script : Script K}
  {clock : K}

/-- Without a timeout, only an answer ends a sweep of sound levels. -/
theorem Sweep.last_eq_quit (htimeout : limitOf timeout = none)
    (hsound : ∀ stage ∈ runStages ⟨P, modes, stepCost⟩ algorithm plan [] pausing script
      (started timeout clock) clock, stage.level.Sound P) :
    ∀ stage ∈ runStages ⟨P, modes, stepCost⟩ algorithm plan [] pausing script
      (started timeout clock) clock, stage.last = stage.quit := by
  intro stage hstage
  have hlimit : stage.watch.limit = none := (runStages_limit stage hstage).2.trans htimeout
  rw [Stage.last_of_sound (hsound stage hstage), Stage.expired, expired_eq_false hlimit,
    Bool.or_false]

/-- Levels that come to the same are sound together. -/
theorem Level.Sound.of_findings {l l' : Level K S R} (h : l.Sound P)
    (hfindings : l'.findings = l.findings) : l'.Sound P where
  succeeds := (congrArg Findings.failure? hfindings).trans h.succeeds
  measured := by
    have hcompared : l'.compared = l.compared := congrArg Findings.compared hfindings
    rw [hcompared]
    exact h.measured

end

/-- **The interactive protocol.** Without a timeout, a search that pauses performs
all levels, unless the first answer that is no "c" among as many answers as there
are levels is a "q": then it performs the levels up to that answer. The keys read
are those up to the first answer that is no "c", or else up to the last answer
asked for. As far as clock readings are exact, the outcome is that of the search
without pauses, cut to the levels performed. -/
theorem interactive_protocol (P : Problem K S R A) (modes : List (Mode A)) (stepCost : K)
    (algorithm : Algorithm) (levels : Given K) (timeout : Option K)
    (htimeout : limitOf timeout = none) (script : Script K) (clock : K) :
    (∀ sweep, Search.scriptedSweep (some (P.governed timeout true)) modes stepCost algorithm levels
        script clock = .ok sweep →
      ∃ strides, algorithm.strides? levels = .ok strides ∧
        (sweep.stages.map fun stage => stage.level.front.stride) <+: strides ∧
        sweep.stages.length = (Prompt.exit? strides.length script.keys).elim strides.length
          (fun n => if Prompt.verdict script.keys n = "q" then n + 1 else strides.length) ∧
        sweep.keysRead = Prompt.upTo
          ((Prompt.exit? strides.length script.keys).elim strides.length (· + 1)) script.keys) ∧
    ∀ [ExactSums K] full, Search.scriptedSweep (some (P.governed timeout false)) modes stepCost
        algorithm levels script clock = .ok full →
      algorithm.strides? levels = .ok (full.stages.map fun stage => stage.level.front.stride) ∧
      ∃ sweep, Search.scriptedSweep (some (P.governed timeout true)) modes stepCost algorithm levels
          script clock = .ok sweep ∧
        sweep.outcome = ((full.stages.take sweep.stages.length).map
          fun stage => stage.level.front).filter fun front => !front.solutions.isEmpty := by
  constructor
  · intro sweep h
    obtain ⟨strides, plan, hplanned, hstages, hsound⟩ := Search.exists_plan_of_governed h
    have hlast : ∀ stage ∈ sweep.stages, stage.last = stage.quit := by
      rw [hstages] at hsound ⊢
      exact Sweep.last_eq_quit htimeout hsound
    have hanswers : sweep.stages.map Stage.answer =
        Prompt.dialogue true strides.length script.keys := by
      rw [hstages] at hlast ⊢
      rw [Sweep.answers_eq_dialogue hlast, hplanned.length_eq]
    refine ⟨strides, hplanned.strides_granted, ?_, ?_, ?_⟩
    · rw [hstages]
      exact hplanned.strides_initial Sweep.runStages_initial
    · rw [← List.length_map Stage.answer, hanswers, Prompt.length_dialogue]
    · rw [Sweep.keysRead_eq, hanswers, Prompt.read_dialogue]
  · intro _ full h
    obtain ⟨strides, plan, hplanned, hstages, hsound⟩ := Search.exists_plan_of_governed h
    constructor
    · have hlast : ∀ stage ∈ full.stages, stage.last = false := by
        rw [hstages] at hsound ⊢
        intro stage hstage
        rw [Sweep.last_eq_quit htimeout hsound stage hstage, Sweep.runStages_quit stage hstage]
      have hperformed : (full.stages.map fun stage => stage.level.resolution) = plan := by
        rw [hstages] at hlast ⊢
        exact Sweep.runStages_resolutions hlast
      have hstrides := congrArg (List.map Resolution.stride) hperformed
      rw [List.map_map, hplanned.strides_eq] at hstrides
      rw [hplanned.strides_granted, ← hstrides]
      rfl
    · obtain ⟨-, hinitial⟩ := Sweep.runStages_heard_of_started ⟨P, modes, stepCost⟩ algorithm plan
        timeout script script true clock
      rw [← hstages] at hinitial
      have hpausedSound : ∀ stage ∈ Sweep.runStages ⟨P, modes, stepCost⟩ algorithm plan [] true
          script (started timeout clock) clock, stage.level.Sound P := by
        intro stage hstage
        obtain ⟨other, hother, hfindings⟩ :=
          List.mem_map.mp (hinitial.subset (List.mem_map_of_mem hstage))
        exact (hsound other hother).of_findings hfindings.symm
      obtain ⟨sweep, hsweep, hsweepStages⟩ := Search.exists_governed hplanned hpausedSound
      refine ⟨sweep, hsweep, ?_⟩
      rw [← hsweepStages] at hinitial
      have htake := List.prefix_iff_eq_take.mp hinitial
      rw [List.length_map, ← List.map_take] at htake
      rw [Sweep.outcome_eq_findings, htake, List.map_map]
      rfl

/-- Of two levels, a "q" after an ignored key leaves one. -/
theorem interactive_protocol_sample : ∃ full sweep,
    Search.scriptedSweep (some ((Rate.problem Rate.sampleSettings).governed none false))
      Rate.sampleModes 1 .exhaustive (.whole 2) ⟨["x", "q", "c"], fun n => n + 20⟩ 0 = .ok full ∧
    Search.scriptedSweep (some ((Rate.problem Rate.sampleSettings).governed none true))
      Rate.sampleModes 1 .exhaustive (.whole 2) ⟨["x", "q", "c"], fun n => n + 20⟩ 0 = .ok sweep ∧
    full.outcome.length = 2 ∧ sweep.stages.length = 1 ∧ sweep.keysRead = ["x", "q"] ∧
    sweep.outcome = ((full.stages.take 1).map fun stage => stage.level.front).filter
      fun front => !front.solutions.isEmpty := by
  obtain ⟨hprotocol, hunpaused⟩ := interactive_protocol (Rate.problem Rate.sampleSettings)
    Rate.sampleModes 1 .exhaustive (.whole 2) none rfl ⟨["x", "q", "c"], fun n => n + 20⟩ 0
  have hfull : ∃ full, Search.scriptedSweep
        (some ((Rate.problem Rate.sampleSettings).governed none false)) Rate.sampleModes 1
        .exhaustive (.whole 2) ⟨["x", "q", "c"], fun n => n + 20⟩ 0 = .ok full ∧
      full.outcome.length = 2 := by
    refine Granted.map.mp ?_
    cbv
  obtain ⟨full, hfull, hlength⟩ := hfull
  obtain ⟨-, sweep, hsweep, houtcome⟩ := hunpaused full hfull
  obtain ⟨strides, hstrides, -, hperformed, hread⟩ := hprotocol sweep hsweep
  obtain rfl : strides = [2, 1] := Except.ok.inj (hstrides.symm.trans (by cbv))
  have hone : sweep.stages.length = 1 := hperformed.trans (by decide)
  rw [hone] at houtcome
  exact ⟨full, sweep, hfull, hsweep, hlength, hone, hread.trans (by decide), houtcome⟩

end ModeSchedule
