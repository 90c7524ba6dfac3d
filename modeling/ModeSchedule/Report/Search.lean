/-
ModeSchedule.Report.Search — the messages of a search.

Every step of a search is recorded with its intermediate lists, so the messages
are a function of the record. Numbers of candidates and the candidates
themselves are for debugging; each round and each level is worth a line; what
cuts a search short is a warning.
-/
import ModeSchedule.Report.Message
import ModeSchedule.Report.Text
import ModeSchedule.Search.Sweep

namespace ModeSchedule.Report

variable {S R : Type}

/-! ## Lists of candidates -/

/-- A list of candidates, under a title with their number if one is given. -/
def candidates (describe : R → String) (title : String) (xs : List (Solution Float S R)) :
    List Message :=
  let lines := xs.map fun s => Message.debug fun _ => "[solution]     " ++ s.text describe
  if title.isEmpty then lines
  else Message.debug (fun _ => s!"[solution] {title} ({xs.length})") :: lines

/-- A line about the size of a list. -/
def sized (count : Nat) (what : String) : Message :=
  .debug fun _ => s!"[common] [{aligned 8 count}] {what}"

/-- Pruning, from so many candidates to so many; `idle` where there was nothing
to prune against. -/
def pruning (before after : Nat) (idle : Bool) : List Message :=
  [sized before "Before removing dominated solutions",
   sized after ("After removing dominated solutions" ++ if idle then " (SAME)" else "")]

def deduplication (before after : Nat) : List Message :=
  [sized before "Before removing duplicate solutions",
   sized after "After removing duplicate solutions"]

/-- Dividing so many candidates; nothing is said about none. -/
def division (complete incomplete : Nat) : List Message :=
  if complete + incomplete = 0 then []
  else
    [sized (complete + incomplete) "Before splitting among complete and partial solutions",
     .debug fun _ => "[common] After splitting among complete and partial solutions " ++
       s!"[complete: {aligned 8 complete}, partial: {aligned 8 incomplete}]"]

/-- Extending so many candidates. -/
def extension (before : Nat) (x : Extension Float S R) : List Message :=
  let start := sized before "Before extending set of solutions"
  let finish := sized x.children.length "After extending set of solutions"
  match x.ending with
  | .done => [start, finish]
  | .expired =>
    [start, .warning fun _ => "[common] Timer expired while extending solutions", finish]
  | .failed _ => [start]

/-! ## Rounds and levels -/

/-- What joining the accepted candidates takes. -/
def merging (r : Round Float S R) : List Message :=
  if r.complete.isEmpty then []
  else
    pruning (r.before.accepted.length + r.complete.length) r.undominated.length false ++
      deduplication r.undominated.length r.after.accepted.length

def round (describe : R → String) (algorithm : Algorithm) (r : Round Float S R) : List Message :=
  let extended := extension r.before.partials.length r.extension
  match r.extension.ending with
  | .failed _ => extended
  | _ =>
    extended ++ candidates describe "Extended solutions" r.extension.children ++
      pruning r.extension.children.length r.surviving.length r.before.accepted.isEmpty ++
      candidates describe "Extended solutions not dominated by accepted ones" r.surviving ++
      division r.complete.length r.incomplete.length ++ merging r ++
      match algorithm with
      | .heuristic =>
        pruning r.incomplete.length r.after.partials.length r.incomplete.isEmpty
      | _ => []

/-- The line about a round that began at `startedAt`, and what it left. -/
def progress (describe : R → String) (l : Level Float S R) (number : Nat) (startedAt : Float)
    (r : Round Float S R) : List Message :=
  let now := r.clock
  let spent := (Stopwatch.started none startedAt).elapsed now
  let total := l.watch.elapsed now
  let blocks := l.resolution.blocks
  .info (fun _ =>
    s!"[round] Step: {aligned 6 number}/{leftAligned 6 (toString blocks)}, " ++
    s!"Part: {aligned 6 r.after.partials.length}, Full: {aligned 6 r.after.accepted.length}, " ++
    s!"RndTm: {fixed 8 3 spent} s, RunTm: {fixed 8 3 total} s, " ++
    s!"RemTm: {fixed 8 3 (orInfinite (l.watch.remaining now))} s") ::
  candidates describe "Accepted solutions" r.after.accepted ++
  candidates describe "Partial solutions" r.after.partials ++
  if l.watch.expired now then
    [.warning fun _ =>
      s!"[round] Iteration index {aligned 2 number} of {aligned 3 blocks} " ++
      s!"(Steps: {l.resolution.stride}, Length: {fixed 0 2 l.resolution.stepLength}), " ++
      s!"went into timeout ({fixed 0 2 total} > {fixed 0 2 (orInfinite l.watch.limit)})"]
  else []

/-- The rounds of a level from a number on. -/
def rounds (describe : R → String) (algorithm : Algorithm) (l : Level Float S R) :
    Nat → Float → List (Round Float S R) → List Message
  | _, _, [] => []
  | number, startedAt, r :: rs =>
    round describe algorithm r ++
      (if r.failure?.isSome then []
       else progress describe l number startedAt r ++
         rounds describe algorithm l (number + 1) r.clock rs)

def level (describe : R → String) (algorithm : Algorithm) (l : Level Float S R) : List Message :=
  .info (fun _ =>
    s!"[round] Perform {aligned 6 l.resolution.blocks} iterations maximum, " ++
    s!"with {aligned 5 l.resolution.stride} steps per iteration, " ++
    s!"each simulating {fixed 7 2 l.resolution.stepLength}") ::
  rounds describe algorithm l 1 l.startedAt l.rounds

/-! ## Sweeps -/

/-- What is announced before the first level. -/
def plan (algorithm : Algorithm) (modes : Nat) (resolutions : List (Resolution Float)) :
    List Message :=
  [.info fun _ => s!"[search] Algorithm: {algorithm.name}, modes: {modes}",
   .info fun _ => "[search] | Max Iterations | Steps Per Iteration | Time Delta |",
   .info fun _ => "[search] |----------------|---------------------|------------|"] ++
  resolutions.map fun r => .info fun _ =>
    s!"[search] | {aligned 14 r.blocks} | {aligned 19 r.stride} | {fixed 10 6 r.stepLength} |"

/-- A pause and its answer. -/
def pause (stride : Nat) (a : Answer) : List Message :=
  [.warning fun _ => "[search] Press 'c' to continue the search, " ++
    "'r' resume and disable interactive, 'q' to stop it now."] ++
  (if a.read.getLast? = some "" then
    [.warning fun _ => "[search] No more input, resuming without further pauses"] else []) ++
  (if a.command = .quit then
    [.warning fun _ =>
      s!"[search] Stopping at stride factor {aligned 3 stride}, on user request"] else [])

def stage (describe : R → String) (algorithm : Algorithm) (s : Stage Float S R) : List Message :=
  let stride := s.level.resolution.stride
  level describe algorithm s.level ++
  (if s.level.final.accepted.isEmpty then
    [.warning fun _ => s!"[search] No solution found with stride factor {aligned 3 stride}"]
   else []) ++
  ((s.answer.map (pause stride)).getD []) ++
  if !s.quit && s.expired then
    [.warning fun _ =>
      s!"[search] Stopping at stride factor {aligned 3 stride}, because of time-out"]
  else []

/-- All messages of a sweep. -/
def sweep (describe : R → String) (s : Sweep Float S R) : List Message :=
  plan s.algorithm s.modes s.plan ++ s.stages.flatMap (stage describe s.algorithm) ++
    [.info fun _ => s!"[search] Done | fronts={s.outcome.length}, " ++
      s!"elapsed={fixed 0 3 (s.watch.elapsed s.clock)} s"]

/-- What had been announced when a sweep was refused, if it got that far: the
levels up to the first one that does not fit the horizon. -/
def refusedSweep {A : Type} (problem : Problem Float S R A) (modes : Nat) (algorithm : Algorithm)
    (levels : Given Float) (cause : PlanError) : List Message :=
  match cause with
  | .horizon _ | .strideTooLong =>
    let strides := (algorithm.stridesFor levels).toOption.getD []
    let resolutions := strides.map (Resolution.ofStride problem)
    plan algorithm modes ((resolutions.takeWhile Except.isOk).filterMap Except.toOption)
  | _ => []

end ModeSchedule.Report
