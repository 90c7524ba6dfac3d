/-
ModeSchedule.Proofs.RunningTime — a stopwatch shows how long it has been running.

A stopwatch keeps a sum and perhaps a start. What it should show is a matter of the calls alone:
an instant counts if the stopwatch has been started by then, and neither paused nor reset since,
and if no reset is still to come (`Counted`). `Tracks` is what the two have to do with each other:
the instants that count are those of some finished spans, whose lengths are the sum, and those from
the start on. Every call keeps it (`Tracks.perform`), whether or not the stopwatch was running, so
it holds of every history (`exists_tracks`).

To read a stopwatch is to pause it and take the sum (`elapsed_eq_pause`), so the spans of a reading
are those of a history that ends with a pause. What is shown never goes back while the clock does
not, so a limit that has been reached stays reached (`reached_later`).
`stopwatch_measures_running_time` puts it together.
-/
import ModeSchedule.Proofs.Timekeeping

namespace ModeSchedule.Stopwatch

/-! ## Histories -/

/-- What a stopwatch can be told. -/
inductive Command where
  | start
  | pause
  | reset
  | setLimit (timeout : Option Rat)

/-- A command, and what the clock shows when it is given. -/
structure Call where
  clock : Rat
  command : Command

def Call.perform (c : Call) (w : Stopwatch Rat) : Stopwatch Rat :=
  match c.command with
  | .start => w.start c.clock
  | .pause => w.pause c.clock
  | .reset => w.reset
  | .setLimit timeout => w.setLimit timeout

/-- A new stopwatch after a number of calls. -/
def after (timeout : Option Rat) (calls : List Call) : Stopwatch Rat :=
  calls.foldl (fun w c => c.perform w) (withLimit timeout)

theorem after_append (timeout : Option Rat) (calls later : List Call) :
    after timeout (calls ++ later) = later.foldl (fun w c => c.perform w) (after timeout calls) :=
  List.foldl_append ..

/-- Calls in order, none of them later than a reading of the clock. -/
structure Until (calls : List Call) (clock : Rat) : Prop where
  inOrder : calls.Pairwise fun c d => c.clock ≤ d.clock
  past : ∀ c ∈ calls, c.clock ≤ clock

/-! ## What should be shown -/

/-- A stopwatch that is told so does not run on. -/
def Command.stops : Command → Bool
  | .pause => true
  | .reset => true
  | _ => false

/-- By then the stopwatch has been started, and it has not been stopped since. -/
def RunningAt (calls : List Call) (t : Rat) : Prop :=
  ∃ early late clock, calls = early ++ ⟨clock, .start⟩ :: late ∧ clock ≤ t ∧
    ∀ c ∈ late, c.command.stops = true → t < c.clock

/-- The stopwatch is running then, and it has not been reset after that. -/
def Counted (calls : List Call) (t : Rat) : Prop :=
  (∀ c ∈ calls, c.command = .reset → c.clock ≤ t) ∧ RunningAt calls t

/-- The timeout that a command sets. -/
def Command.timeout? : Command → Option (Option Rat)
  | .setLimit timeout => some timeout
  | _ => none

/-- The timeout that was set last, or else the one from the beginning. -/
def lastTimeout (timeout : Option Rat) (calls : List Call) : Option Rat :=
  (calls.filterMap fun c => c.command.timeout?).getLast?.getD timeout

/-- The timeout that was set last is a limit. -/
def HasLimit (timeout : Option Rat) (calls : List Call) (limit : Rat) : Prop :=
  lastTimeout timeout calls = some limit ∧ limit ≠ 0

/-- An interval of the clock, without its end. -/
structure Span where
  first : Rat
  last : Rat
  le : first ≤ last

namespace Span

def length (s : Span) : Rat := s.last - s.first

def instants (s : Span) : Set Rat := Set.Ico s.first s.last

end Span

/-! ## Instants that count -/

section

variable {calls : List Call} {clock t : Rat}

/-- After one more call, the stopwatch is running if that starts it, or if it was running and that
does not stop it. -/
theorem runningAt_append {c : Call} : RunningAt (calls ++ [c]) t ↔
    c.command = .start ∧ c.clock ≤ t ∨
      RunningAt calls t ∧ (c.command.stops = true → t < c.clock) := by
  constructor
  · rintro ⟨early, late, clock, hsplit, hclock, hlate⟩
    rcases List.eq_nil_or_concat late with rfl | ⟨late, d, rfl⟩
    · obtain ⟨-, hlast⟩ := List.append_inj' hsplit rfl
      obtain rfl : c = ⟨clock, .start⟩ := List.head_eq_of_cons_eq hlast
      exact Or.inl ⟨rfl, hclock⟩
    · rw [List.concat_eq_append, ← List.cons_append, ← List.append_assoc] at hsplit
      obtain ⟨rfl, hlast⟩ := List.append_inj' hsplit rfl
      obtain rfl : c = d := List.head_eq_of_cons_eq hlast
      refine Or.inr ⟨⟨early, late, clock, rfl, hclock, fun d hd => hlate d ?_⟩, hlate c ?_⟩
      · simp [hd]
      · simp
  · rintro (⟨hstart, hclock⟩ | ⟨⟨early, late, clock, rfl, hclock, hlate⟩, hc⟩)
    · obtain ⟨clock, command⟩ := c
      obtain rfl : command = .start := hstart
      exact ⟨calls, [], clock, rfl, hclock, by simp⟩
    · refine ⟨early, late ++ [c], clock, by simp, hclock, fun d hd => ?_⟩
      rcases List.mem_append.mp hd with hd | hd
      · exact hlate d hd
      · obtain rfl := List.mem_singleton.mp hd
        exact hc

theorem counted_append {c : Call} : Counted (calls ++ [c]) t ↔
    ((∀ d ∈ calls, d.command = .reset → d.clock ≤ t) ∧ (c.command = .reset → c.clock ≤ t)) ∧
      (c.command = .start ∧ c.clock ≤ t ∨
        RunningAt calls t ∧ (c.command.stops = true → t < c.clock)) := by
  rw [Counted, runningAt_append, List.forall_mem_append, List.forall_mem_singleton]

theorem counted_start (hpast : ∀ c ∈ calls, c.clock ≤ clock) :
    Counted (calls ++ [⟨clock, .start⟩]) t ↔ Counted calls t ∨ clock ≤ t := by
  rw [counted_append]
  constructor
  · rintro ⟨⟨hresets, -⟩, ⟨-, hclock⟩ | ⟨hrunning, -⟩⟩
    · exact Or.inr hclock
    · exact Or.inl ⟨hresets, hrunning⟩
  · rintro (⟨hresets, hrunning⟩ | hclock)
    · exact ⟨⟨hresets, nofun⟩, Or.inr ⟨hrunning, nofun⟩⟩
    · exact ⟨⟨fun c hc _ => (hpast c hc).trans hclock, nofun⟩, Or.inl ⟨rfl, hclock⟩⟩

theorem counted_pause :
    Counted (calls ++ [⟨clock, .pause⟩]) t ↔ Counted calls t ∧ t < clock := by
  rw [counted_append]
  constructor
  · rintro ⟨⟨hresets, -⟩, ⟨hstart, -⟩ | ⟨hrunning, hbefore⟩⟩
    · cases hstart
    · exact ⟨⟨hresets, hrunning⟩, hbefore rfl⟩
  · rintro ⟨⟨hresets, hrunning⟩, hbefore⟩
    exact ⟨⟨hresets, nofun⟩, Or.inr ⟨hrunning, fun _ => hbefore⟩⟩

/-- Nothing counts before a reset, and nothing is running after it. -/
theorem not_counted_reset : ¬Counted (calls ++ [⟨clock, .reset⟩]) t := by
  rw [counted_append]
  rintro ⟨⟨-, hclock⟩, ⟨hstart, -⟩ | ⟨-, hbefore⟩⟩
  · cases hstart
  · exact (hbefore rfl).not_ge (hclock rfl)

theorem counted_setLimit {timeout : Option Rat} :
    Counted (calls ++ [⟨clock, .setLimit timeout⟩]) t ↔ Counted calls t := by
  rw [counted_append]
  constructor
  · rintro ⟨⟨hresets, -⟩, ⟨hstart, -⟩ | ⟨hrunning, -⟩⟩
    · cases hstart
    · exact ⟨hresets, hrunning⟩
  · rintro ⟨hresets, hrunning⟩
    exact ⟨⟨hresets, nofun⟩, Or.inr ⟨hrunning, nofun⟩⟩

end

/-! ## What a stopwatch keeps -/

/-- A stopwatch after some calls, read at a clock that they are not beyond: it has counted the
spans that are finished, and the instants that count are those of the spans and those from its
start on. -/
structure Tracks (calls : List Call) (clock : Rat) (spans : List Span) (w : Stopwatch Rat) :
    Prop where
  counted : w.counted = (spans.map Span.length).sum
  inOrder : spans.Pairwise fun s s' => s.last ≤ s'.first
  past : ∀ s ∈ spans, s.last ≤ w.startedAt.getD clock
  started : ∀ a ∈ w.startedAt, a ≤ clock
  instants : ∀ t, Counted calls t ↔ (∃ s ∈ spans, t ∈ s.instants) ∨ ∃ a ∈ w.startedAt, a ≤ t

namespace Tracks

variable {calls : List Call} {clock : Rat} {spans : List Span} {w : Stopwatch Rat}

theorem last_le (h : Tracks calls clock spans w) : ∀ s ∈ spans, s.last ≤ clock := by
  intro s hs
  have hpast := h.past s hs
  cases hw : w.startedAt with
  | none => rwa [hw] at hpast
  | some a =>
    rw [hw] at hpast
    exact le_trans hpast (h.started a hw)

/-- What is finished is over by the time of the reading. -/
theorem lt_of_finished (h : Tracks calls clock spans w) {t : Rat}
    (ht : ∃ s ∈ spans, t ∈ s.instants) : t < clock := by
  obtain ⟨s, hs, ht⟩ := ht
  exact ht.2.trans_le (h.last_le s hs)

theorem later (h : Tracks calls clock spans w) {next : Rat} (hle : clock ≤ next) :
    Tracks calls next spans w := by
  refine ⟨h.counted, h.inOrder, fun s hs => ?_, fun a ha => (h.started a ha).trans hle,
    h.instants⟩
  have hpast := h.past s hs
  cases hw : w.startedAt with
  | none => exact (h.last_le s hs).trans hle
  | some a => rwa [hw] at hpast

theorem start (h : Tracks calls clock spans w) (hpast : ∀ c ∈ calls, c.clock ≤ clock) :
    Tracks (calls ++ [⟨clock, .start⟩]) clock spans (w.start clock) := by
  refine ⟨h.counted, h.inOrder, h.past, ?_, fun t => ?_⟩
  · rintro a ⟨rfl⟩
    cases hw : w.startedAt with
    | none => exact le_refl clock
    | some a => exact h.started a hw
  · rw [counted_start hpast, h.instants t]
    cases hw : w.startedAt with
    | none => simp [Stopwatch.start, hw]
    | some a =>
      have ha := h.started a hw
      simp only [Stopwatch.start, hw, Option.getD_some, Option.mem_some_iff, exists_eq_left',
        or_assoc]
      -- It is running already, and from an earlier start on.
      exact or_congr_right (or_iff_left_of_imp ha.trans)

/-- A pause finishes the span that has been running. -/
theorem pause (h : Tracks calls clock spans w) :
    ∃ spans, Tracks (calls ++ [⟨clock, .pause⟩]) clock spans (w.pause clock) := by
  cases hw : w.startedAt with
  | none =>
    have hsame : w.pause clock = w := by simp only [Stopwatch.pause, hw]
    rw [hsame]
    refine ⟨spans, h.counted, h.inOrder, h.past, h.started, fun t => ?_⟩
    rw [counted_pause, h.instants t, hw]
    simp only [Option.not_mem_none, false_and, exists_false, or_false]
    exact and_iff_left_of_imp h.lt_of_finished
  | some a =>
    have ha := h.started a hw
    have hpast : ∀ s ∈ spans, s.last ≤ a := fun s hs => by simpa [hw] using h.past s hs
    have hpaused : w.pause clock =
        { w with counted := w.counted + (clock - a), startedAt := none } := by
      simp only [Stopwatch.pause, hw]
    rw [hpaused]
    refine ⟨spans ++ [⟨a, clock, ha⟩], ?_, ?_, ?_, by simp, fun t => ?_⟩
    · rw [List.map_append, List.sum_append, List.map_singleton, List.sum_singleton, ← h.counted]
      rfl
    · refine List.pairwise_append.mpr ⟨h.inOrder, List.pairwise_singleton _ _, ?_⟩
      simpa using hpast
    · intro s hs
      rcases List.mem_append.mp hs with hs | hs
      · exact h.last_le s hs
      · obtain rfl := List.mem_singleton.mp hs
        exact le_refl clock
    · rw [counted_pause, h.instants t, hw]
      simp only [Option.mem_some_iff, exists_eq_left', List.mem_append, List.mem_singleton,
        or_and_right, exists_or, exists_eq_left, Option.not_mem_none, false_and, exists_false,
        or_false]
      exact or_congr_left (and_iff_left_of_imp h.lt_of_finished)

theorem reset : Tracks (calls ++ [⟨clock, .reset⟩]) clock [] w.reset where
  counted := rfl
  inOrder := .nil
  past := nofun
  started := nofun
  instants := fun t => iff_of_false not_counted_reset (by simp [Stopwatch.reset])

theorem setLimit (h : Tracks calls clock spans w) (timeout : Option Rat) :
    Tracks (calls ++ [⟨clock, .setLimit timeout⟩]) clock spans (w.setLimit timeout) :=
  ⟨h.counted, h.inOrder, h.past, h.started, fun t => counted_setLimit.trans (h.instants t)⟩

/-- Every call keeps track of the instants that count. -/
theorem perform {c : Call} (h : Tracks calls c.clock spans w)
    (hpast : ∀ d ∈ calls, d.clock ≤ c.clock) :
    ∃ spans, Tracks (calls ++ [c]) c.clock spans (c.perform w) := by
  obtain ⟨clock, command⟩ := c
  cases command with
  | start => exact ⟨spans, h.start hpast⟩
  | pause => exact h.pause
  | reset => exact ⟨[], reset⟩
  | setLimit timeout => exact ⟨spans, h.setLimit timeout⟩

/-- It is running if it should be. -/
theorem running_iff (h : Tracks calls clock spans w) (hpast : ∀ c ∈ calls, c.clock ≤ clock) :
    w.running = true ↔ RunningAt calls clock := by
  have hnow := h.instants clock
  have hresets : ∀ c ∈ calls, c.command = .reset → c.clock ≤ clock := fun c hc _ => hpast c hc
  have hfinished : ¬∃ s ∈ spans, clock ∈ s.instants :=
    fun hclock => (h.lt_of_finished hclock).false
  rw [Counted, and_iff_right hresets, or_iff_right hfinished] at hnow
  rw [hnow, running, Option.isSome_iff_exists]
  exact exists_congr fun a => ⟨fun ha => ⟨ha, h.started a ha⟩, And.left⟩

end Tracks

/-- Every stopwatch keeps track of the instants that count, whatever the calls were. -/
theorem exists_tracks (timeout : Option Rat) {calls : List Call} {clock : Rat}
    (h : Until calls clock) : ∃ spans, Tracks calls clock spans (after timeout calls) := by
  -- The last call is made at its own time; only the reading may be later.
  induction calls using List.reverseRecOn generalizing clock with
  | nil =>
    refine ⟨[], rfl, .nil, nofun, nofun, fun t => iff_of_false ?_ (by simp [after, withLimit])⟩
    rintro ⟨-, early, late, _, hsplit, -⟩
    simp at hsplit
  | append_singleton calls c ih =>
    obtain ⟨hinOrder, -, hpast⟩ := List.pairwise_append.mp h.inOrder
    have hpast : ∀ d ∈ calls, d.clock ≤ c.clock := fun d hd => hpast d hd c List.mem_cons_self
    obtain ⟨spans, htracks⟩ := ih ⟨hinOrder, hpast⟩
    obtain ⟨spans, htracks⟩ := htracks.perform hpast
    rw [after_append]
    exact ⟨spans, htracks.later (h.past c (by simp))⟩

/-! ## Readings -/

/-- To read a stopwatch is to pause it and take what was counted. -/
theorem elapsed_eq_pause (w : Stopwatch Rat) (now : Rat) :
    w.elapsed now = (w.pause now).counted := by
  unfold elapsed pause
  split
  · rfl
  · rfl

/-- What is shown is the length of the spans of the instants that count. -/
theorem exists_spans (timeout : Option Rat) {calls : List Call} {now : Rat}
    (h : Until calls now) : ∃ spans : List Span,
      (spans.Pairwise fun s s' => s.last ≤ s'.first) ∧
      (∀ t, (∃ s ∈ spans, t ∈ s.instants) ↔ Counted calls t ∧ t < now) ∧
      (after timeout calls).elapsed now = (spans.map Span.length).sum := by
  obtain ⟨spans, htracks⟩ := exists_tracks timeout h
  obtain ⟨spans, hpaused⟩ := htracks.pause
  have hstopped : ((after timeout calls).pause now).startedAt = none := by
    unfold pause
    split
    · assumption
    · rfl
  refine ⟨spans, hpaused.inOrder, fun t => ?_, ?_⟩
  · rw [← counted_pause, hpaused.instants t, hstopped]
    simp
  · rw [elapsed_eq_pause, hpaused.counted]

theorem limit_pause (w : Stopwatch Rat) (now : Rat) : (w.pause now).limit = w.limit := by
  unfold pause
  split
  · rfl
  · rfl

/-- The limit is the timeout that was set last, unless that is zero. -/
theorem limit_after (timeout : Option Rat) (calls : List Call) :
    (after timeout calls).limit = limitOf (lastTimeout timeout calls) := by
  induction calls using List.reverseRecOn with
  | nil => rfl
  | append_singleton calls c ih =>
    obtain ⟨clock, command⟩ := c
    rw [after_append, lastTimeout, List.filterMap_append]
    cases command with
    | start => simpa [Call.perform, Stopwatch.start, Command.timeout?, lastTimeout] using ih
    | pause => simpa [Call.perform, limit_pause, Command.timeout?, lastTimeout] using ih
    | reset => simpa [Call.perform, Stopwatch.reset, Command.timeout?, lastTimeout] using ih
    | setLimit timeout => simp [Call.perform, Stopwatch.setLimit, Command.timeout?]

theorem limit_eq_some_iff {timeout : Option Rat} {calls : List Call} {limit : Rat} :
    (after timeout calls).limit = some limit ↔ HasLimit timeout calls limit := by
  rw [limit_after, limitOf, Option.filter_eq_some_iff]
  simp [HasLimit]

theorem remaining_of_limit {w : Stopwatch Rat} {limit : Rat} (h : w.limit = some limit)
    (now : Rat) : w.remaining now = some (max 0 (limit - w.elapsed now)) := by
  rw [remaining, h]
  exact congrArg some (max_def_lt 0 (limit - w.elapsed now)).symm

theorem expired_iff_reached {w : Stopwatch Rat} {now : Rat} :
    w.expired now = true ↔ ∃ limit, w.limit = some limit ∧ limit ≤ w.elapsed now := by
  cases hw : w.limit with
  | none => simp [expired, hw]
  | some limit => simp [expired, hw]

/-- The limit has been reached if there is one and nothing is left of it. -/
theorem expired_iff {w : Stopwatch Rat} {now : Rat} :
    w.expired now = true ↔ (∃ limit, w.limit = some limit) ∧ w.remaining now = some 0 := by
  rw [expired_iff_reached]
  cases hw : w.limit with
  | none => simp
  | some limit =>
    rw [remaining_of_limit hw, Option.some_inj, max_eq_left_iff, sub_nonpos]
    simp

/-! ## Reached limits -/

/-- What is shown does not go back while the clock does not. -/
theorem elapsed_mono (w : Stopwatch Rat) {now later : Rat} (h : now ≤ later) :
    w.elapsed now ≤ w.elapsed later := by
  cases hw : w.startedAt with
  | none => simp only [elapsed, hw, le_refl]
  | some a =>
    simp only [elapsed, hw]
    exact add_le_add_right (sub_le_sub_right h a) w.counted

/-- To start a stopwatch or to pause it changes neither its limit nor what it shows. -/
theorem perform_shown {c : Call} (hc : c.command = .start ∨ c.command = .pause)
    (w : Stopwatch Rat) :
    (c.perform w).limit = w.limit ∧ (c.perform w).elapsed c.clock = w.elapsed c.clock := by
  obtain ⟨clock, command⟩ := c
  rcases hc with rfl | rfl
  · refine ⟨rfl, ?_⟩
    cases hw : w.startedAt with
    | none =>
      simp only [Call.perform, Stopwatch.start, elapsed, hw, Option.getD_none]
      exact Scalar.ExactSums.add_sub_self w.counted clock
    | some a => simp only [Call.perform, Stopwatch.start, elapsed, hw, Option.getD_some]
  · refine ⟨limit_pause w clock, ?_⟩
    cases hw : w.startedAt with
    | none => simp only [Call.perform, Stopwatch.pause, hw]
    | some a => simp only [Call.perform, Stopwatch.pause, elapsed, hw]

/-- A limit that has been reached stays reached, however the stopwatch is started and paused. -/
theorem reached_later {w : Stopwatch Rat} {limit now : Rat} (hlimit : w.limit = some limit)
    (h : limit ≤ w.elapsed now) {later : List Call}
    (hinOrder : later.Pairwise fun c d => c.clock ≤ d.clock)
    (hfrom : ∀ c ∈ later, now ≤ c.clock)
    (hlater : ∀ c ∈ later, c.command = .start ∨ c.command = .pause) {next : Rat}
    (hle : now ≤ next) (hpast : ∀ c ∈ later, c.clock ≤ next) :
    (later.foldl (fun w c => c.perform w) w).expired next = true := by
  induction later generalizing w now with
  | nil => exact expired_iff_reached.mpr ⟨limit, hlimit, h.trans (elapsed_mono w hle)⟩
  | cons c later ih =>
    obtain ⟨hfirst, hinOrder⟩ := List.pairwise_cons.mp hinOrder
    obtain ⟨hnow, -⟩ := List.forall_mem_cons.mp hfrom
    obtain ⟨hc, hlater⟩ := List.forall_mem_cons.mp hlater
    obtain ⟨hnext, hpast⟩ := List.forall_mem_cons.mp hpast
    obtain ⟨hkept, hshown⟩ := perform_shown hc w
    refine ih (hkept.trans hlimit) ?_ hinOrder hfirst hlater hnext hpast
    rw [hshown]
    exact h.trans (elapsed_mono w hnow)

/-- **A stopwatch measures its running time.** Let a new stopwatch be started, paused, reset and
given other timeouts, in any order and any number of times, and let the clock never go back. Read
at any time after that,

* it is running if it has been started and not been stopped since;
* what it shows is the length of some spans that follow each other and are made of the instants at
  which it has been running, from the last reset on;
* what remains is unlimited if the timeout set last is none or zero, and otherwise what is missing
  to that timeout, or zero;
* it has expired if there is such a limit and nothing remains;
* if it has expired, it stays so until it is reset or given another timeout. -/
theorem stopwatch_measures_running_time (timeout : Option Rat) (calls : List Call) (now : Rat)
    (h : Until calls now) :
    ((after timeout calls).running = true ↔ RunningAt calls now) ∧
    (∃ spans : List Span,
      (spans.Pairwise fun s s' => s.last ≤ s'.first) ∧
      (∀ t, (∃ s ∈ spans, t ∈ s.instants) ↔ Counted calls t ∧ t < now) ∧
      (after timeout calls).elapsed now = (spans.map Span.length).sum) ∧
    ((¬∃ limit, HasLimit timeout calls limit) → (after timeout calls).remaining now = none) ∧
    (∀ limit, HasLimit timeout calls limit → (after timeout calls).remaining now =
      some (max 0 (limit - (after timeout calls).elapsed now))) ∧
    ((after timeout calls).expired now = true ↔
      (∃ limit, HasLimit timeout calls limit) ∧ (after timeout calls).remaining now = some 0) ∧
    ((after timeout calls).expired now = true → ∀ (later : List Call) (next : Rat),
      Until (calls ++ later) next → (∀ c ∈ later, now ≤ c.clock) → now ≤ next →
      (∀ c ∈ later, c.command = .start ∨ c.command = .pause) →
      (after timeout (calls ++ later)).expired next = true) := by
  obtain ⟨spans, htracks⟩ := exists_tracks timeout h
  refine ⟨htracks.running_iff h.past, exists_spans timeout h, fun hnone => ?_, fun limit hlimit =>
    remaining_of_limit (limit_eq_some_iff.mpr hlimit) now, ?_, ?_⟩
  · cases hw : (after timeout calls).limit with
    | none => rw [remaining, hw, Option.map_none]
    | some limit => exact absurd ⟨limit, limit_eq_some_iff.mp hw⟩ hnone
  · rw [expired_iff]
    exact and_congr_left fun _ => exists_congr fun limit => limit_eq_some_iff
  · intro hexpired later next hnext hfrom hle hlater
    obtain ⟨limit, hlimit, hreached⟩ := expired_iff_reached.mp hexpired
    rw [after_append]
    exact reached_later hlimit hreached (List.pairwise_append.mp hnext.inOrder).2.1 hfrom hlater hle
      fun c hc => hnext.past c (List.mem_append_right _ hc)

/-- Reset while it was running, started twice, paused twice, and started again. -/
def sampleCalls : List Call :=
  [⟨0, .start⟩, ⟨1, .reset⟩, ⟨2, .start⟩, ⟨3, .start⟩, ⟨5, .pause⟩, ⟨6, .pause⟩,
   ⟨6, .setLimit (some 4)⟩, ⟨7, .start⟩]

/-- Three units are counted by the first pause and one more by the reading, which is as long as the
limit allows; a later pause does not change that. -/
theorem stopwatch_measures_running_time_sample :
    (after none sampleCalls).elapsed 8 = 4 ∧
    RunningAt sampleCalls 8 ∧
    (after none sampleCalls).remaining 8 = some 0 ∧
    (after none (sampleCalls ++ [⟨9, .pause⟩])).expired 10 = true := by
  have hagain : Until (sampleCalls ++ [⟨9, .pause⟩]) 10 := ⟨by decide +kernel, by decide +kernel⟩
  obtain ⟨hrunning, -, -, hremaining, hexpired, hstays⟩ :=
    stopwatch_measures_running_time none sampleCalls 8 ⟨by decide +kernel, by decide +kernel⟩
  have helapsed : (after none sampleCalls).elapsed 8 = 4 := by decide +kernel
  have hlimit : HasLimit none sampleCalls 4 := ⟨rfl, by norm_num⟩
  have hzero : (after none sampleCalls).remaining 8 = some 0 := by
    rw [hremaining 4 hlimit, helapsed, sub_self, max_self]
  refine ⟨helapsed, hrunning.mp (by decide +kernel), hzero, ?_⟩
  exact hstays (hexpired.mpr ⟨⟨4, hlimit⟩, hzero⟩) _ 10 hagain (by decide +kernel)
    (by decide +kernel) (by simp)

end ModeSchedule.Stopwatch
