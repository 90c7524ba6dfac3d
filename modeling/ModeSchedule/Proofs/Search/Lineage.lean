/-
ModeSchedule.Proofs.Search.Lineage — switching policies, from the seeds on.

The mode that is running is the last one of a schedule, and at first it is the one that the
marker of a seed names. `Schedule.Follows` says what a switching policy makes of a schedule
that begins with such a marker: under increasing switching its modes increase, and without
switching it has one entry, of the mode of the seed. One more step of a mode that the policy
allows keeps to it, and allows the same mode again (`Follows.append`); so does a block of any
length, however early it completes its candidate, and hence any line of descendants
(`Extension.follows_of_descends`).

`extension_follows_switching` is the statement for requests: what a single one answers, with a
stopwatch and without, and what any number of them in turn make of the seeds.
-/
import ModeSchedule.Proofs.Canonical
import ModeSchedule.Proofs.Search.Branching
import ModeSchedule.Proofs.Search.Replay

namespace ModeSchedule

/-! ## Schedules under a policy -/

namespace Schedule

variable {s : Schedule} {i active count : Nat}

/-- The modes of the entries increase from the first one to the last one. -/
def Increasing (s : Schedule) : Prop :=
  (s.map Entry.mode).Pairwise (· < ·)

theorem increasing_cons {e : Entry} : Increasing (e :: s) ↔
    (∀ m ∈ s.head?.map Entry.mode, e.mode < m) ∧ Increasing s := by
  unfold Increasing
  rw [List.map_cons, ← List.isChain_iff_pairwise, ← List.isChain_iff_pairwise, List.isChain_cons,
    List.head?_map]

theorem dropMarker_sublist (s : Schedule) : s.dropMarker.Sublist s := by
  induction s using dropMarker.induct with
  | case1 => exact List.Sublist.refl []
  | case2 e he => simp [dropMarker, he]
  | case3 e he => simp [dropMarker, he]
  | case4 e f s ih => exact ih.cons_cons e

/-- If no mode is behind the one that is pushed, the modes go on increasing. -/
theorem Increasing.push (h : s.Increasing) (hlast : s.InRange (i + 1)) :
    (push i s).Increasing := by
  induction s using push.induct i with
  | case1 => simp [Schedule.push, Increasing]
  | case2 e he => simp [Schedule.push, he, Increasing]
  | case3 e he =>
    have hlt : e.mode < i := by
      have hle := hlast e List.mem_cons_self
      omega
    simp [Schedule.push, he, Increasing, hlt]
  | case4 e f s ih =>
    obtain ⟨hhead, hrest⟩ := increasing_cons.mp h
    rw [Schedule.push, increasing_cons, head?_push]
    exact ⟨by simpa using hhead, ih hrest (inRange_cons.mp hlast).2⟩

/-- The last mode is the greatest one. -/
theorem Increasing.inRange (h : s.Increasing) (hactive : s.active? = some active) :
    s.InRange (active + 1) := by
  induction s with
  | nil => exact inRange_nil _
  | cons e s ih =>
    rw [inRange_cons]
    cases s with
    | nil =>
      obtain rfl : e.mode = active := by simpa [active?] using hactive
      exact ⟨Nat.lt_succ_self _, inRange_nil _⟩
    | cons f s =>
      obtain ⟨hhead, hrest⟩ := increasing_cons.mp h
      have hafter : InRange (active + 1) (f :: s) := ih hrest (by rwa [active?_cons] at hactive)
      have hlt : e.mode < f.mode := by simpa using hhead
      exact ⟨hlt.trans (inRange_cons.mp hafter).1, hafter⟩

theorem Increasing.append (h : s.Increasing) (hactive : s.active? = some active)
    (hle : active ≤ i) : (append i s).Increasing := by
  have hrange : s.InRange (i + 1) := fun e he => by
    have hlt := h.inRange hactive e he
    omega
  refine Increasing.push ?_ (inRange_dropMarker hrange)
  exact h.sublist ((dropMarker_sublist s).map Entry.mode)

/-- A step of the only mode, also in place of its marker. -/
theorem append_single (i times : Nat) : append i [⟨i, times⟩] = [⟨i, times + 1⟩] := by
  cases times <;> simp [append, dropMarker, push]

end Schedule

/-- The mode of a step may be repeated. -/
theorem Switching.allows_append (switching : Switching) (j : Nat) (s : Schedule) :
    switching.allows (s.append j) j = true := by
  cases switching <;> simp [Switching.allows]

namespace Schedule

/-- What a switching policy makes of a schedule that begins with the marker of mode `i`. -/
structure Follows (switching : Switching) (count i : Nat) (s : Schedule) : Prop where
  active : ∃ j < count, s.active? = some j
  increasing : switching = .increasing → s.Increasing
  single : switching = .none → ∃ times, s = [⟨i, times⟩]

variable {switching : Switching} {count i j : Nat} {s : Schedule}

theorem follows_marker (hi : i < count) : Follows switching count i [⟨i, 0⟩] where
  active := ⟨i, hi, rfl⟩
  increasing := fun _ => List.pairwise_singleton _ _
  single := fun _ => ⟨0, rfl⟩

/-- One more step of a mode that the policy allows. -/
theorem Follows.append (h : Follows switching count i s) (hj : j < count)
    (hallows : switching.allows s j = true) : Follows switching count i (append j s) where
  active := ⟨j, hj, active?_append j s⟩
  increasing := by
    rintro rfl
    obtain ⟨active, -, hactive⟩ := h.active
    have hle : active ≤ j := by simpa [Switching.allows, hactive] using hallows
    exact (h.increasing rfl).append hactive hle
  single := by
    rintro rfl
    obtain ⟨times, rfl⟩ := h.single rfl
    obtain rfl : i = j := by simpa [Switching.allows, active?] using hallows
    exact ⟨times + 1, append_single i times⟩

/-- A block of steps of such a mode. -/
theorem Follows.appendTimes (h : Follows switching count i s) (hj : j < count)
    (hallows : switching.allows s j = true) (n : Nat) :
    Follows switching count i ((Schedule.append j)^[n] s) := by
  induction n generalizing s with
  | zero => exact h
  | succ n ih =>
    -- The first step may replace the marker of a seed; from then on the mode is the last one.
    rw [Function.iterate_succ_apply]
    exact ih (h.append hj hallows) (switching.allows_append j s)

end Schedule

/-! ## Descendants -/

variable {K S R A : Type} [Scalar K]

namespace Extension

variable {P : Problem K S R A} {modes : List (Mode A)} {stepCost : K} {switching : Switching}
  {s c : Solution K S R} {partials next : List (Solution K S R)} {i : Nat}

/-- A candidate is made of another one by a block of steps of a mode that may follow. -/
def Child (P : Problem K S R A) (modes : List (Mode A)) (switching : Switching)
    (s c : Solution K S R) : Prop :=
  ∃ j m n, modes[j]? = some m ∧ switching.allows s.schedule j = true ∧ 0 < n ∧
    (Run.advance P m.dynamics j n s).solution = c

theorem Child.follows (hstep : ∀ m s, (P.step m s).schedule = s.schedule)
    (hchild : Child P modes switching s c)
    (h : s.schedule.Follows switching modes.length i) :
    c.schedule.Follows switching modes.length i := by
  obtain ⟨j, m, n, hm, hallows, -, rfl⟩ := hchild
  have hj : j < modes.length := (List.getElem?_eq_some_iff.mp hm).1
  rw [Run.advance_schedule (hstep _)]
  exact h.appendTimes hj hallows _

/-- Every descendant of a seed keeps to the policy. -/
theorem follows_of_descends (hstep : ∀ m s, (P.step m s).schedule = s.schedule)
    (hi : i < modes.length)
    (h : Relation.ReflTransGen (Child P modes switching) (P.seed i) c) :
    c.schedule.Follows switching modes.length i := by
  induction h with
  | refl => exact Schedule.follows_marker hi
  | tail _ hchild ih => exact hchild.follows hstep ih

end Extension

/-! ## Requests -/

namespace Search

variable {P : Problem K S R A} {modes : List (Mode A)} {stepCost : K} {switching : Switching}
  {n : Int} {watch : Option (Stopwatch K)} {partials next : List (Solution K S R)} {clock : K}
  {c : Solution K S R}

/-- A proper request for an extension is granted if the children can be measured. -/
theorem extend_eq (hn : 0 < n) (hmodes : modes ≠ []) :
    extend (some P) modes stepCost switching (.whole n) watch partials clock =
      (requireMeasured P (Extension.grow ⟨P, modes, stepCost⟩ switching n.toNat watch partials
        clock).children).map fun _ =>
          Extension.grow ⟨P, modes, stepCost⟩ switching n.toNat watch partials clock := by
  have hpositive : requirePositive .stride (.whole n : Given K) = .ok () :=
    requirePositive_whole.mpr hn
  have hchoice : requireModes modes = .ok () := requireModes_eq_ok.mpr hmodes
  show (requirePositive .stride (.whole n : Given K) >>= fun _ => requireModes modes >>= fun _ => _)
    = _
  rw [hpositive, hchoice]
  rfl

theorem extend_eq_ok {e : Extension K S R}
    (h : extend (some P) modes stepCost switching (.whole n) watch partials clock = .ok e) :
    0 < n ∧ e = Extension.grow ⟨P, modes, stepCost⟩ switching n.toNat watch partials clock := by
  obtain ⟨_, hproblem, h⟩ := Granted.bind.mp h
  obtain rfl := Except.ok.inj hproblem
  obtain ⟨_, hpositive, h⟩ := Granted.bind.mp h
  obtain ⟨_, -, h⟩ := Granted.bind.mp h
  obtain ⟨_, hstride, h⟩ := Granted.bind.mp h
  obtain rfl := Except.ok.inj hstride
  obtain ⟨_, -, h⟩ := Granted.bind.mp h
  exact ⟨requirePositive_whole.mp hpositive, (Except.ok.inj h).symm⟩

/-- A proper request for an extension answers the children of the first candidates, up to the
one after which the stopwatch is first found expired. -/
theorem extend_course (P : Problem K S R A) (stepCost : K) (hn : 0 < n) (hmodes : modes ≠ [])
    (hactive : switching ≠ .free → ∀ s ∈ partials, ∃ i < modes.length, s.schedule.active? = some i)
    (watch : Option (Stopwatch K)) (clock : K) :
    let w : Workspace K S R A := ⟨P, modes, stepCost⟩
    let children := Extension.childrenOf w switching n.toNat
    let stops := Extension.stopsAfter w switching n.toNat watch partials clock
    ∃ k ≤ partials.length, (∀ j < k, stops j = false) ∧ (k < partials.length → stops k = true) ∧
      extend (some P) modes stepCost switching (.whole n) watch partials clock =
        (requireMeasured P (children (partials.take k))).map fun _ =>
          { children := children (partials.take k)
            clock := Extension.clockAfter w switching n.toNat partials clock k
            ending := if stops k then .expired else .done } := by
  intro w children stops
  obtain ⟨k, hcourse⟩ := Extension.grow_course w switching n.toNat watch partials clock
  have hable : ∀ s ∈ partials, ∃ js, switching.candidates modes.length s.schedule = .ok js := by
    intro s hs
    rcases switching.candidates_cases modes.length s.schedule with
      ⟨hok, -⟩ | ⟨_, -, -, hrestricted, hrange⟩
    · exact ⟨_, hok⟩
    · obtain ⟨i, hi, hsome⟩ := hactive hrestricted s hs
      exact absurd hi (not_lt.mpr (hrange i hsome))
  have hending :
      (Extension.grow w switching n.toNat watch partials clock).ending =
          (if stops k then .expired else .done) ∧
        (k < partials.length → stops k = true) := by
    cases h : (Extension.grow w switching n.toNat watch partials clock).ending with
    | done =>
      obtain ⟨hall, hgoes⟩ := hcourse.done h
      exact ⟨by simp [stops, hgoes], fun hlt => absurd hall hlt.ne⟩
    | expired =>
      have hstops := hcourse.expired h
      exact ⟨by simp [stops, hstops], fun _ => hstops⟩
    | failed cause => exact absurd h (Extension.grow_ending_ne_failed hable cause)
  have hgrow : Extension.grow w switching n.toNat watch partials clock =
      { children := children (partials.take k)
        clock := Extension.clockAfter w switching n.toNat partials clock k
        ending := if stops k then .expired else .done } := by
    rw [Extension.mk.injEq]
    exact ⟨hcourse.children, hcourse.time, hending.1⟩
  refine ⟨k, hcourse.le, hcourse.passed, hending.2, ?_⟩
  rw [extend_eq hn hmodes, hgrow]

/-- A granted request for an extension leads from one list of candidates to another. -/
def Leads (P : Problem K S R A) (modes : List (Mode A)) (stepCost : K) (switching : Switching)
    (partials next : List (Solution K S R)) : Prop :=
  ∃ n watch clock e,
    extend (some P) modes stepCost switching (.whole n) watch partials clock = .ok e ∧
      e.children = next

theorem Leads.exists_parent (h : Leads P modes stepCost switching partials next) (hc : c ∈ next) :
    ∃ s ∈ partials, Extension.Child P modes switching s c := by
  obtain ⟨n, watch, clock, e, he, rfl⟩ := h
  obtain ⟨hn, rfl⟩ := extend_eq_ok he
  obtain ⟨k, hcourse⟩ :=
    Extension.grow_course ⟨P, modes, stepCost⟩ switching n.toNat watch partials clock
  rw [hcourse.children] at hc
  obtain ⟨s, hs, run, hrun, rfl⟩ := Extension.mem_childrenOf.mp hc
  obtain ⟨j, m, hm, hallows, rfl⟩ := Extension.mem_offspring.mp hrun
  exact ⟨s, List.mem_of_mem_take hs, j, m, n.toNat, hm, hallows, by omega, rfl⟩

/-- Whatever a number of requests lead to descends from what they began with. -/
theorem exists_ancestor {start : List (Solution K S R)}
    (h : Relation.ReflTransGen (Leads P modes stepCost switching) start next) (hc : c ∈ next) :
    ∃ s ∈ start, Relation.ReflTransGen (Extension.Child P modes switching) s c := by
  induction h generalizing c with
  | refl => exact ⟨c, hc, .refl⟩
  | tail _ hleads ih =>
    obtain ⟨parent, hparent, hchild⟩ := hleads.exists_parent hc
    obtain ⟨s, hs, hdescends⟩ := ih hparent
    exact ⟨s, hs, hdescends.tail hchild⟩

end Search

/-- **Extensions follow the switching policy.** Let every candidate to be extended have a last
mode in range, unless switching is free. Without a stopwatch the answer is, candidate by
candidate, one child for each mode that the policy allows, in the order of the modes: all of
them under free switching, the last mode of the candidate and those after it under increasing
switching, only the last mode without switching. With a stopwatch it is the same for the first
`k` candidates, where `k` is the first count after which the stopwatch has expired, or counts
them all.

From the seeds of some modes, let any number of granted requests lead to a list of candidates.
Each of them descends from one of the seeds and can be extended in its turn. Under increasing
switching the modes of its schedule strictly increase. Without switching its schedule has a
single entry, of the mode of whichever seed it descends from. -/
theorem extension_follows_switching (P : Problem K S R A) (modes : List (Mode A)) (stepCost : K)
    (switching : Switching) (hmodes : modes ≠ []) {n : Int} (hn : 0 < n)
    (partials : List (Solution K S R)) (clock : K)
    (hactive : switching ≠ .free → ∀ s ∈ partials, ∃ i < modes.length, s.schedule.active? = some i)
    (hstep : ∀ m s, (P.step m s).schedule = s.schedule)
    (seeds : List Nat) (hseeds : ∀ i ∈ seeds, i < modes.length) :
    let w : Workspace K S R A := ⟨P, modes, stepCost⟩
    let children := Extension.childrenOf w switching n.toNat
    let clockAfter := Extension.clockAfter w switching n.toNat partials clock
    Search.extend (some P) modes stepCost switching (.whole n) none partials clock =
        ((requireMeasured P (children partials)).map fun _ =>
          ⟨children partials, clockAfter partials.length, .done⟩) ∧
      (∀ watch : Stopwatch K,
        let stops := Extension.stopsAfter w switching n.toNat (some watch) partials clock
        ∃ k ≤ partials.length,
          (∀ j < k, stops j = false) ∧ (k < partials.length → stops k = true) ∧
          Search.extend (some P) modes stepCost switching (.whole n) (some watch) partials clock =
            (requireMeasured P (children (partials.take k))).map fun _ =>
              ⟨children (partials.take k), clockAfter k, if stops k then .expired else .done⟩) ∧
      ∀ reached, Relation.ReflTransGen (Search.Leads P modes stepCost switching)
          (seeds.map P.seed) reached → ∀ c ∈ reached,
        let Descends (i : Nat) :=
          Relation.ReflTransGen (Extension.Child P modes switching) (P.seed i) c
        (∃ i ∈ seeds, Descends i) ∧ (∃ i < modes.length, c.schedule.active? = some i) ∧
        (switching = .increasing → (c.schedule.map Entry.mode).Pairwise (· < ·)) ∧
        (switching = .none → ∀ i ∈ seeds, Descends i → ∃ times, c.schedule = [⟨i, times⟩]) := by
  intro w children clockAfter
  refine ⟨?_, fun watch => Search.extend_course P stepCost hn hmodes hactive (some watch) clock, ?_⟩
  · obtain ⟨k, hle, -, hcut, hanswer⟩ :=
      Search.extend_course P stepCost hn hmodes hactive none clock
    -- Nothing stops an extension without a stopwatch.
    have hnever : ∀ j, Extension.stopsAfter w switching n.toNat none partials clock j = false := by
      intro j
      cases j <;> rfl
    have hk : k = partials.length := by
      refine le_antisymm hle (not_lt.mp fun hlt => ?_)
      have hstops := hcut hlt
      rw [hnever k] at hstops
      cases hstops
    rw [hanswer, hnever k, hk, List.take_length]
    rfl
  · intro reached hreached c hc Descends
    obtain ⟨s, hs, hdescends⟩ := Search.exists_ancestor hreached hc
    obtain ⟨i, hi, rfl⟩ := List.mem_map.mp hs
    have hfollows := Extension.follows_of_descends hstep (hseeds i hi) hdescends
    refine ⟨⟨i, hi, hdescends⟩, hfollows.active, hfollows.increasing, fun hnone j hj hline => ?_⟩
    exact (Extension.follows_of_descends hstep (hseeds j hj) hline).single hnone

/-- Of two seeds, under increasing switching, the first one gets two children and the second
one gets one. A stopwatch with a limit of two steps expires after the first seed. -/
theorem extension_follows_switching_sample :
    let P := Rate.problem Rate.sampleSettings
    let seeds := [0, 1].map P.seed
    let children := Extension.childrenOf ⟨P, Rate.sampleModes, 1⟩ .increasing 1
    (∀ s ∈ seeds, ∃ i < Rate.sampleModes.length, s.schedule.active? = some i) ∧
      Search.extend (some P) Rate.sampleModes 1 .increasing (.whole 1)
          (some (Stopwatch.started (some 2) 0)) seeds 0 =
        .ok ⟨children [P.seed 0], 2, .expired⟩ ∧
      (children seeds).map Solution.schedule = [[⟨0, 1⟩], [⟨1, 1⟩], [⟨1, 1⟩]] ∧
      ∀ c ∈ children seeds, (c.schedule.map Entry.mode).Pairwise (· < ·) := by
  intro P seeds children
  have hactive : ∀ s ∈ seeds, ∃ i < Rate.sampleModes.length, s.schedule.active? = some i := by
    simp [seeds, P, Problem.seed, Problem.start, Rate.sampleModes, Schedule.active?]
  have hmeasured : ∀ xs, requireMeasured P xs = .ok () :=
    fun _ => requireMeasured_eq_ok.mpr fun _ _ => rfl
  obtain ⟨hwhole, hcut, hreached⟩ := extension_follows_switching P Rate.sampleModes 1 .increasing
    (by decide) (n := 1) one_pos seeds 0 (fun _ => hactive) (fun _ _ => rfl) [0, 1] (by decide)
  refine ⟨hactive, ?_, by cbv, ?_⟩
  · obtain ⟨k, -, hgoes, hstops, hanswer⟩ := hcut (Stopwatch.started (some 2) 0)
    have hexpires : Extension.stopsAfter ⟨P, Rate.sampleModes, 1⟩ .increasing 1
        (some (Stopwatch.started (some 2) 0)) seeds 0 1 = true := by cbv
    have hk : k = 1 := by
      rcases lt_trichotomy k 1 with hlt | heq | hlt
      · rw [Nat.lt_one_iff.mp hlt] at hstops
        cases hstops (by decide)
      · exact heq
      · cases hexpires.symm.trans (hgoes 1 hlt)
    have hclock : Extension.clockAfter ⟨P, Rate.sampleModes, 1⟩ .increasing 1 seeds 0 1 = 2 := by
      cbv
    rw [hanswer, hmeasured, hk]
    simp only [Except.map, Int.toNat_one, hexpires, hclock, if_true]
    rfl
  · intro c hc
    rw [hmeasured] at hwhole
    have hleads : Search.Leads P Rate.sampleModes 1 .increasing seeds (children seeds) :=
      ⟨1, none, 0, _, hwhole, rfl⟩
    exact (hreached _ (.single hleads) c hc).2.2.1 rfl

end ModeSchedule
