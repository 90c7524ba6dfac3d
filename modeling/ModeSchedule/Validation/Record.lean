/-
ModeSchedule.Validation.Record — checking the records of the planner.

Each check reads an object: members that are not asked for are ignored, and
missing ones take their default where they have one.
-/
import ModeSchedule.Validation.Check
import ModeSchedule.Usage
import ModeSchedule.Timespec

namespace ModeSchedule

variable {K S : Type} [Scalar K]

namespace Entry

/-- An entry of a schedule; it lasts one step unless told otherwise. -/
def check (j : Json K) : Check Entry :=
  Check.object (fun j =>
    (Check.both (Check.required "mode" Check.natural j)
      (Check.optional "times" 1 Check.natural j)).map fun (mode, times) => ⟨mode, times⟩) j

end Entry

/-- The number that a value stands for is a mode. -/
def Json.isMode (mode : Nat) : Json K → Bool
  | .int n => n == mode
  | .bool b => (if b then 1 else 0) == mode
  | .real x => Scalar.exact x = .finite mode
  | _ => false

/-- Append one step of a mode that is given as data. It lengthens the last entry
if it is a number equal to the mode of that; anything else starts a new entry,
and has to be checked. -/
def Schedule.appendGiven (v : Json K) (s : Schedule) : Check Schedule :=
  let base := s.dropMarker
  let fresh := (Check.under "mode" (Check.natural v)).map fun mode => base ++ [⟨mode, 1⟩]
  match base.active? with
  | some mode => if v.isMode mode then .ok (base.push mode) else fresh
  | none => fresh

/-- Append a number of steps of a mode that is given as data. -/
def Schedule.appendSteps (v : Json K) : Nat → Schedule → Check Schedule
  | 0, s => .ok s
  | n + 1, s => (s.appendGiven v).bind (appendSteps v n)

/-- A mode, whose dynamics are checked by `dynamics`. -/
def Mode.check {A : Type} (dynamics : Json K → Check A) (j : Json K) : Check (Mode A) :=
  Check.object (fun j =>
    (Check.both (Check.required "id" Check.natural j) (dynamics j)).map
      fun (id, dynamics) => ⟨id, dynamics⟩) j

namespace Usage

/-- Energy and time used, both zero unless told otherwise. -/
def check (j : Json K) : Check (Usage K) :=
  Check.object (fun j =>
    (Check.both (Check.optional "energy" 0 Check.number j)
      (Check.optional "time" 0 Check.number j)).map fun (energy, time) => ⟨energy, time⟩) j

end Usage

/-- The cost of resources that are given as data. A number stands for itself; of
anything else the numbers among its items are added up. -/
def Json.cost : Json K → Except Unreadable K
  | .null => .error .kind
  | .arr items => items.foldlM (fun total v =>
      match v with
      | .int _ | .bool _ | .real _ => v.toNumber.map (total + ·)
      | _ => .ok total) 0
  | .obj _ | .str _ => .ok 0
  | v => v.toNumber

/-- A candidate whose state and resources are kept as they are. -/
def Solution.check (j : Json K) : Check (Solution K (Json K) (Json K)) :=
  Check.object (fun j =>
    (Check.both (Check.optional "sequence" [] (Check.list Entry.check) j)
      (Check.both (Check.required "state" .ok j)
        (Check.both (Check.required "resources" .ok j)
          (Check.optional "distance" none (fun d => (Check.number d).map Scalar.bounded?) j)))).map
      fun (schedule, state, resources, distance) =>
        { schedule, state, resources, distance }) j

/-- The numbers of a front, for given candidates. -/
def Front.checkNumbers {R : Type} (solutions : Check (List (Solution K S R))) (j : Json K) :
    Check (Front K S R) :=
  (Check.both solutions
    (Check.both (Check.optional "step_length" 0 Check.nonnegative j)
      (Check.both (Check.optional "steps_per_iteration" 0 Check.natural j)
        (Check.both (Check.optional "iteration" 0 Check.natural j)
          (Check.optional "runtime" 0 Check.nonnegative j))))).map
    fun (solutions, stepLength, stride, rounds, runtime) =>
      { solutions, stepLength, stride, rounds, runtime }

/-- A front, whose candidates are checked by `candidate`. -/
def Front.check {R : Type} (candidate : Json K → Check (Solution K S R)) (j : Json K) :
    Check (Front K S R) :=
  Check.object (fun j =>
    Front.checkNumbers (Check.optional "solutions" [] (Check.list candidate) j) j) j

/-- The fronts of a search. -/
def Outcome.check {R : Type} (candidate : Json K → Check (Solution K S R)) (j : Json K) :
    Check (Outcome K S R) :=
  Check.object (Check.optional "pareto_fronts" [] (Check.list (Front.check candidate))) j

/-! ## Settings -/

/-- A limit: nothing, a number of seconds, or seconds and nanoseconds apart. -/
def checkTimeout (j : Json K) : Check (Option K) :=
  match j with
  | .null => .ok none
  | .obj _ =>
    match Timespec.secondsOf j with
    | .error .missing => Check.fail .refused
    | .error (.unreadable .text) => Check.fail .refused
    | .error (.unreadable cause) => .error (.abandoned cause)
    | .ok seconds => (Check.ensure (fun x => 0 ≤ x) .notAtLeast (.ok seconds)).map some
  | j => (Check.nonnegative j).map some

/-- The settings of a search, whose states are checked by `state`. -/
def Settings.check (state : Json K → Check S) (j : Json K) : Check (Settings K S) :=
  Check.object (fun j =>
    (Check.both (Check.required "initial_state" state j)
      (Check.both (Check.required "target_state" state j)
        (Check.both (Check.required "time_delta" Check.positive j)
          (Check.both (Check.required "time_max" Check.positive j)
            (Check.both (Check.required "threshold" Check.positive j)
              (Check.both (Check.optional "timeout" none checkTimeout j)
                (Check.optional "interactive" false Check.boolean j))))))).map
      fun (initialState, targetState, timeDelta, timeMax, threshold, timeout, interactive) =>
        { initialState, targetState, timeDelta, timeMax, threshold, timeout, interactive }) j

end ModeSchedule
