/-
ModeSchedule.Report.Text — schedules, candidates, fronts and results in words.

Modes and counts stand in columns, distances have three places, and the numbers
of a front are written in full. How resources are written is up to the domain.
-/
import ModeSchedule.Solution
import ModeSchedule.Usage
import ModeSchedule.Decimal.Layout

namespace ModeSchedule

/-- The mode right-aligned, the count left-aligned. -/
def Entry.text (e : Entry) : String :=
  aligned 2 e.mode ++ "*" ++ leftAligned 3 (toString e.times)

/-- The entries in brackets, each with a blank behind it. -/
def Schedule.text (s : Schedule) : String :=
  "[ " ++ String.join (s.map fun e => e.text ++ " ") ++ " ]"

/-- What stands for an infinitely large number where none is known. -/
def orInfinite (x : Option Float) : Float := x.getD (1.0 / 0.0)

namespace Usage

/-- Both numbers in full, by name. -/
def plainText (u : Usage Float) : String :=
  "energy=" ++ Layout.plain.text u.energy ++ " time=" ++ Layout.plain.text u.time

/-- Time and energy with three places. -/
def columnText (u : Usage Float) : String :=
  "(" ++ fixed 6 3 u.time ++ "," ++ fixed 8 3 u.energy ++ ")"

end Usage

variable {S R : Type}

/-- A candidate on one line, without its state. -/
def Solution.text (describe : R → String) (s : Solution Float S R) : String :=
  "Solution\x7bdistance: " ++ fixed 7 3 (orInfinite s.distance) ++
    ", resources: " ++ describe s.resources ++ ", sequence:" ++ s.schedule.text ++ "\x7d"

/-- A front on several lines, indented. -/
def Front.text (describe : R → String) (f : Front Float S R) : String :=
  "\n".intercalate
    (["    ParetoFront\x7b",
      "        step_length         : " ++ Layout.plain.text f.stepLength,
      "        steps_per_iteration : " ++ toString f.stride,
      "        iteration           : " ++ toString f.rounds,
      "        runtime             : " ++ Layout.plain.text f.runtime,
      "        solutions           : "] ++
     f.solutions.map (fun s => "            " ++ s.text describe) ++
     ["    \x7d"]) ++ "\n"

/-- The total runtime of a result; of no fronts at all it is a bare zero. -/
def Outcome.runtimeText (o : Outcome Float S R) : String :=
  if o.isEmpty then "0" else Layout.plain.text o.totalRuntime

/-- A result with all its fronts. -/
def Outcome.text (describe : R → String) (o : Outcome Float S R) : String :=
  "Result\x7b\n    runtime : " ++ o.runtimeText ++ "\n    pareto_fronts : \n" ++
    String.join (o.map (Front.text describe)) ++ "\x7d\n"

end ModeSchedule
