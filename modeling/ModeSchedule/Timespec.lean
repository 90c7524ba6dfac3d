/-
ModeSchedule.Timespec — a limit as whole seconds and nanoseconds.

Saved files hold limits in this form. No limit is written as zero, which is read
back as no limit.
-/
import ModeSchedule.Json.Value
import ModeSchedule.Validation.Check

namespace ModeSchedule

structure Timespec where
  seconds : Int
  nanoseconds : Int
deriving Repr, DecidableEq

namespace Timespec

variable {K : Type} [Scalar K]

/-- The whole seconds of a limit, and the rest in nanoseconds, rounded to the
nearest. Rounding may fill up a whole second. -/
def ofLimit (limit : Option K) : Except NoInteger Timespec := do
  let total := limit.getD 0
  let seconds ← Scalar.floor total
  let rest := (total - Scalar.ofInt seconds) * Scalar.ofDecimal 1 9
  return { seconds, nanoseconds := ← Scalar.round rest }

/-- Why a value is no timespec. -/
inductive Invalid where
  | missing
  | unreadable (cause : Unreadable)
deriving Repr, DecidableEq

/-- A member that stands for a number. -/
def part (name : String) (j : Json K) : Except Invalid K :=
  match j.find? name with
  | none => .error .missing
  | some v => v.toNumber.mapError .unreadable

/-- The seconds that an object with both parts stands for. -/
def secondsOf (j : Json K) : Except Invalid K := do
  let seconds ← part "tv_sec" j
  let nanoseconds ← part "tv_nsec" j
  return seconds + nanoseconds * Scalar.ofDecimal 1 (-9)

def toJson (t : Timespec) : Json K :=
  .obj [("tv_sec", .int t.seconds), ("tv_nsec", .int t.nanoseconds)]

end Timespec
end ModeSchedule
