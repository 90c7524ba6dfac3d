/-
ModeSchedule.Tapping.Parameters — a motor that drives a tap through a gearbox.
-/
import ModeSchedule.Validation.Check
import ModeSchedule.Decimal.Layout

namespace ModeSchedule.Tapping

structure Parameters (K : Type) where
  /-- Supplied voltage [V]. -/
  voltage : K
  /-- Winding resistance [Ohm]. -/
  resistance : K
  /-- Winding inductance [H]. -/
  inductance : K
  /-- Angular momentum [kg.m²]. -/
  momentum : K
  /-- Coulomb friction [N.m]. -/
  friction : K
  /-- Back electromotive force [V.s/rad]. -/
  backForce : K
  /-- Torque per current [N.m/A]. -/
  torque : K
  /-- Friction in the hole, per depth [N.m/mm]. -/
  dynamicFriction : K
  /-- Friction in the hole at rest [N.m]. -/
  staticFriction : K
  /-- Depth per revolution [mm]. -/
  slope : K
  /-- Gear ratio. -/
  gear : K
  /-- What switching costs. -/
  switchCost : K
  /-- How long switching takes. -/
  switchTime : K
deriving Repr

namespace Parameters

variable {K : Type} [Scalar K]

/-- The parameters that an object says. -/
def check (j : Json K) : Check (Parameters K) :=
  let number (name : String) (mantissa exponent : Int) :=
    Check.optional name (Scalar.ofDecimal mantissa exponent) Check.number j
  let positive (name : String) (mantissa exponent : Int) :=
    Check.optional name (Scalar.ofDecimal mantissa exponent) Check.positive j
  let nonnegative (name : String) (mantissa exponent : Int) :=
    Check.optional name (Scalar.ofDecimal mantissa exponent) Check.nonnegative j
  Check.object (fun _ =>
    Check.apply (Check.apply (Check.apply (Check.apply (Check.apply (Check.apply (Check.apply
    (Check.apply (Check.apply (Check.apply (Check.apply (Check.apply (Check.apply
      (.ok Parameters.mk)
      (number "V" 48 0))
      (positive "R" 12 (-1)))
      (positive "L" 50 (-5)))
      (positive "J" 2 (-1)))
      (number "Kb" 5 (-1)))
      (number "Ke" 11 (-1)))
      (number "Kt" 12 (-1)))
      (number "Fd" 2 (-2)))
      (number "Fs" 15 (-2)))
      (number "Ts" 15 (-1)))
      (positive "Gr" 30 0))
      (nonnegative "Sc" 5 (-2)))
      (nonnegative "St" 2 (-1))) j

/-- The parameters by name, in the order in which they are listed. -/
def named (p : Parameters K) : List (String × K) :=
  [("V", p.voltage), ("R", p.resistance), ("L", p.inductance), ("J", p.momentum),
   ("Kb", p.friction), ("Ke", p.backForce), ("Kt", p.torque), ("Fd", p.dynamicFriction),
   ("Fs", p.staticFriction), ("Ts", p.slope), ("Gr", p.gear), ("Sc", p.switchCost),
   ("St", p.switchTime)]

def toJson (p : Parameters K) : Json K := .obj (p.named.map fun x => (x.1, .real x.2))

/-- All values with six significant digits. -/
def text (p : Parameters Float) : String :=
  "[" ++ ", ".intercalate (p.named.map fun x => general x.2) ++ "]"

end Parameters
end ModeSchedule.Tapping
