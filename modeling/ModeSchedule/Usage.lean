/-
ModeSchedule.Usage — energy and time used.

The resources of both domains, with two ways to compare them: by value, and
within a tolerance. Both order energy first and let time break ties, and both
have a componentwise relation besides. Where a number is undefined, every
comparison with it is false.
-/
import ModeSchedule.Problem

namespace ModeSchedule

structure Usage (K : Type) where
  energy : K
  time : K
deriving Repr, DecidableEq

namespace Usage

variable {K : Type} [Scalar K]

def zero : Usage K := ⟨0, 0⟩

/-- Interpolate both components. -/
def blend (a b : Usage K) (relative : K) : Usage K :=
  { energy := a.energy + relative * (b.energy - a.energy)
    time := a.time + relative * (b.time - a.time) }

/-- Energy and time as one number. -/
def cost (u : Usage K) : K := 0 + u.energy + u.time

/-! ## By value -/

def equals (a b : Usage K) : Bool := a.energy == b.energy && a.time == b.time

/-- No component is larger. -/
def within (a b : Usage K) : Bool := a.energy ≤ b.energy && a.time ≤ b.time

/-- Less energy, or as much energy and less time. -/
def less (a b : Usage K) : Bool :=
  if a.energy == b.energy then a.time < b.time else a.energy < b.energy

/-! ## Within a tolerance -/

/-- The relative tolerance, one part in a thousand million. -/
def relativeTolerance : K := Scalar.ofDecimal 1 (-9)

def absoluteTolerance : K := Scalar.ofDecimal 1 (-12)

/-- Two numbers are close if they are equal, or if both are finite and their
difference is within the relative tolerance of one of them or within the
absolute one. -/
def close (a b : K) : Bool :=
  if a == b then true
  else if !(Scalar.isFinite a && Scalar.isFinite b) then false
  else
    let difference := Scalar.abs (b - a)
    difference ≤ Scalar.abs (relativeTolerance * b) ||
      difference ≤ Scalar.abs (relativeTolerance * a) || difference ≤ absoluteTolerance

def closeTo (a b : Usage K) : Bool := close a.energy b.energy && close a.time b.time

/-- No component is larger by more than the tolerance. -/
def nearlyWithin (a b : Usage K) : Bool :=
  (a.energy < b.energy || close a.energy b.energy) && (a.time < b.time || close a.time b.time)

/-- Less energy, or nearly as much energy and less time. -/
def nearlyLess (a b : Usage K) : Bool :=
  if close a.energy b.energy then a.time < b.time else a.energy < b.energy

end Usage

/-! ## Dominance -/

/-- How a domain compares usages. -/
structure UsageOrder (K : Type) where
  equals : Usage K → Usage K → Bool
  within : Usage K → Usage K → Bool
  less : Usage K → Usage K → Bool

namespace UsageOrder

variable {K S A : Type} [Scalar K]

def byValue : UsageOrder K :=
  { equals := Usage.equals, within := Usage.within, less := Usage.less }

def tolerant : UsageOrder K :=
  { equals := Usage.closeTo, within := Usage.nearlyWithin, less := Usage.nearlyLess }

/-- A complete candidate is better than another one if it uses no more of
either resource and not the same of both. -/
def strictlyBetter (o : UsageOrder K) (complete : Solution K S (Usage K) → Bool)
    (a b : Solution K S (Usage K)) : Bool :=
  a.schedule != b.schedule && complete a && o.within a.resources b.resources &&
    !o.equals a.resources b.resources

/-- A candidate is probably better than another one if it is no further from
the target, uses no more of either resource, and is ahead in one of the two. -/
def probablyBetter (o : UsageOrder K) (distance : Solution K S (Usage K) → K)
    (a b : Solution K S (Usage K)) : Bool :=
  a.schedule != b.schedule && distance a ≤ distance b && o.within a.resources b.resources &&
    (distance a < distance b || o.less a.resources b.resources)

/-- Candidates with one schedule or with equal usage. -/
def same (o : UsageOrder K) (a b : Solution K S (Usage K)) : Bool :=
  a.schedule == b.schedule || o.equals a.resources b.resources

/-- A problem whose resources are a usage, from its dynamics. It is complete
where the distance falls below the threshold. -/
def problem (o : UsageOrder K) (settings : Settings K S)
    (distance : Solution K S (Usage K) → K)
    (step : A → Solution K S (Usage K) → Solution K S (Usage K))
    (blendState : S → S → K → S) : Problem K S (Usage K) A :=
  let complete (s : Solution K S (Usage K)) : Bool := distance s < settings.threshold
  { settings, step, distance, complete, blendState
    strictlyBetter := o.strictlyBetter complete
    probablyBetter := o.probablyBetter distance
    same := o.same
    lighter := o.less
    blendResources := Usage.blend
    noResources := Usage.zero
    cost := Usage.cost }

end UsageOrder
end ModeSchedule
