/-
ModeSchedule.Linear.System — linear systems in continuous and discrete time.

A continuous system moves by `dx/dt = A x + B u`, a discrete one by
`x[k+1] = A x[k] + B u`; both are observed as `y = C x + D u`. Holding the input
over a sampling interval turns the first kind into the second: the two matrices
of the discrete system are blocks of one matrix exponential.
-/
import ModeSchedule.Linear.Exponential
import ModeSchedule.Json.Value

namespace ModeSchedule.Linear

/-- The matrices of a system, and the sampling interval of a discrete one. -/
structure System (K : Type) where
  a : Matrix K
  b : Matrix K
  c : Matrix K
  d : Matrix K
  sampleTime : Option K := none
deriving Repr

/-- A system under a constant input. -/
structure Drive (K : Type) where
  system : System K
  input : Vector K
deriving Repr

variable {K : Type} [Scalar K]

def Matrix.toJson (m : Matrix K) : Json K := .arr (m.map Json.reals)

namespace System

/-- A system whose state, of so many components, is observed directly. -/
def observed (size : Nat) (a b : Matrix K) : System K :=
  { a, b, c := Matrix.identity size, d := Matrix.zero size b.width }

/-- State and input together, with an input that stays as it is. The state has
as many components as the input moves. -/
def augmented? (s : System K) : Option (Matrix K) := do
  let n := s.b.length
  if n = 0 then none
  let a ← s.a.squared? n
  return Matrix.beside a s.b ++ Matrix.zero s.b.width (n + s.b.width)

/-- The discrete system that results from holding the input over an interval,
where the matrices fit. -/
def held? (s : System K) (sampleTime : K) : Option (System K) := do
  let n := s.b.length
  let rows := (Matrix.exponential (Matrix.scale sampleTime (← s.augmented?))).take n
  return { s with
    a := rows.map (List.take n)
    b := rows.map (List.drop n)
    sampleTime := some sampleTime }

/-- The next state of a discrete system, where the matrices fit; of a continuous
one, the slope. -/
def next? (s : System K) (input state : Vector K) : Option (Vector K) := do
  zipStretched? (· + ·) (← s.a.times? state) (← s.b.times? input)

def toJson (s : System K) : Json K :=
  .obj
    ([("A", s.a.toJson), ("B", s.b.toJson), ("C", s.c.toJson), ("D", s.d.toJson)] ++
     match s.sampleTime with
     | some t => [("sample_time", .real t)]
     | none => [])

end System
end ModeSchedule.Linear
