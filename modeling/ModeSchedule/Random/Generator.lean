/-
ModeSchedule.Random.Generator — the draws of a refinement.

A generator either goes through a given list of numbers in a circle, or it is a
permuted congruential generator: a 128-bit state advances by a linear map, and
each output is the exclusive or of its two halves, rotated by its top six bits.
Such outputs are turned into numbers between one and ten.
-/
import ModeSchedule.Random.Source
import ModeSchedule.Random.Seed

namespace ModeSchedule

/-- The state of a permuted congruential generator. -/
structure Congruential where
  state : BitVec 128
  increment : BitVec 128
deriving Repr, DecidableEq

namespace Congruential

def multiplier : BitVec 128 := 0x2360ED051FC65DA44385DF649FCCF645#128

def step (c : Congruential) : Congruential :=
  { c with state := c.state * multiplier + c.increment }

def join (high low : UInt64) : BitVec 128 := high.toBitVec ++ low.toBitVec

/-- The generator of a seed. -/
def ofSeed (n : Nat) : Congruential :=
  let word (i : Nat) := (Seed.longWords n).getD i 0
  let increment := (join (word 2) (word 3) <<< 1) ||| 1#128
  let c : Congruential := step { state := 0, increment }
  step { c with state := c.state + join (word 0) (word 1) }

/-- The output of a state. -/
def output (c : Congruential) : BitVec 64 :=
  let high := c.state.extractLsb' 64 64
  let low := c.state.extractLsb' 0 64
  (high ^^^ low).rotateRight (c.state.extractLsb' 122 6).toNat

/-- The next number in the unit interval, a multiple of `2 ^ (-53)`. -/
def unit (c : Congruential) : Float × Congruential :=
  let c := c.step
  ((c.output >>> 11).toNat.toFloat / 9007199254740992.0, c)

end Congruential

/-- What draws are asked of: a seed, or the numbers themselves. -/
inductive DrawPlan where
  | seed (n : Int)
  | listed (values : List Float)
deriving Repr

inductive Generator where
  | congruential (c : Congruential)
  /-- A list of numbers and the position of the next one. -/
  | listed (values : List Float) (position : Nat)
deriving Repr

namespace Generator

/-- A number between one and ten. -/
def next : Generator → Float × Generator
  | congruential c =>
    let (u, c) := c.unit
    (1.0 + 9.0 * u, congruential c)
  | listed values position =>
    (values.getD (position % values.length) 0.0, listed values (position + 1))

/-- The generator of a plan; there is none for a negative seed. -/
def ofPlan? : DrawPlan → Option Generator
  | .seed n => if n < 0 then none else some (congruential (Congruential.ofSeed n.toNat))
  | .listed values => some (listed values 0)

def source : Source Generator Float := ⟨next⟩

end Generator
end ModeSchedule
