/-
ModeSchedule.Random.Seed — spreading a seed over the state of a generator.

A seed is a natural number of any size. Its 32-bit words are mixed into a pool
of four words, in such a way that every word affects all of the pool; from the
pool eight more words are derived.
-/

namespace ModeSchedule.Seed

/-- The words of a number, least significant first; one word for zero. The
first argument bounds their number. -/
def wordsWithin : Nat → Nat → List UInt32
  | 0, n => [n.toUInt32]
  | fuel + 1, n =>
    if n < 0x100000000 then [n.toUInt32]
    else n.toUInt32 :: wordsWithin fuel (n / 0x100000000)

def words (n : Nat) : List UInt32 := wordsWithin (Nat.log2 n / 32 + 1) n

/-- Fold the upper half of a word into the lower one. -/
def fold (v : UInt32) : UInt32 := v ^^^ (v >>> 16)

/-- Hash a word with a constant, and give the constant for the next word. -/
def hash (constant v : UInt32) : UInt32 × UInt32 :=
  let next := constant * 0x931e8875
  (fold ((v ^^^ constant) * next), next)

/-- Mix a hashed word into another one. -/
def mix (x y : UInt32) : UInt32 := fold (0xca01f9dd * x - 0x4973f715 * y)

/-- A pool of words and the constant for the next hash. -/
structure Pool where
  words : List UInt32
  constant : UInt32
deriving Repr

/-- Hash the first four words of a seed, zeros where there are fewer. -/
def fill (constant : UInt32) : Nat → List UInt32 → Pool
  | 0, _ => ⟨[], constant⟩
  | n + 1, ws =>
    let (h, constant) := hash constant (ws.headD 0)
    let rest := fill constant n ws.tail
    { rest with words := h :: rest.words }

/-- Mix a word into one place of the pool. -/
def stir (word : UInt32) (place : Nat) (p : Pool) : Pool :=
  let (h, constant) := hash p.constant word
  { words := p.words.modify place fun x => mix x h, constant }

/-- Mix each word of the pool into all others. -/
def diffuse (p : Pool) : Pool :=
  (List.range 4).foldl (fun p source =>
    ((List.range 4).filter (· != source)).foldl (fun p place =>
      stir (p.words.getD source 0) place p) p) p

/-- Mix a further word into all of the pool. -/
def absorb (p : Pool) (word : UInt32) : Pool :=
  (List.range 4).foldl (fun p place => stir word place p) p

/-- The pool of a seed. -/
def pool (n : Nat) : Pool :=
  let ws := words n
  (ws.drop 4).foldl absorb (diffuse (fill 0x43b0d7e5 4 ws))

/-- Words derived from the pool, which is gone through in a circle. -/
def derive (pool : List UInt32) : Nat → Nat → UInt32 → List UInt32
  | 0, _, _ => []
  | n + 1, place, constant =>
    let next := constant * 0x58f38ded
    let d := fold ((pool.getD (place % 4) 0 ^^^ constant) * next)
    d :: derive pool n (place + 1) next

/-- Four 64-bit words made from a seed, the lower half of each first. -/
def longWords (n : Nat) : List UInt64 :=
  pairs (derive (pool n).words 8 0 0x8b51f9dd)
where
  pairs : List UInt32 → List UInt64
    | low :: high :: rest => ((high.toUInt64 <<< 32) ||| low.toUInt64) :: pairs rest
    | _ => []

end ModeSchedule.Seed
