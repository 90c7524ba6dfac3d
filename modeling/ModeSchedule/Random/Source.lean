/-
ModeSchedule.Random.Source — where draws come from.

A source makes one number at a time out of a state that the caller keeps. What
uses draws is written for any source, so a law about it holds for every stream
of numbers.
-/

namespace ModeSchedule

/-- A source of numbers of type `K` with states of type `G`. -/
structure Source (G K : Type) where
  draw : G → K × G

namespace Source

variable {G K : Type}

/-- A number of draws in a row. -/
def row (source : Source G K) : Nat → G → List K × G
  | 0, g => ([], g)
  | n + 1, g =>
    let (x, g) := source.draw g
    let (xs, g) := source.row n g
    (x :: xs, g)

/-- A number of rows, one after the other. -/
def grid (source : Source G K) (columns : Nat) : Nat → G → List (List K) × G
  | 0, g => ([], g)
  | n + 1, g =>
    let (first, g) := source.row columns g
    let (rest, g) := source.grid columns n g
    (first :: rest, g)

end Source
end ModeSchedule
