/-
ModeSchedule.Search.Algorithm — the search algorithms and what sets them apart:
which modes a candidate may go on with, by which relation incomplete candidates
are pruned, and by how many steps at a time each level searches.
-/
import ModeSchedule.Problem
import ModeSchedule.PlanError

namespace ModeSchedule

inductive Algorithm where
  /-- Free switching; only exact dominance prunes. -/
  | exhaustive
  /-- Free switching; heuristic dominance prunes incomplete candidates. -/
  | heuristic
  /-- No switching after the first choice. -/
  | singleMachine
deriving Repr, DecidableEq

namespace Algorithm

def name : Algorithm → String
  | exhaustive => "exhaustive"
  | heuristic => "heuristic"
  | singleMachine => "single_machine"

def ofName? : String → Option Algorithm
  | "exhaustive" => some exhaustive
  | "heuristic" => some heuristic
  | "single_machine" => some singleMachine
  | _ => none

def switching : Algorithm → Switching
  | singleMachine => .none
  | _ => .free

/-- The powers of two from `2 ^ n` down to one. -/
def halvings : Nat → List Nat
  | 0 => [1]
  | n + 1 => Nat.pow 2 (n + 1) :: halvings n

/-- The steps per block of each level, coarsest first, halving down to one. A
single machine has one level, of single steps. -/
def strides : Algorithm → Nat → List Nat
  | singleMachine, _ => [1]
  | _, levels => halvings (levels - 1)

/-- The strides for a number of levels that is known to be positive; a single
machine does not need to count it. -/
def stridesFor {K : Type} (a : Algorithm) (levels : Given K) : Except PlanError (List Nat) :=
  match a with
  | singleMachine => .ok (a.strides 1)
  | _ => (requireCount levels).map a.strides

/-- The strides of a request. -/
def strides? {K : Type} [Scalar K] (a : Algorithm) (levels : Given K) :
    Except PlanError (List Nat) := do
  requirePositive .levels levels
  a.stridesFor levels

/-- The relation by which candidates are pruned. -/
def better {K S R A : Type} (P : Problem K S R A) :
    Algorithm → Solution K S R → Solution K S R → Bool
  | heuristic => P.probablyBetter
  | _ => P.strictlyBetter

end Algorithm

namespace Switching

def ofName? : String → Option Switching
  | "none" => some .none
  | "increasing" => some .increasing
  | "free" => some .free
  | _ => Option.none

/-- The modes that a candidate may go on with, of `count` modes. -/
def candidates (switching : Switching) (count : Nat) (schedule : Schedule) :
    Except PlanError (List Nat) :=
  match switching with
  | .free => .ok (List.range count)
  | restricted =>
    match schedule.active? with
    | Option.none => .error (.noActiveMode restricted)
    | some active =>
      if count ≤ active then .error (.unknownActiveMode active count)
      else if restricted = .increasing then .ok (List.range' active (count - active))
      else .ok [active]

end Switching
end ModeSchedule
