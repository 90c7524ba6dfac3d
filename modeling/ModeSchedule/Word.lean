/-
ModeSchedule.Word — integers that fit into 64 bits.

The bounds are written out: `0x8000000000000000` is two to the power of 63.
-/

namespace ModeSchedule.Word

/-- It fits into a word with a sign. -/
def signed (n : Int) : Bool := -0x8000000000000000 ≤ n && n < 0x8000000000000000

/-- It lies strictly between the bounds of a word with a sign. -/
def inside (n : Int) : Bool := -0x8000000000000000 < n && n < 0x8000000000000000

/-- It fits into a word with a sign or into one without. -/
def fits (n : Int) : Bool := -0x8000000000000000 ≤ n && n < 0x10000000000000000

/-- The least integer of a word with a sign. -/
def least : Int := -0x8000000000000000

end ModeSchedule.Word
