/-!
# Sets of characters as ranges and progressions

Classes of characters are kept as closed ranges of code points, or as progressions where every second
character belongs to the class (capital and small letters often alternate).
-/

namespace Compositor.Text

/-- Membership of a code point in a list of closed ranges. -/
def inRanges (ranges : List (Nat × Nat)) (code : Nat) : Bool :=
  ranges.any fun (low, high) => low ≤ code && code ≤ high

/-- The code points `first`, `first + step`, … up to `last`. -/
structure Progression where
  first : Nat
  last : Nat
  step : Nat
deriving DecidableEq, Repr

def Progression.contains (p : Progression) (code : Nat) : Bool :=
  p.first ≤ code && code ≤ p.last && (code - p.first) % p.step == 0

end Compositor.Text
