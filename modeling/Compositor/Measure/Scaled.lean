import Compositor.Text.Decimal

/-!
# Scaled points

Lengths are integers in scaled points, 65536 of which make a printer's point. The arithmetic is that of 64 bit
words. This module holds the two conversions between the fraction of a point and decimal digits:

* `roundDecimals` takes digits after the decimal point to the nearest multiple of `1/65536`;
* `formatScaled` writes the least number of digits from which `roundDecimals` gives the fraction back.
-/

namespace Compositor.Measure

/-- The scaled points in a printer's point. -/
def unity : Nat := 65536

/-- At most this many digits after the decimal point have an influence. -/
def significantDigits : Nat := 17

/-- The fraction with the given decimal digits, in units of `1/65536`, rounded to the nearest. -/
def roundDecimals (digits : List Nat) : Nat :=
  ((digits.take significantDigits).foldr (fun d a => (a + d * (2 * unity)) / 10) 0 + 1) / 2

/-- The fraction whose decimal digits are the bytes of a text. -/
def roundNumeral (s : String) : Nat :=
  roundDecimals (s.toUTF8.toList.map fun b => (b - 0x30).toNat)

/-- The digits of a fraction which is known up to `delta`. Both numbers are scaled by the power of ten of
the next digit. The last possible digit is rounded. -/
def fractionDigits : Nat → Nat → Nat → List Nat
  | 0, _, _ => []
  | fuel + 1, scaled, delta =>
    let scaled := if delta > unity then scaled + 0x8000 - 50000 else scaled
    let rest := 10 * (scaled % unity)
    if rest ≤ delta * 10 then [scaled / unity]
    else scaled / unity :: fractionDigits fuel rest (delta * 10)

/-- A fraction of a point never needs more digits than this. -/
def maxFractionDigits : Nat := 5

/-- The least digits which determine a fraction given in units of `1/65536`. -/
def digitsOfFraction (fraction : Nat) : List Nat :=
  fractionDigits maxFractionDigits (10 * fraction + 5) 10

/-- A scaled number in decimal notation. -/
def formatScaled (s : Int64) : String :=
  let magnitude := if s < 0 then -s else s
  let fraction := (magnitude % Int64.ofNat unity).toInt.toNat
  (if s < 0 then "-" else "") ++ Text.decimal (magnitude / Int64.ofNat unity) ++ "." ++
    String.join ((digitsOfFraction fraction).map toString)

end Compositor.Measure
