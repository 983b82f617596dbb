/-!
# Roman numerals

Numerals are built greedily from a table of digits and subtractive pairs, largest value first.
-/

namespace Compositor.Text

/-- The values a roman numeral is made of, in descending order, and their letters. -/
def romanDigits : List (Nat × String) :=
  [(1000, "m"), (900, "cm"), (500, "d"), (400, "cd"), (100, "c"), (90, "xc"),
    (50, "l"), (40, "xl"), (10, "x"), (9, "ix"), (5, "v"), (4, "iv"), (1, "i")]

/-- The numeral of `n` made from the values of a table. -/
def romanFrom : List (Nat × String) → Nat → String
  | [], _ => ""
  | (value, letters) :: rest, n =>
    String.join (List.replicate (n / value) letters) ++ romanFrom rest (n % value)

/-- The lower case roman numeral of a number, empty for numbers below one. -/
def roman (n : Int64) : String :=
  romanFrom romanDigits n.toInt.toNat

end Compositor.Text
