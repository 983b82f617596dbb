import Compositor.Proofs.Measure.Texts
import Mathlib.Data.Rat.Floor
import Mathlib.Tactic.FieldSimp
import Mathlib.Tactic.Linarith

/-!
# Rounding of decimal fractions

A decimal fraction is rounded to the nearest multiple of `1/65536`, and a tie is rounded up. Only the first seventeen digits
are looked at: a tie between two multiples is a multiple of `1/131072`, which has at most seventeen digits, so none lies
between a fraction and its first seventeen digits.

* `decimalFraction` is the number behind a decimal point;
* `roundDecimals_eq_of_lt` finds the rounded fraction for any number of digits, `roundDecimals_floor` is the same with a floor;
* `decimals_rounded` is the statement about texts.
-/

namespace Compositor.Measure

open Text

/-- The number with these digits behind the decimal point. -/
def decimalFraction (ds : List Nat) : ℚ := decimalValue ds / 10 ^ ds.length

theorem decimalValue_lt {ds : List Nat} (h : ∀ d ∈ ds, d < 10) : decimalValue ds < 10 ^ ds.length := by
  have hlt := Nat.ofDigits_lt_base_pow_length (b := 10) (l := ds.reverse) (by decide) fun d hd => h d (List.mem_reverse.1 hd)
  rwa [List.length_reverse] at hlt

/-- Digits after the first seventeen do not change the quotient: it changes at multiples of `1/131072` only. -/
theorem dropped_digits {p a b : Nat} (hb : b < p) :
    (2 * unity * (p * a + b) + 10 ^ 17 * p) / (2 * (10 ^ 17 * p)) = (2 * unity * a + 10 ^ 17) / (2 * 10 ^ 17) := by
  have hp : 0 < p := Nat.zero_lt_of_lt hb
  have hpow : (10 : Nat) ^ 17 = 2 * unity * 5 ^ 17 := by decide
  generalize hq : (2 * unity * a + 10 ^ 17) / (2 * 10 ^ 17) = q
  rw [Nat.div_eq_iff (by decide)] at hq
  obtain ⟨hlow, hhigh⟩ := hq
  -- all terms are multiples of `2 * unity`, so the upper bound leaves room for a whole unit of the last digit
  have hlow : 2 * 5 ^ 17 * q ≤ a + 5 ^ 17 := by
    unfold unity at hlow hpow
    omega
  have hhigh : a + 5 ^ 17 + 1 ≤ 2 * 5 ^ 17 * (q + 1) := by
    unfold unity at hhigh hpow
    omega
  have hlow' : p * (2 * 5 ^ 17 * q) ≤ p * (a + 5 ^ 17) := Nat.mul_le_mul_left p hlow
  have hhigh' : p * (a + 5 ^ 17 + 1) ≤ p * (2 * 5 ^ 17 * (q + 1)) := Nat.mul_le_mul_left p hhigh
  refine Nat.div_eq_of_lt_le ?_ ?_
  · calc q * (2 * (10 ^ 17 * p)) = 2 * unity * (p * (2 * 5 ^ 17 * q)) := by rw [hpow]; ring
      _ ≤ 2 * unity * (p * (a + 5 ^ 17)) := Nat.mul_le_mul_left _ hlow'
      _ ≤ 2 * unity * (p * (a + 5 ^ 17) + b) := Nat.mul_le_mul_left _ (Nat.le_add_right _ _)
      _ = 2 * unity * (p * a + b) + 10 ^ 17 * p := by rw [hpow]; ring
  · calc 2 * unity * (p * a + b) + 10 ^ 17 * p = 2 * unity * (p * (a + 5 ^ 17) + b) := by rw [hpow]; ring
      _ < 2 * unity * (p * (a + 5 ^ 17 + 1)) := by
        rw [Nat.mul_lt_mul_left (by decide), Nat.mul_add p (a + 5 ^ 17) 1, Nat.mul_one]
        exact Nat.add_lt_add_left hb _
      _ ≤ 2 * unity * (p * (2 * 5 ^ 17 * (q + 1))) := Nat.mul_le_mul_left _ hhigh'
      _ = (q + 1) * (2 * (10 ^ 17 * p)) := by rw [hpow]; ring

/-- **The rounded fraction**, whatever the number of digits. -/
theorem roundDecimals_eq_of_lt {ds : List Nat} (h : ∀ d ∈ ds, d < 10) :
    roundDecimals ds = (2 * unity * decimalValue ds + 10 ^ ds.length) / (2 * 10 ^ ds.length) := by
  rcases Nat.le_total ds.length significantDigits with hshort | hlong
  · exact roundDecimals_eq hshort
  · have hlength : (ds.take significantDigits).length = significantDigits := by simpa using hlong
    have htake : roundDecimals ds = roundDecimals (ds.take significantDigits) := by
      unfold roundDecimals
      rw [List.take_take, Nat.min_self]
    have hdropped := decimalValue_lt fun d hd => h d (List.mem_of_mem_drop (i := significantDigits) hd)
    have hpower : 10 ^ ds.length = 10 ^ significantDigits * 10 ^ (ds.drop significantDigits).length := by
      rw [← Nat.pow_add, List.length_drop, Nat.add_sub_cancel' hlong]
    have hvalue : decimalValue ds = 10 ^ (ds.drop significantDigits).length * decimalValue (ds.take significantDigits) +
        decimalValue (ds.drop significantDigits) := by
      rw [← decimalValue_append, List.take_append_drop]
    rw [htake, roundDecimals_eq (Nat.le_of_eq hlength), hlength, hvalue, hpower]
    exact (dropped_digits hdropped).symm

theorem roundDecimals_floor {ds : List Nat} (h : ∀ d ∈ ds, d < 10) :
    (roundDecimals ds : ℤ) = ⌊65536 * decimalFraction ds + 1 / 2⌋ := by
  have hpos : (0 : ℚ) < 10 ^ ds.length := by positivity
  have hquotient : 65536 * decimalFraction ds + 1 / 2 =
      ((2 * unity * decimalValue ds + 10 ^ ds.length : ℕ) : ℚ) / ((2 * 10 ^ ds.length : ℕ) : ℚ) := by
    unfold decimalFraction unity
    push_cast
    field_simp
    ring
  rw [hquotient, Rat.floor_natCast_div_natCast, roundDecimals_eq_of_lt h, Int.natCast_ediv]

theorem digitValue_lt {c : Char} (h : c.isDigit = true) : digitValue c < 10 := by
  have hrange := isAsciiDigit_iff.1 (isAsciiDigit_of_isDigit h)
  unfold digitValue
  omega

theorem roundNumeral_eq {s : String} (h : ∀ c ∈ s.toList, c.isDigit = true) :
    roundNumeral s = roundDecimals (s.toList.map digitValue) := by
  have hofList := roundNumeral_ofList fun c hc => isAsciiDigit_of_isDigit (h c hc)
  rwa [String.ofList_toList] at hofList

/-- **Decimal fractions are rounded to the nearest multiple of `1/65536`**, whatever their number of digits, and a tie is
rounded up. The whole point is reached by the greatest ones. -/
theorem decimals_rounded (s : String) (h : ∀ c ∈ s.toList, c.isDigit = true) :
    (roundNumeral s : ℤ) = ⌊65536 * decimalFraction (s.toList.map digitValue) + 1 / 2⌋ ∧
      (roundNumeral s - 1 / 2 : ℚ) ≤ 65536 * decimalFraction (s.toList.map digitValue) ∧
      65536 * decimalFraction (s.toList.map digitValue) < (roundNumeral s + 1 / 2 : ℚ) ∧ roundNumeral s ≤ 65536 := by
  have hdigits : ∀ d ∈ s.toList.map digitValue, d < 10 := by
    intro d hd
    obtain ⟨c, hc, rfl⟩ := List.mem_map.1 hd
    exact digitValue_lt (h c hc)
  have hfloor := roundDecimals_floor hdigits
  obtain ⟨hlow, hhigh⟩ := Int.floor_eq_iff.1 hfloor.symm
  rw [roundNumeral_eq h]
  push_cast at hlow hhigh
  exact ⟨hfloor, by linarith, by linarith, roundDecimals_le hdigits⟩

/-- Half a unit is rounded up. One less in its last digit, which is the seventeenth, is rounded down, with any digits after
that. -/
theorem decimals_rounded_tie :
    ((roundNumeral "00000762939453125" : ℤ) = ⌊65536 * decimalFraction ("00000762939453125".toList.map digitValue) + 1 / 2⌋ ∧
        roundNumeral "00000762939453125" = 1) ∧
      (roundNumeral "0000076293945312499" : ℤ) =
          ⌊65536 * decimalFraction ("0000076293945312499".toList.map digitValue) + 1 / 2⌋ ∧
        roundNumeral "0000076293945312499" = 0 := by
  have htie : ∀ c ∈ "00000762939453125".toList, c.isDigit = true := by simp
  have hbelow : ∀ c ∈ "0000076293945312499".toList, c.isDigit = true := by simp
  exact ⟨⟨(decimals_rounded _ htie).1, by decide +kernel⟩, (decimals_rounded _ hbelow).1, by decide +kernel⟩

end Compositor.Measure
