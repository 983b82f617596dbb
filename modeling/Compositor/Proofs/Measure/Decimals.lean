import Compositor.Measure.Scaled
import Mathlib.Data.List.Basic
import Mathlib.Data.Nat.Digits.Defs
import Mathlib.Tactic.IntervalCases
import Mathlib.Tactic.Ring

/-!
# Decimal digits of a fraction

A fraction of a point is a multiple of `1/65536`. It is printed with the least number of digits which determine it, and
`roundDecimals` takes digits to the nearest fraction. The two fit together: `roundDecimals_digitsOfFraction`. No fewer digits
would do: `roundDecimals_ne_of_shorter`.

* `Determines` says that a fraction is the one nearest to some digits, and `roundDecimals_eq` that it is found from them;
* `fractionDigits_determines` follows the digits as they are printed. With `n` digits so far, which make up the number `D`,
  the remainder is `10ⁿ(10f + 5) - 655360 D`: that is the invariant. Printing stops as soon as the remainder is small
  enough, and after five digits anyway, the last of which is rounded;
* `fractionDigits_shortest` follows them again. As long as the remainder is too large, `D` is the greatest number of `n` digits
  which does not exceed the fraction by half a unit, and it is not near enough.
-/

namespace Compositor.Measure

/-! ## Rounding -/

/-- The number with these decimal digits, the most significant one first. -/
def decimalValue (ds : List Nat) : Nat := Nat.ofDigits 10 ds.reverse

theorem decimalValue_append (ds es : List Nat) :
    decimalValue (ds ++ es) = 10 ^ es.length * decimalValue ds + decimalValue es := by
  rw [decimalValue, List.reverse_append, Nat.ofDigits_append, List.length_reverse]
  exact Nat.add_comm _ _

theorem decimalValue_singleton (d : Nat) : decimalValue [d] = d := Nat.ofDigits_singleton

/-- Digit by digit from the last one on, as rounding goes, the quotient is that of the whole number. -/
theorem foldr_digits (u : Nat) (ds : List Nat) :
    ds.foldr (fun d a => (a + d * u) / 10) 0 = u * decimalValue ds / 10 ^ ds.length := by
  induction ds with
  | nil => simp [decimalValue]
  | cons d ds ih =>
    have hvalue : decimalValue (d :: ds) = 10 ^ ds.length * d + decimalValue ds := by
      rw [← List.singleton_append, decimalValue_append, decimalValue_singleton]
    have hpos : 0 < 10 ^ ds.length := by positivity
    rw [List.foldr_cons, ih, ← Nat.add_mul_div_right _ _ hpos, Nat.div_div_eq_div_mul, hvalue, List.length_cons,
      Nat.pow_succ]
    congr 1
    ring

theorem roundDecimals_eq {ds : List Nat} (h : ds.length ≤ significantDigits) :
    roundDecimals ds = (2 * unity * decimalValue ds + 10 ^ ds.length) / (2 * 10 ^ ds.length) := by
  have hpos : 0 < 10 ^ ds.length := by positivity
  rw [roundDecimals, List.take_of_length_le h, foldr_digits, ← Nat.add_div_right _ hpos, Nat.div_div_eq_div_mul,
    Nat.mul_comm 2 (10 ^ ds.length)]

/-- The fraction, in units of `1/65536`, is the nearest one to these digits. -/
def Determines (ds : List Nat) (f : Nat) : Prop :=
  f * (2 * 10 ^ ds.length) ≤ 2 * unity * decimalValue ds + 10 ^ ds.length ∧
    2 * unity * decimalValue ds + 10 ^ ds.length < (f + 1) * (2 * 10 ^ ds.length)

theorem determines_iff {ds : List Nat} {f : Nat} (hlength : ds.length ≤ significantDigits) :
    Determines ds f ↔ roundDecimals ds = f := by
  have hpos : 0 < 2 * 10 ^ ds.length := by positivity
  rw [roundDecimals_eq hlength, Nat.div_eq_iff hpos, Determines, Nat.add_one_mul f]
  omega

/-! ## Printing -/

section Printing

variable {f s : Nat} {ds : List Nat}

/-- What is left of a fraction after some of its digits. -/
def Remains (f : Nat) (ds : List Nat) (s : Nat) : Prop :=
  s + 10 * unity * decimalValue ds = 10 ^ ds.length * (10 * f + 5)

theorem Remains.digit (h : Remains f ds s) : Remains f (ds ++ [s / unity]) (10 * (s % unity)) := by
  have hdivmod : unity * (s / unity) + s % unity = s := Nat.div_add_mod s unity
  unfold Remains at h ⊢
  rw [decimalValue_append, decimalValue_singleton, List.length_append, List.length_singleton]
  calc 10 * (s % unity) + 10 * unity * (10 ^ 1 * decimalValue ds + s / unity)
      = 10 * (unity * (s / unity) + s % unity) + 10 * (10 * unity * decimalValue ds) := by ring
    _ = 10 * (s + 10 * unity * decimalValue ds) := by rw [hdivmod, Nat.mul_add]
    _ = 10 ^ (ds.length + 1) * (10 * f + 5) := by rw [h, Nat.pow_succ]; ring

/-- The digits never are exactly between two fractions: their number has too few factors of two. -/
theorem Remains.pos (h : Remains f ds s) (hlength : ds.length ≤ 4) : 0 < s := by
  unfold Remains unity at h
  generalize decimalValue ds = value at h
  generalize ds.length = n at h hlength
  interval_cases n <;> omega

theorem Remains.determines (h : Remains f ds s) (hlength : ds.length ≤ 4) (hsmall : s ≤ 10 * 10 ^ ds.length) :
    Determines ds f := by
  have hpos := h.pos hlength
  unfold Remains at h
  unfold Determines
  generalize 10 ^ ds.length = p at h hsmall ⊢
  rw [Nat.mul_assoc 10, Nat.mul_add, Nat.mul_left_comm p 10 f] at h
  rw [Nat.mul_assoc 2, Nat.add_mul, Nat.mul_left_comm f 2 p, Nat.mul_comm f p]
  constructor <;> omega

/-- A large remainder does matter: no digits as many as those printed so far determine the fraction. -/
theorem Remains.not_determines {es : List Nat} (h : Remains f ds s) (hs : s < 10 * unity) (hlarge : 10 * 10 ^ ds.length < s)
    (hlength : es.length = ds.length) : ¬ Determines es f := by
  rintro ⟨hlow, hhigh⟩
  unfold Remains at h
  rw [hlength] at hlow hhigh
  generalize 10 ^ ds.length = p at h hlarge hlow hhigh
  rw [Nat.mul_add, Nat.mul_left_comm p 10 f] at h
  rw [Nat.mul_left_comm f 2 p, Nat.mul_comm f p] at hlow
  rw [Nat.mul_left_comm (f + 1) 2 p, Nat.add_mul, Nat.mul_comm f p] at hhigh
  -- the printed digits are the greatest ones below the upper bound, so others as many are no greater
  have hle : decimalValue es ≤ decimalValue ds := by
    unfold unity at h hs hhigh
    omega
  unfold unity at h hlow
  omega

/-- The fifth digit is rounded, and that is precise enough. -/
theorem Remains.determines_rounded (h : Remains f ds s) (hlength : ds.length = 4) (hlarge : 100000 < s) :
    Determines (ds ++ [(s + 0x8000 - 50000) / unity]) f := by
  have hdivmod := Nat.div_add_mod (s + 0x8000 - 50000) unity
  have hmod : (s + 0x8000 - 50000) % unity < unity := Nat.mod_lt _ (by decide)
  unfold Remains at h
  unfold Determines
  rw [decimalValue_append, decimalValue_singleton, List.length_append, List.length_singleton]
  rw [hlength] at h ⊢
  simp only [unity] at h hdivmod hmod ⊢
  omega

theorem fractionDigits_last (s : Nat) : fractionDigits 1 s (10 * 10 ^ 4) = [(s + 0x8000 - 50000) / unity] := by
  simp [fractionDigits, unity]

/-- Printing goes on with the next digit, unless the remainder is small enough. -/
theorem fractionDigits_succ {fuel n : Nat} (hn : n ≤ 3) :
    fractionDigits (fuel + 1) s (10 * 10 ^ n) = s / unity :: (if 10 * (s % unity) ≤ 10 * 10 ^ (n + 1) then []
      else fractionDigits fuel (10 * (s % unity)) (10 * 10 ^ (n + 1))) := by
  have hpower : 10 ^ n ≤ 10 ^ 3 := Nat.pow_le_pow_right (by decide) hn
  have hexact : ¬ 10 * 10 ^ n > unity := by
    unfold unity
    omega
  have hdelta : 10 * 10 ^ n * 10 = 10 * 10 ^ (n + 1) := by rw [Nat.pow_succ, Nat.mul_assoc]
  simp only [fractionDigits, hexact, if_false, hdelta]
  split <;> rfl

/-- The digits which are printed determine the fraction, together with those printed before. -/
theorem fractionDigits_determines (ds : List Nat) {fuel : Nat} (hlength : ds.length + (fuel + 1) = maxFractionDigits)
    (h : Remains f ds s) (hlarge : 0 < ds.length → 10 * 10 ^ ds.length < s) (hs : s < 10 * unity) :
    Determines (ds ++ fractionDigits (fuel + 1) s (10 * 10 ^ ds.length)) f := by
  induction fuel generalizing ds s with
  | zero =>
    have hfour : ds.length = 4 := Nat.add_right_cancel hlength
    rw [hfour] at hlarge
    rw [hfour, fractionDigits_last]
    exact h.determines_rounded hfour (hlarge (by decide))
  | succ fuel ih =>
    have hthree : ds.length ≤ 3 := by
      unfold maxFractionDigits at hlength
      omega
    have hdigit := h.digit
    have hlength' : (ds ++ [s / unity]).length = ds.length + 1 := by simp
    have hmod : s % unity < unity := Nat.mod_lt s (by decide)
    rw [fractionDigits_succ hthree]
    split
    · exact hdigit.determines (by omega) (by rwa [hlength'])
    · rename_i hmore
      rw [← List.singleton_append, ← List.append_assoc, ← hlength']
      refine ih _ (by omega) hdigit (fun _ => ?_) (by omega)
      rw [hlength']
      omega

/-- **Fewer digits do not determine the fraction**: at each of them printing has gone on for a reason. -/
theorem fractionDigits_shortest {es : List Nat} (ds : List Nat) {fuel : Nat} (hlength : ds.length + (fuel + 1) = maxFractionDigits)
    (h : Remains f ds s) (hlarge : 0 < ds.length → 10 * 10 ^ ds.length < s) (hs : s < 10 * unity) (hpos : 0 < es.length)
    (hle : ds.length ≤ es.length)
    (hlt : es.length < ds.length + (fractionDigits (fuel + 1) s (10 * 10 ^ ds.length)).length) : ¬ Determines es f := by
  induction fuel generalizing ds s with
  | zero =>
    have hfour : ds.length = 4 := Nat.add_right_cancel hlength
    rw [hfour, fractionDigits_last, List.length_singleton] at hlt
    exact h.not_determines hs (hlarge (by omega)) (by omega)
  | succ fuel ih =>
    have hthree : ds.length ≤ 3 := by
      unfold maxFractionDigits at hlength
      omega
    rcases Nat.eq_or_lt_of_le hle with heq | hmore
    · exact h.not_determines hs (hlarge (by omega)) heq.symm
    · have hlength' : (ds ++ [s / unity]).length = ds.length + 1 := by simp
      have hmod : s % unity < unity := Nat.mod_lt s (by decide)
      rw [fractionDigits_succ hthree, List.length_cons] at hlt
      split at hlt
      · rw [List.length_nil] at hlt
        omega
      · rename_i hcontinues
        rw [← hlength'] at hlt hcontinues
        exact ih (ds ++ [s / unity]) (by omega) h.digit (fun _ => by omega) (by omega) (by omega) (by omega)

theorem fractionDigits_ne_nil (fuel s delta : Nat) : fractionDigits (fuel + 1) s delta ≠ [] := by
  unfold fractionDigits
  generalize (if delta > unity then s + 0x8000 - 50000 else s) = s'
  dsimp only
  split <;> exact List.cons_ne_nil _ _

/-- Decimal digits are less than ten, and there are not more of them than allowed. -/
theorem fractionDigits_bounded {fuel delta : Nat} (hs : s < 10 * unity) :
    (∀ d ∈ fractionDigits fuel s delta, d < 10) ∧ (fractionDigits fuel s delta).length ≤ fuel := by
  induction fuel generalizing s delta with
  | zero => simp [fractionDigits]
  | succ fuel ih =>
    unfold fractionDigits
    generalize hs' : (if delta > unity then s + 0x8000 - 50000 else s) = s'
    have hle : s' ≤ s := by
      rw [← hs']
      split <;> omega
    have hfirst : s' / unity < 10 := by
      rw [Nat.div_lt_iff_lt_mul (by decide)]
      omega
    have hmod : s' % unity < unity := Nat.mod_lt s' (by decide)
    dsimp only
    split
    · exact ⟨by simpa using hfirst, by simp⟩
    · have hnext : 10 * (s' % unity) < 10 * unity := by omega
      obtain ⟨hlt, hlength⟩ := ih hnext
      exact ⟨List.forall_mem_cons.2 ⟨hfirst, hlt⟩, Nat.succ_le_succ hlength⟩

end Printing

/-! ## Fractions of a point -/

variable {f : Nat}

theorem digitsOfFraction_lt (hf : f < unity) : ∀ d ∈ digitsOfFraction f, d < 10 :=
  (fractionDigits_bounded (by omega)).1

theorem remains_start (f : Nat) : Remains f [] (10 * f + 5) := by simp [Remains, decimalValue]

theorem digitsOfFraction_ne_nil (f : Nat) : digitsOfFraction f ≠ [] := fractionDigits_ne_nil _ _ _

theorem digitsOfFraction_length (hf : f < unity) : (digitsOfFraction f).length ≤ maxFractionDigits :=
  (fractionDigits_bounded (by omega)).2

/-- **The digits of a fraction determine it.** -/
theorem roundDecimals_digitsOfFraction (hf : f < unity) : roundDecimals (digitsOfFraction f) = f := by
  have hdetermines : Determines (digitsOfFraction f) f :=
    fractionDigits_determines [] rfl (remains_start f) (fun h => absurd h (Nat.lt_irrefl 0)) (by omega)
  exact (determines_iff ((digitsOfFraction_length hf).trans (by decide))).1 hdetermines

/-- **Fewer digits give another fraction**, whatever they are. -/
theorem roundDecimals_ne_of_shorter {es : List Nat} (hf : f < unity) (hne : es ≠ [])
    (hlt : es.length < (digitsOfFraction f).length) : roundDecimals es ≠ f := by
  have hfive := digitsOfFraction_length hf
  have hshort : ¬ Determines es f :=
    fractionDigits_shortest [] rfl (remains_start f) (fun h => absurd h (Nat.lt_irrefl 0)) (by omega)
      (List.length_pos_iff.2 hne) (Nat.zero_le _) (by simpa [digitsOfFraction, maxFractionDigits] using hlt)
  rwa [determines_iff ((Nat.le_of_lt hlt).trans (hfive.trans (by decide)))] at hshort

/-! ## Scaled numbers -/

section Scaled

variable {s t : Int64} {n : Nat}

/-- The number without its sign, unless it is the least one, whose opposite does not fit. -/
theorem magnitude_eq (hs : s.toInt.natAbs < Text.signedCount) :
    (if s < 0 then -s else s) = Int64.ofNat s.toInt.natAbs := by
  unfold Text.signedCount at hs
  rw [← Int64.toInt_inj, Int64.toInt_ofNat_of_lt (by omega)]
  split
  · rename_i hneg
    have hneg : s.toInt < 0 := Int64.lt_iff_toInt_lt.1 hneg
    rw [Int64.toInt_neg, Int.bmod_eq_of_le] <;> omega
  · rename_i hneg
    have hnonneg : ¬ s.toInt < 0 := fun h => hneg (Int64.lt_iff_toInt_lt.2 h)
    omega

theorem ofNat_div {k : Nat} (hn : n < Text.signedCount) (hk : k < Text.signedCount) :
    Int64.ofNat n / Int64.ofNat k = Int64.ofNat (n / k) := by
  unfold Text.signedCount at hn hk
  have hle : n / k ≤ n := Nat.div_le_self n k
  have hdiv : Int.tdiv n k = ((n / k : Nat) : Int) := by
    rw [Int.tdiv_eq_ediv_of_nonneg (by omega)]
    rfl
  rw [← Int64.toInt_inj, Int64.toInt_div, Int64.toInt_ofNat_of_lt (by omega), Int64.toInt_ofNat_of_lt (by omega), hdiv,
    Int64.toInt_ofNat_of_lt (by omega)]
  generalize n / k = q at hle
  rw [Int.bmod_eq_of_le] <;> omega

theorem ofNat_mod_unity (hn : n < Text.signedCount) :
    (Int64.ofNat n % Int64.ofNat unity).toInt.toNat = n % unity := by
  unfold Text.signedCount at hn
  rw [Int64.toInt_mod, Int64.toInt_ofNat_of_lt (by omega), Int64.toInt_ofNat_of_lt (by decide),
    Int.tmod_eq_emod_of_nonneg (by omega)]
  rfl

theorem toList_join_digits {ds : List Nat} (h : ∀ d ∈ ds, d < 10) :
    (String.join (ds.map toString)).toList = ds.map Nat.digitChar := by
  rw [String.toList_join]
  induction ds with
  | nil => rfl
  | cons d ds ih =>
    obtain ⟨hd, hds⟩ := List.forall_mem_cons.1 h
    have hdigit : (toString d).toList = [d.digitChar] := by
      rw [Nat.toString_eq_ofList_toDigits, Nat.toDigits_of_lt_base hd, String.toList_ofList]
    rw [List.map_cons, List.flatMap_cons, hdigit, ih hds]
    rfl

/-- The characters of a scaled number: its sign, the digits of the points and those of the fraction. -/
theorem toList_formatScaled (hs : s.toInt.natAbs < Text.signedCount) :
    (formatScaled s).toList = (if s < 0 then ['-'] else []) ++ Nat.toDigits 10 (s.toInt.natAbs / unity) ++
      '.' :: (digitsOfFraction (s.toInt.natAbs % unity)).map Nat.digitChar := by
  have hwhole : (Text.decimal (Int64.ofNat s.toInt.natAbs / Int64.ofNat unity)).toList =
      Nat.toDigits 10 (s.toInt.natAbs / unity) := by
    have hle : s.toInt.natAbs / unity ≤ s.toInt.natAbs := Nat.div_le_self _ unity
    unfold Text.signedCount at hs
    rw [Text.decimal, ofNat_div hs (by decide), Int64.toInt_ofNat_of_lt (by omega)]
    exact (congrArg String.toList Nat.toString_eq_ofList_toDigits).trans String.toList_ofList
  have hfraction := toList_join_digits (digitsOfFraction_lt (Nat.mod_lt s.toInt.natAbs (by decide : 0 < unity)))
  simp only [formatScaled, magnitude_eq hs, ofNat_mod_unity hs, String.toList_append, hwhole, hfraction,
    List.append_assoc]
  split <;> rfl

/-- The digits of `n/65536` points. -/
def numeral (n : Nat) : List Char :=
  Nat.toDigits 10 (n / unity) ++ '.' :: (digitsOfFraction (n % unity)).map Nat.digitChar

/-- What stands before the digits of a scaled number. The least one has two signs. -/
def signs (s : Int64) : List Char :=
  if s = Int64.minValue then ['-', '-'] else if s < 0 then ['-'] else []

theorem natAbs_lt_of_ne (hs : s ≠ Int64.minValue) : s.toInt.natAbs < Text.signedCount := by
  have hmin : s.toInt ≠ -9223372036854775808 := fun h => hs (Int64.toInt_inj.1 h)
  have hlow := s.le_toInt
  have hhigh := s.toInt_lt
  unfold Text.signedCount
  omega

theorem toList_formatScaled_eq (s : Int64) : (formatScaled s).toList = signs s ++ numeral s.toInt.natAbs := by
  by_cases hs : s = Int64.minValue
  · subst hs
    decide +kernel
  · rw [toList_formatScaled (natAbs_lt_of_ne hs), signs, if_neg hs, numeral, List.append_assoc]

theorem isDigit_of_mem_fraction {c : Char} (hc : c ∈ (digitsOfFraction (n % unity)).map Nat.digitChar) :
    c.isDigit = true := by
  obtain ⟨d, hd, rfl⟩ := List.mem_map.1 hc
  simpa [Nat.isDigit_digitChar] using digitsOfFraction_lt (Nat.mod_lt n (by decide)) d hd

theorem hyphen_not_mem_numeral : '-' ∉ numeral n := by
  intro h
  rcases List.mem_append.1 h with h | h
  · cases Nat.isDigit_of_mem_toDigits (by decide) (by decide) h
  · rcases List.mem_cons.1 h with h | h
    · cases h
    · cases isDigit_of_mem_fraction h

theorem toDigits_inj {m n : Nat} (h : Nat.toDigits 10 m = Nat.toDigits 10 n) : m = n := by
  have hvalue := congrArg (fun cs => Nat.ofDigitChars 10 cs 0) h
  simpa using hvalue

theorem map_digitChar_inj {ds es : List Nat} (hds : ∀ d ∈ ds, d < 10) (hes : ∀ e ∈ es, e < 10)
    (h : ds.map Nat.digitChar = es.map Nat.digitChar) : ds = es := by
  have hvalues (l : List Nat) (hl : ∀ d ∈ l, d < 10) : (l.map Nat.digitChar).map (·.toNat - 48) = l := by
    rw [List.map_map]
    exact List.map_congr_left (fun d hd => Nat.toNat_digitChar_sub_48_of_lt_ten (hl d hd)) |>.trans (List.map_id l)
  rw [← hvalues ds hds, ← hvalues es hes, h]

theorem numeral_inj {m n : Nat} (h : numeral m = numeral n) : m = n := by
  have hdot : '.' ∉ Nat.toDigits 10 (m / unity) := fun h => by
    cases Nat.isDigit_of_mem_toDigits (by decide) (by decide) h
  have hdot' : '.' ∉ (digitsOfFraction (m % unity)).map Nat.digitChar := fun h => by
    cases isDigit_of_mem_fraction h
  unfold numeral at h
  obtain ⟨hwhole, -, hfraction⟩ := (List.append_cons_inj_of_notMem hdot hdot').1 h
  have hlt (k : Nat) : k % unity < unity := Nat.mod_lt k (by decide)
  have hdigits := map_digitChar_inj (digitsOfFraction_lt (hlt m)) (digitsOfFraction_lt (hlt n)) hfraction
  have hmod : m % unity = n % unity := by
    rw [← roundDecimals_digitsOfFraction (hlt m), hdigits, roundDecimals_digitsOfFraction (hlt n)]
  rw [← Nat.div_add_mod m unity, ← Nat.div_add_mod n unity, toDigits_inj hwhole, hmod]

end Scaled

end Compositor.Measure
