import Compositor.Measure.Dimen
import Compositor.Proofs.Measure.Decimals
import Mathlib.Data.List.TakeDrop

/-!
# Units of measure

A length of `whole + part/65536` units is computed in words of 64 bits. `LengthUnit.exact` is the same over the unbounded
integers. The two agree where `LengthUnit.Fits` holds (`Fits.scale_eq`), so for all numbers which a scanner passes on
(`fits_of_le`). Larger numbers have been cut before, which makes no difference for a length that is too large anyway
(`LengthUnit.exact_saturated`).

`DimenText` is the text of a dimension in its parts, and `DimenText.parse_padded` says that these parts are found.
-/

namespace Compositor.Measure

/-- A fraction is at most one point, which it may reach by rounding. -/
theorem roundDecimals_le {ds : List Nat} (h : ∀ d ∈ ds, d < 10) : roundDecimals ds ≤ unity := by
  have hfold : ∀ l : List Nat, (∀ d ∈ l, d < 10) → l.foldr (fun d a => (a + d * (2 * unity)) / 10) 0 ≤ 2 * unity := by
    intro l hl
    induction l with
    | nil => exact Nat.zero_le _
    | cons d l ih =>
      obtain ⟨hd, hl⟩ := List.forall_mem_cons.1 hl
      have hrest := ih hl
      rw [List.foldr_cons]
      unfold unity at hrest ⊢
      omega
  have htake := hfold (ds.take significantDigits) fun d hd => h d (List.mem_of_mem_take hd)
  unfold roundDecimals
  unfold unity at htake ⊢
  omega

/-! ## Words of 64 bits -/

theorem bmod_of_fits {n : Nat} (h : n < Text.signedCount) : (n : Int).bmod Text.wordCount = n := by
  unfold Text.signedCount at h
  unfold Text.wordCount
  exact Int.bmod_eq_of_le (by omega) (by omega)

theorem toInt_ofNat_of_fits {n : Nat} (h : n < Text.signedCount) : (Int64.ofNat n).toInt = n :=
  Int64.toInt_ofNat'.trans (bmod_of_fits h)

theorem toInt_ofNat_div {n k : Nat} (hk : k < Text.signedCount) :
    (Int64.ofNat n / Int64.ofNat k).toInt = ((n : Int).bmod Text.wordCount).tdiv k := by
  have hlow : -9223372036854775808 ≤ (n : Int).bmod Text.wordCount := Int.le_bmod (m := Text.wordCount) (by decide)
  have hhigh : (n : Int).bmod Text.wordCount < 9223372036854775808 := Int.bmod_lt (m := Text.wordCount) (by decide)
  rw [Int64.toInt_div, toInt_ofNat_of_fits hk]
  have hword : (Int64.ofNat n).toInt = (n : Int).bmod Text.wordCount := Int64.toInt_ofNat'
  rw [hword]
  generalize (n : Int).bmod Text.wordCount = w at hlow hhigh
  have hsize := Int.natAbs_tdiv_le_natAbs w k
  have hsign : w ≤ 0 → w.tdiv k ≤ 0 := fun hw => by
    have hopposite := Int.tdiv_nonneg (Int.neg_nonneg_of_nonpos hw) (Int.natCast_nonneg k)
    rw [Int.neg_tdiv] at hopposite
    omega
  exact Int.bmod_eq_of_le (by omega) (by omega)

/-! ## Units -/

namespace LengthUnit

/-- The length of `whole + part/65536` units, truncated, over the unbounded integers. Scaled points ignore the fraction. -/
def exact (u : LengthUnit) (whole part : Nat) : Nat :=
  if u.name == "sp" then whole
  else (whole * unity + part) * u.numerator.toNatClampNeg / u.denominator.toNatClampNeg

variable {u : LengthUnit} {whole part : Nat}

theorem ratio (hu : u ∈ physical) :
    u.numerator = Int64.ofNat u.numerator.toNatClampNeg ∧ u.denominator = Int64.ofNat u.denominator.toNatClampNeg ∧
      u.numerator.toNatClampNeg ≤ 14856 ∧ 0 < u.denominator.toNatClampNeg ∧ u.denominator.toNatClampNeg ≤ 65536 ∧
      u.denominator.toNatClampNeg ≤ unity * u.numerator.toNatClampNeg := by
  revert u
  decide

theorem le_exact (hu : u ∈ physical) (whole part : Nat) : whole ≤ u.exact whole part := by
  obtain ⟨-, -, -, hpos, -, hratio⟩ := ratio hu
  unfold exact
  split
  · exact Nat.le_refl whole
  · rw [Nat.le_div_iff_mul_le hpos]
    calc whole * u.denominator.toNatClampNeg
        ≤ whole * (unity * u.numerator.toNatClampNeg) := Nat.mul_le_mul_left _ hratio
      _ = whole * unity * u.numerator.toNatClampNeg := (Nat.mul_assoc ..).symm
      _ ≤ (whole * unity + part) * u.numerator.toNatClampNeg := Nat.mul_le_mul_right _ (Nat.le_add_right ..)

/-- The number which the length of `whole + part/65536` units is a quotient of. -/
def dividend (u : LengthUnit) (whole part : Nat) : Nat :=
  if u.name == "sp" then whole else (whole * unity + part) * u.numerator.toNatClampNeg

def divisor (u : LengthUnit) : Nat := if u.name == "sp" then 1 else u.denominator.toNatClampNeg

/-- The length is computed without leaving the signed words of 64 bits. -/
def Fits (u : LengthUnit) (whole part : Nat) : Prop := u.dividend whole part < Text.signedCount

theorem exact_eq (u : LengthUnit) (whole part : Nat) : u.exact whole part = u.dividend whole part / u.divisor := by
  unfold exact dividend divisor
  split
  · exact (Nat.div_one whole).symm
  · rfl

theorem dividend_pt (whole part : Nat) : pt.dividend whole part = whole * unity + part := Nat.mul_one _

theorem divisor_bounds (hu : u ∈ physical) : 0 < u.divisor ∧ u.divisor ≤ 65536 := by
  revert u
  decide

theorem divisor_eq_one (hu : u ∈ physical) (h : u.divisor = 1) : u = .pt ∨ u.numerator = 12 ∨ u.name = "sp" := by
  revert u
  decide

/-- **What words of 64 bits make of a length**: the number wraps around before it is divided. -/
theorem toInt_scale (hu : u ∈ physical) (whole part : Nat) :
    (u.scale (Int64.ofNat whole) (Int64.ofNat part)).toInt = ((u.dividend whole part : Int).bmod Text.wordCount).tdiv u.divisor := by
  obtain ⟨hnumerator, hdenominator, -, -, hbound, -⟩ := ratio hu
  have hsum : Int64.ofNat whole * point + Int64.ofNat part = Int64.ofNat (whole * unity + part) := by
    rw [Int64.ofNat_add, Int64.ofNat_mul]
    rfl
  unfold scale dividend divisor
  split
  · rw [Int.natCast_one, Int.tdiv_one]
    exact Int64.toInt_ofNat'
  · generalize u.numerator.toNatClampNeg = n at hnumerator ⊢
    generalize u.denominator.toNatClampNeg = k at hdenominator hbound ⊢
    rw [hsum, hnumerator, hdenominator, ← Int64.ofNat_mul, toInt_ofNat_div (Nat.lt_of_le_of_lt hbound (by decide))]

theorem Fits.exact_lt (h : u.Fits whole part) : u.exact whole part < Text.signedCount := by
  rw [exact_eq]
  exact Nat.lt_of_le_of_lt (Nat.div_le_self _ _) h

/-- **Lengths which fit are exact.** -/
theorem Fits.scale_eq (h : u.Fits whole part) (hu : u ∈ physical) :
    u.scale (Int64.ofNat whole) (Int64.ofNat part) = Int64.ofNat (u.exact whole part) := by
  rw [← Int64.toInt_inj, toInt_scale hu, toInt_ofNat_of_fits h.exact_lt, exact_eq, bmod_of_fits h,
    Int.tdiv_eq_ediv_of_nonneg (Int.natCast_nonneg _)]
  exact (Int.natCast_ediv _ _).symm

theorem fits_of_le (hu : u ∈ physical) (hwhole : whole ≤ 2147483647) (hpart : part ≤ unity) : u.Fits whole part := by
  obtain ⟨-, -, hsmall, -⟩ := ratio hu
  have hproduct : (whole * unity + part) * u.numerator.toNatClampNeg ≤ 140737488420864 * 14856 := by
    refine Nat.mul_le_mul ?_ hsmall
    unfold unity at hpart ⊢
    omega
  unfold Fits dividend Text.signedCount
  split <;> omega

/-- **Cutting the number of units is harmless**: it changes lengths only which are too large before and after. -/
theorem exact_saturated (hu : u ∈ physical) (whole part : Nat) :
    min (u.exact (min whole 2147483647) part) 1073741823 = min (u.exact whole part) 1073741823 ∧
      (1073741823 < u.exact (min whole 2147483647) part ↔ 1073741823 < u.exact whole part) := by
  rcases Nat.le_total whole 2147483647 with hwhole | hwhole
  · rw [Nat.min_eq_left hwhole]
    exact ⟨rfl, Iff.rfl⟩
  · have hcut := le_exact hu 2147483647 part
    have hfull := le_exact hu whole part
    rw [Nat.min_eq_right hwhole]
    omega

end LengthUnit

/-! ## Characters -/

open Text

theorem isBlank_of_ascii {c : Char} (hlow : 33 ≤ c.toNat) (hhigh : c.toNat < 127) : isBlank c = false := by
  simp only [isBlank, inRanges, List.any_cons, List.any_nil, Bool.or_false, Bool.or_eq_false_iff, Bool.and_eq_false_iff,
    decide_eq_false_iff_not]
  omega

theorem isAsciiDigit_iff {n : Nat} : isAsciiDigit n = true ↔ 48 ≤ n ∧ n ≤ 57 := by
  simp [isAsciiDigit]

theorem isAsciiLetter_iff {n : Nat} : isAsciiLetter n = true ↔ 97 ≤ n ∧ n ≤ 122 ∨ 65 ≤ n ∧ n ≤ 90 := by
  simp [isAsciiLetter]

theorem letter_range {c : Char} (h : isAsciiLetter c.toNat = true) : 65 ≤ c.toNat ∧ c.toNat < 127 := by
  rcases isAsciiLetter_iff.1 h with h | h <;> omega

theorem isAsciiDigit_letter {c : Char} (h : isAsciiLetter c.toNat = true) : isAsciiDigit c.toNat = false := by
  have hrange := letter_range h
  simp only [isAsciiDigit, Bool.and_eq_false_iff, decide_eq_false_iff_not]
  omega

theorem trim_padded {before cs after : List Char} (hcs : cs ≠ []) (hchars : ∀ c ∈ cs, isBlank c = false)
    (hbefore : ∀ c ∈ before, isBlank c = true) (hafter : ∀ c ∈ after, isBlank c = true) :
    trim (String.ofList (before ++ (cs ++ after))) = String.ofList cs := by
  have hstart : ∀ {l : List Char}, l ≠ [] → (∀ c ∈ l, isBlank c = false) → ∀ l', (l ++ l').dropWhile isBlank = l ++ l' := by
    intro l hl hblank l'
    obtain ⟨c, l, rfl⟩ := List.exists_cons_of_ne_nil hl
    exact List.dropWhile_cons_of_neg (by simp [hblank c])
  have hend : cs.reverse.dropWhile isBlank = cs.reverse := by
    simpa using hstart (l := cs.reverse) (by simpa using hcs) (fun c hc => hchars c (by simpa using hc)) []
  rw [trim, String.toList_ofList, List.dropWhile_append_of_pos hbefore, hstart hcs hchars, dropTail, List.reverse_append,
    List.dropWhile_append_of_pos (fun c hc => hafter c (by simpa using hc)), hend, List.reverse_reverse]

theorem splitDigits_append {cs rest : List Char} (hcs : ∀ c ∈ cs, isAsciiDigit c.toNat = true)
    (hrest : ∀ c ∈ rest.head?, isAsciiDigit c.toNat = false) : Dimen.splitDigits (cs ++ rest) = (cs, rest) := by
  rw [Dimen.splitDigits, List.span_eq_takeWhile_dropWhile, List.takeWhile_append_of_pos hcs,
    List.dropWhile_append_of_pos hcs]
  cases rest with
  | nil => simp
  | cons c rest =>
    have hc : isAsciiDigit c.toNat = false := hrest c rfl
    simp [hc]

theorem le_ofDigitChars (cs : List Char) (v : Nat) : v ≤ Nat.ofDigitChars 10 cs v := by
  induction cs generalizing v with
  | nil => exact Nat.le_refl v
  | cons c cs ih =>
    rw [Nat.ofDigitChars_cons]
    have hrest := ih (10 * v + (c.toNat - '0'.toNat))
    omega

theorem readDigits_ok {cs : List Char} (hcs : ∀ c ∈ cs, isAsciiDigit c.toNat = true) (v : Nat)
    (hlt : Nat.ofDigitChars 10 cs v < wordCount) : readDigits v cs = .ok (Nat.ofDigitChars 10 cs v) := by
  induction cs generalizing v with
  | nil => rfl
  | cons c cs ih =>
    obtain ⟨hc, hcs⟩ := List.forall_mem_cons.1 hcs
    have hvalue : v * 10 + digitValue c = 10 * v + (c.toNat - '0'.toNat) := by
      rw [Nat.mul_comm]
      rfl
    rw [Nat.ofDigitChars_cons] at hlt ⊢
    have hle := le_ofDigitChars cs (10 * v + (c.toNat - '0'.toNat))
    have hsmall : ¬ v * 10 + digitValue c ≥ wordCount := by omega
    simp only [readDigits, hc, Bool.not_true, Bool.false_eq_true, if_false, hsmall]
    rw [hvalue]
    exact ih hcs _ hlt

theorem readDigits_eq_ok {cs : List Char} {v n : Nat} (h : readDigits v cs = .ok n) : n = Nat.ofDigitChars 10 cs v := by
  induction cs generalizing v with
  | nil => exact (Except.ok.inj h).symm
  | cons c cs ih =>
    simp only [readDigits] at h
    split at h
    · cases h
    · split at h
      · cases h
      · rw [ih h, Nat.ofDigitChars_cons, Nat.mul_comm]
        rfl

/-- **Digits without a sign are read as an integer** if their value is that of a signed word. -/
theorem readInteger_eq_ok_iff {cs : List Char} (hcs : ∀ c ∈ cs, isAsciiDigit c.toNat = true) (hne : cs ≠ []) {n : Int64} :
    readInteger (String.ofList cs) = .ok n ↔
      Nat.ofDigitChars 10 cs 0 < signedCount ∧ n = Int64.ofNat (Nat.ofDigitChars 10 cs 0) := by
  obtain ⟨c, cs, rfl⟩ := List.exists_cons_of_ne_nil hne
  have hrange := isAsciiDigit_iff.1 (hcs c (by simp))
  have hplus : c ≠ '+' := by
    rintro rfl
    exact absurd hrange.1 (by decide)
  have hminus : c ≠ '-' := by
    rintro rfl
    exact absurd hrange.1 (by decide)
  unfold readInteger
  rw [String.toList_ofList]
  split
  · rename_i heq
    exact absurd (List.cons.inj heq).1 hminus
  split
  · rename_i heq
    exact absurd (List.cons.inj heq).1 hplus
  simp only [readNatural, List.isEmpty_cons, Bool.false_eq_true, if_false]
  constructor
  · intro h
    split at h
    · rename_i k hdigits
      split at h
      · cases h
      · rename_i hsmall
        obtain rfl := readDigits_eq_ok hdigits
        exact ⟨Nat.lt_of_not_le hsmall, (Except.ok.inj h).symm⟩
    · cases h
  · rintro ⟨hlt, rfl⟩
    simp only [readDigits_ok hcs 0 (Nat.lt_trans hlt (by decide))]
    exact if_neg (Nat.not_le.2 hlt)

/-! ## Texts -/

/-- The text of a dimension: an optional sign, digits, an optional fraction and the two letters of a unit. -/
structure DimenText where
  /-- The sign, given if it is a minus sign. -/
  sign : Option Bool
  whole : List Char
  fraction : Option (List Char)
  first : Char
  second : Char
  areDigits : ∀ c ∈ whole, isAsciiDigit c.toNat = true
  areDecimals : ∀ cs ∈ fraction, cs ≠ [] ∧ ∀ c ∈ cs, isAsciiDigit c.toNat = true
  isFirst : isAsciiLetter first.toNat = true
  isSecond : isAsciiLetter second.toNat = true
  /-- There is something in front of the unit. -/
  isNumber : (sign.isNone && whole.isEmpty && fraction.isNone) = false

namespace DimenText

def signChars : Option Bool → List Char
  | none => []
  | some false => ['+']
  | some true => ['-']

def fractionChars : Option (List Char) → List Char
  | none => []
  | some cs => '.' :: cs

def chars (s : DimenText) : List Char :=
  signChars s.sign ++ (s.whole ++ (fractionChars s.fraction ++ [s.first, s.second]))

theorem isBlank_of_mem (s : DimenText) {c : Char} (hc : c ∈ s.chars) : isBlank c = false := by
  have hdigit (h : isAsciiDigit c.toNat = true) : isBlank c = false := by
    have hrange := isAsciiDigit_iff.1 h
    exact isBlank_of_ascii (by omega) (by omega)
  have hletter (h : isAsciiLetter c.toNat = true) : isBlank c = false := by
    have hrange := letter_range h
    exact isBlank_of_ascii (by omega) hrange.2
  simp only [chars, List.mem_append, List.mem_cons, List.not_mem_nil, or_false] at hc
  rcases hc with hc | hc | hc | rfl | rfl
  · match s.sign, hc with
    | some false, hc =>
      obtain rfl : c = '+' := by simpa [signChars] using hc
      rfl
    | some true, hc =>
      obtain rfl : c = '-' := by simpa [signChars] using hc
      rfl
  · exact hdigit (s.areDigits c hc)
  · have hdecimals := s.areDecimals
    match s.fraction, hc, hdecimals with
    | some cs, hc, hdecimals =>
      rcases List.mem_cons.1 hc with rfl | hc
      · rfl
      · exact hdigit ((hdecimals cs rfl).2 c hc)
  · exact hletter s.isFirst
  · exact hletter s.isSecond

theorem splitFraction_append (s : DimenText) :
    Dimen.splitFraction (fractionChars s.fraction ++ [s.first, s.second]) = (s.fraction, [s.first, s.second]) := by
  have hfirst := letter_range s.isFirst
  have hdecimals := s.areDecimals
  match s.fraction, hdecimals with
  | none, _ =>
    have hdot : s.first ≠ '.' := by
      intro h
      rw [h] at hfirst
      exact absurd hfirst.1 (by decide)
    simp only [fractionChars, List.nil_append]
    unfold Dimen.splitFraction
    split
    · rename_i heq
      exact absurd (List.cons.inj heq).1 hdot
    · rfl
  | some cs, hdecimals =>
    obtain ⟨hcs, hdigits⟩ := hdecimals cs rfl
    have hletter : ∀ c ∈ [s.first, s.second].head?, isAsciiDigit c.toNat = false := by
      rintro c ⟨⟩
      exact isAsciiDigit_letter s.isFirst
    rw [fractionChars, List.cons_append, Dimen.splitFraction, splitDigits_append hdigits hletter]
    obtain ⟨c, cs, rfl⟩ := List.exists_cons_of_ne_nil hcs
    rfl

theorem head_fraction (s : DimenText) :
    ∀ c ∈ (fractionChars s.fraction ++ [s.first, s.second]).head?, isAsciiDigit c.toNat = false := by
  cases s.fraction with
  | none =>
    rintro c ⟨⟩
    exact isAsciiDigit_letter s.isFirst
  | some cs =>
    rintro c ⟨⟩
    rfl

/-- There is no other sign after that of the text. -/
theorem head_unsigned (s : DimenText) :
    ∀ c ∈ (s.whole ++ (fractionChars s.fraction ++ [s.first, s.second])).head?, c ≠ '+' ∧ c ≠ '-' := by
  have hrange : ∀ c : Char, 46 ≤ c.toNat → c ≠ '+' ∧ c ≠ '-' := by
    intro c hc
    refine ⟨?_, ?_⟩ <;> rintro rfl <;> exact absurd hc (by decide)
  intro c hc
  refine hrange c ?_
  have hfirst := letter_range s.isFirst
  have hdigits := s.areDigits
  match s.whole, s.fraction, hc, hdigits with
  | d :: _, _, rfl, hdigits =>
    have hd := isAsciiDigit_iff.1 (hdigits d (by simp))
    omega
  | [], none, rfl, _ => omega
  | [], some _, rfl, _ => decide

theorem splitSign_append (s : DimenText) {rest : List Char} (hrest : ∀ c ∈ rest.head?, c ≠ '+' ∧ c ≠ '-') :
    Dimen.splitSign (signChars s.sign ++ rest) = (s.sign, rest) := by
  match s.sign with
  | some false | some true => rfl
  | none =>
    show Dimen.splitSign rest = (none, rest)
    unfold Dimen.splitSign
    split
    · exact absurd rfl (hrest '+' rfl).1
    · exact absurd rfl (hrest '-' rfl).2
    · rfl

theorem parse_of_trim (s : DimenText) {text : String} (h : trim text = String.ofList s.chars) :
    Dimen.parse text = Dimen.ofParts (s.sign.getD false) s.whole s.fraction (String.ofList [s.first, s.second]) := by
  have hzero : (String.ofList s.chars == "0") = false := by
    refine beq_eq_false_iff_ne.2 fun h => ?_
    have hlength : s.chars.length = 1 := by
      rw [String.ofList_inj.1 (h.trans (String.ofList_toList (s := "0")).symm)]
      rfl
    simp only [chars, List.length_append, List.length_cons, List.length_nil] at hlength
    omega
  have hsign : Dimen.splitSign s.chars = (s.sign, s.whole ++ (fractionChars s.fraction ++ [s.first, s.second])) :=
    s.splitSign_append s.head_unsigned
  rw [Dimen.parse, h]
  simp only [hzero, Bool.false_eq_true, if_false, String.toList_ofList, hsign]
  simp only [Dimen.parseUnsigned, splitDigits_append s.areDigits s.head_fraction, s.splitFraction_append, s.isFirst, s.isSecond,
    s.isNumber, Bool.and_self, Bool.not_false, if_true]

/-- **The parts of a text are found**, also with white space around it. -/
theorem parse_padded (s : DimenText) {before after : List Char} (hbefore : ∀ c ∈ before, isBlank c = true)
    (hafter : ∀ c ∈ after, isBlank c = true) :
    Dimen.parse (String.ofList (before ++ (s.chars ++ after))) =
      Dimen.ofParts (s.sign.getD false) s.whole s.fraction (String.ofList [s.first, s.second]) := by
  have hne : s.chars ≠ [] := by simp [chars]
  exact s.parse_of_trim (trim_padded hne (fun c hc => s.isBlank_of_mem hc) hbefore hafter)

def units (s : DimenText) : Nat := Nat.ofDigitChars 10 s.whole 0

/-- The fraction in a text, in units of `1/65536`. -/
def part (s : DimenText) : Nat :=
  match s.fraction with
  | none => 0
  | some cs => roundDecimals (cs.map digitValue)

theorem part_le (s : DimenText) : s.part ≤ unity := by
  have hdecimals := s.areDecimals
  unfold part
  match s.fraction, hdecimals with
  | none, _ => exact Nat.zero_le _
  | some cs, hdecimals =>
    refine roundDecimals_le fun d hd => ?_
    obtain ⟨c, hc, rfl⟩ := List.mem_map.1 hd
    have hrange := isAsciiDigit_iff.1 ((hdecimals cs rfl).2 c hc)
    unfold digitValue
    omega

theorem readUnits_eq_ok_iff (s : DimenText) {n : Int64} :
    (if s.whole.isEmpty then .ok 0 else readInteger (String.ofList s.whole)) = (.ok n : Except NumeralFault Int64) ↔
      s.units < signedCount ∧ n = Int64.ofNat s.units := by
  by_cases hempty : s.whole = []
  · have hzero : s.units = 0 := by simp [units, hempty]
    rw [hzero, hempty]
    exact ⟨fun h => ⟨by decide, (Except.ok.inj h).symm⟩, fun h => congrArg Except.ok h.2.symm⟩
  · simp only [List.isEmpty_iff, hempty, if_false]
    exact readInteger_eq_ok_iff s.areDigits hempty

/-- **The dimension of a text** with a unit and not too many of them, as words of 64 bits have it. -/
theorem ofParts_eq_ok_iff (s : DimenText) (negative : Bool) {d : Dimen} :
    Dimen.ofParts negative s.whole s.fraction (String.ofList [s.first, s.second]) = .ok d ↔
      ∃ u, LengthUnit.find? (String.ofList [s.first, s.second]) = some u ∧ s.units < signedCount ∧
        d = if negative then -u.scale (Int64.ofNat s.units) (Int64.ofNat s.part)
          else u.scale (Int64.ofNat s.units) (Int64.ofNat s.part) := by
  unfold Dimen.ofParts
  cases hunit : LengthUnit.find? (String.ofList [s.first, s.second]) with
  | none => exact ⟨nofun, fun ⟨_, hnone, _⟩ => nomatch hnone⟩
  | some u =>
    cases hwhole : (if s.whole.isEmpty then .ok 0 else readInteger (String.ofList s.whole) : Except NumeralFault Int64) with
    | error fault =>
      refine ⟨nofun, fun ⟨_, _, hlt, _⟩ => ?_⟩
      have hok := s.readUnits_eq_ok_iff.2 ⟨hlt, rfl⟩
      rw [hwhole] at hok
      cases hok
    | ok n =>
      obtain ⟨hlt, rfl⟩ := s.readUnits_eq_ok_iff.1 hwhole
      unfold part
      constructor
      · intro h
        refine ⟨u, rfl, hlt, ?_⟩
        cases hfraction : s.fraction <;> simp only [hfraction] at h <;> exact (Except.ok.inj h).symm
      · rintro ⟨_, ⟨⟩, -, rfl⟩
        cases s.fraction <;> rfl

end DimenText

end Compositor.Measure
