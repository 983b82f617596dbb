import Compositor.Proofs.Measure.Units
import Mathlib.Data.List.TakeWhile

/-!
# Dimensions as texts

A dimension is read from a text and printed as one. Reading fails, or it gives what words of 64 bits make of the parts of the
text: `parse_eq_ok_iff` finds the parts, and `DimenText.toInt_scaled_eq_iff` says when the words give the exact length. Nothing
is lost when a dimension is printed: `printed_dimension_shortest`.

* `DimenText.scaled` is the dimension which is read, `DimenText.exact` the same over the unbounded integers;
* `dimension_texts_parsed` is the statement about all texts;
* `DimenText.printed` are the parts of a printed dimension, which are those that are read again.
-/

namespace Compositor.Measure

open Text

/-! ## The parts of a text -/

section Parts

variable {cs rest digits : List Char} {sign : Option Bool} {fraction : Option (List Char)} {s : String} {d : Dimen}

theorem splitSign_eq (cs : List Char) : DimenText.signChars (Dimen.splitSign cs).1 ++ (Dimen.splitSign cs).2 = cs := by
  unfold Dimen.splitSign
  split <;> rfl

theorem splitDigits_eq (h : Dimen.splitDigits cs = (digits, rest)) :
    cs = digits ++ rest ∧ ∀ c ∈ digits, isAsciiDigit c.toNat = true := by
  rw [Dimen.splitDigits, List.span_eq_takeWhile_dropWhile] at h
  obtain ⟨rfl, rfl⟩ := Prod.mk.inj h
  refine ⟨List.takeWhile_append_dropWhile.symm, fun c hc => ?_⟩
  exact List.mem_takeWhile_imp (p := fun c : Char => isAsciiDigit c.toNat) hc

theorem splitFraction_eq (h : Dimen.splitFraction cs = (fraction, rest)) :
    cs = DimenText.fractionChars fraction ++ rest ∧
      ∀ ds ∈ fraction, ds ≠ [] ∧ ∀ c ∈ ds, isAsciiDigit c.toNat = true := by
  unfold Dimen.splitFraction at h
  split at h
  · split at h
    · obtain ⟨rfl, rfl⟩ := Prod.mk.inj h
      exact ⟨rfl, nofun⟩
    · rename_i hne hsplit
      obtain ⟨rfl, rfl⟩ := Prod.mk.inj h
      obtain ⟨rfl, hdigits⟩ := splitDigits_eq hsplit
      refine ⟨rfl, ?_⟩
      rintro _ ⟨⟩
      exact ⟨hne, hdigits⟩
  · obtain ⟨rfl, rfl⟩ := Prod.mk.inj h
    exact ⟨rfl, nofun⟩

/-- Whatever is read after a sign has the parts of a text with this sign. -/
theorem exists_text_of_parseUnsigned (h : Dimen.parseUnsigned sign cs = .ok d) :
    ∃ t : DimenText, DimenText.signChars sign ++ cs = t.chars ∧
      Dimen.ofParts (t.sign.getD false) t.whole t.fraction (String.ofList [t.first, t.second]) = .ok d := by
  unfold Dimen.parseUnsigned at h
  obtain ⟨whole, rest₁, hwhole⟩ : ∃ whole rest, Dimen.splitDigits cs = (whole, rest) := ⟨_, _, rfl⟩
  obtain ⟨fraction, rest₂, hfraction⟩ : ∃ fraction rest, Dimen.splitFraction rest₁ = (fraction, rest) := ⟨_, _, rfl⟩
  simp only [hwhole, hfraction] at h
  obtain ⟨rfl, hdigits⟩ := splitDigits_eq hwhole
  obtain ⟨rfl, hdecimals⟩ := splitFraction_eq hfraction
  split at h
  · rename_i a b
    split at h
    · rename_i hunit
      simp only [Bool.and_eq_true, Bool.not_eq_true'] at hunit
      let t : DimenText :=
        { sign, whole, fraction, first := a, second := b, areDigits := hdigits, areDecimals := hdecimals
          isFirst := hunit.1.1, isSecond := hunit.1.2, isNumber := hunit.2 }
      exact ⟨t, rfl, h⟩
    · cases h
  · cases h

/-- **The texts which are read**: a bare zero, or a sign, a number and a unit whose parts make up a dimension. -/
theorem parse_eq_ok_iff : Dimen.parse s = .ok d ↔ trim s = "0" ∧ d = 0 ∨
    ∃ t : DimenText, trim s = String.ofList t.chars ∧
      Dimen.ofParts (t.sign.getD false) t.whole t.fraction (String.ofList [t.first, t.second]) = .ok d := by
  constructor
  · intro h
    simp only [Dimen.parse] at h
    by_cases hzero : (trim s == "0") = true
    · rw [if_pos hzero] at h
      exact .inl ⟨beq_iff_eq.1 hzero, (Except.ok.inj h).symm⟩
    · rw [if_neg hzero] at h
      obtain ⟨t, hchars, hparts⟩ := exists_text_of_parseUnsigned h
      rw [splitSign_eq] at hchars
      exact .inr ⟨t, by rw [← hchars, String.ofList_toList], hparts⟩
  · rintro (⟨hzero, rfl⟩ | ⟨t, htext, hparts⟩)
    · simp [Dimen.parse, hzero]
    · rw [t.parse_of_trim htext, hparts]

end Parts

/-! ## Exact lengths -/

/-- A number which has wrapped around is less than before, also after a division. -/
theorem bmod_tdiv_lt {n k : Nat} (hn : signedCount ≤ n) (hpos : 0 < k) (hk : k ≤ 65536) :
    ((n : Int).bmod wordCount).tdiv k < (n / k : Nat) := by
  have hwrapped : (n : Int).bmod wordCount + k ≤ n := by
    unfold signedCount at hn
    unfold wordCount
    rw [Int.bmod_def]
    have hmod := Int.emod_lt_of_pos (n : Int) (b := 18446744073709551616) (by decide)
    split <;> omega
  generalize (n : Int).bmod wordCount = w at hwrapped
  have hquotient : 0 < n / k := Nat.div_pos (by unfold signedCount at hn; omega) hpos
  rcases Int.lt_or_le w 0 with hneg | hnonneg
  · have hopposite := Int.tdiv_nonneg (Int.neg_nonneg_of_nonpos (Int.le_of_lt hneg)) (Int.natCast_nonneg k)
    rw [Int.neg_tdiv] at hopposite
    omega
  · obtain ⟨m, rfl⟩ := Int.eq_ofNat_of_zero_le hnonneg
    have hle : (m + k) / k ≤ n / k := Nat.div_le_div_right (by omega)
    rw [Nat.add_div_right m hpos] at hle
    rw [Int.tdiv_eq_ediv_of_nonneg hnonneg]
    exact_mod_cast Nat.lt_of_succ_le hle

/-- The opposite of a length which does not fit is exact only if it is the least number, and has not been divided. -/
theorem LengthUnit.least_of_neg_eq {u : LengthUnit} {whole part : Nat} (hu : u ∈ physical)
    (hless : (u.scale (Int64.ofNat whole) (Int64.ofNat part)).toInt < u.exact whole part)
    (heq : (-u.scale (Int64.ofNat whole) (Int64.ofNat part)).toInt = -(u.exact whole part : Int)) :
    u.divisor = 1 ∧ u.dividend whole part = signedCount := by
  have hlow : -9223372036854775808 ≤ (u.dividend whole part : Int).bmod wordCount := Int.le_bmod (m := wordCount) (by decide)
  have hhigh : (u.dividend whole part : Int).bmod wordCount < 9223372036854775808 := Int.bmod_lt (m := wordCount) (by decide)
  have hleast := (u.scale (Int64.ofNat whole) (Int64.ofNat part)).le_toInt
  have hgreatest := (u.scale (Int64.ofNat whole) (Int64.ofNat part)).toInt_lt
  have hscale := toInt_scale hu whole part
  rw [Int64.toInt_neg] at heq
  have hmin : (u.scale (Int64.ofNat whole) (Int64.ofNat part)).toInt = -9223372036854775808 := by
    by_contra hne
    rw [Int.bmod_eq_of_le (by omega) (by omega)] at heq
    omega
  have hone : u.divisor = 1 := by
    have hsize : (((u.dividend whole part : Int).bmod wordCount).tdiv u.divisor).natAbs =
        ((u.dividend whole part : Int).bmod wordCount).natAbs / u.divisor := Int.natAbs_tdiv _ _
    rw [← hscale, hmin] at hsize
    obtain ⟨hpos, -⟩ := divisor_bounds hu
    by_contra hne
    have hhalf : ((u.dividend whole part : Int).bmod wordCount).natAbs / u.divisor ≤
        ((u.dividend whole part : Int).bmod wordCount).natAbs / 2 := Nat.div_le_div_left (by omega) (by decide)
    omega
  rw [hmin] at heq
  rw [exact_eq, hone, Nat.div_one] at heq
  refine ⟨hone, ?_⟩
  have hword : (- -9223372036854775808 : Int).bmod (2 ^ 64) = -9223372036854775808 := rfl
  rw [hword] at heq
  unfold signedCount
  omega

namespace DimenText

/-- The dimension of a text in a unit, as words of 64 bits give it. -/
def scaled (t : DimenText) (u : LengthUnit) : Dimen :=
  if t.sign.getD false then -u.scale (Int64.ofNat t.units) (Int64.ofNat t.part)
  else u.scale (Int64.ofNat t.units) (Int64.ofNat t.part)

/-- The dimension of a text in a unit, truncated, over the unbounded integers. -/
def exact (t : DimenText) (u : LengthUnit) : Int :=
  if t.sign.getD false then -(u.exact t.units t.part : Int) else u.exact t.units t.part

/-- The text is that of the least number of a word, in points. -/
def IsLeast (t : DimenText) (u : LengthUnit) : Prop :=
  t.sign = some true ∧ u = .pt ∧ t.units * unity + t.part = signedCount

variable (t : DimenText) {u : LengthUnit}

theorem toInt_scaled_of_fits (h : u.Fits t.units t.part) (hu : u ∈ LengthUnit.physical) : (t.scaled u).toInt = t.exact u := by
  have hlt := h.exact_lt
  have hvalue := toInt_ofNat_of_fits hlt
  unfold signedCount at hlt
  unfold scaled exact
  rw [h.scale_eq hu]
  split
  · rw [Int64.toInt_neg, hvalue]
    exact Int.bmod_eq_of_le (by omega) (by omega)
  · exact hvalue

/-- A number which does not fit becomes another length. Only the opposite of the least number, in points, is that number
again. -/
theorem toInt_scaled_of_not_fits (h : ¬ u.Fits t.units t.part) (hu : u ∈ LengthUnit.physical) (hunits : t.units < signedCount) :
    (t.scaled u).toInt = t.exact u ↔ t.IsLeast u := by
  obtain ⟨hpos, hbound⟩ := LengthUnit.divisor_bounds hu
  have hlarge := Nat.le_of_not_lt h
  have hless := bmod_tdiv_lt hlarge hpos hbound
  have hscale := LengthUnit.toInt_scale hu t.units t.part
  rw [← hscale, ← LengthUnit.exact_eq] at hless
  by_cases hsign : t.sign = some true
  · simp only [scaled, exact, hsign, Option.getD_some, if_true]
    constructor
    · intro heq
      obtain ⟨hone, hdividend⟩ := LengthUnit.least_of_neg_eq hu hless heq
      rcases LengthUnit.divisor_eq_one hu hone with rfl | hpica | hscaled
      · exact ⟨hsign, rfl, (LengthUnit.dividend_pt _ _).symm.trans hdividend⟩
      · have htwelve : u.numerator.toNatClampNeg = 12 := by rw [hpica]; rfl
        unfold LengthUnit.dividend at hdividend
        rw [htwelve] at hdividend
        unfold signedCount at hdividend hunits
        split at hdividend <;> omega
      · have hplain : u.dividend t.units t.part = t.units := by simp [LengthUnit.dividend, hscaled]
        omega
    · rintro ⟨-, rfl, hleast⟩
      rw [Int64.toInt_neg, hscale, LengthUnit.exact_eq, LengthUnit.dividend_pt, hleast]
      rfl
  · have hplus : t.sign.getD false = false := by
      rcases hcases : t.sign with _ | _ | _
      · rfl
      · rfl
      · exact absurd hcases hsign
    simp only [scaled, exact, hplus, Bool.false_eq_true, if_false]
    exact iff_of_false (by omega) fun hleast => hsign hleast.1

/-- **When words of 64 bits give the exact length.** -/
theorem toInt_scaled_eq_iff (hu : u ∈ LengthUnit.physical) (hunits : t.units < signedCount) :
    (t.scaled u).toInt = t.exact u ↔ u.Fits t.units t.part ∨ t.IsLeast u := by
  by_cases h : u.Fits t.units t.part
  · exact iff_of_true (t.toInt_scaled_of_fits h hu) (.inl h)
  · rw [t.toInt_scaled_of_not_fits h hu hunits]
    exact (or_iff_right h).symm

end DimenText

/-- **Dimensions in texts.** What is read from a text is zero for a bare `0`, and otherwise the dimension of a text with a sign, a
number and a physical unit, where the number of units is that of a signed word. All such texts are read. The dimension is the
exact length, truncated, if the number behind it fits into a signed word, and for the least number of a word, in points.
Otherwise it is another one: the number has wrapped around before it was divided. -/
theorem dimension_texts_parsed (s : String) (d : Dimen) :
    (Dimen.parse s = .ok d ↔ trim s = "0" ∧ d = 0 ∨
      ∃ (t : DimenText) (u : LengthUnit), trim s = String.ofList t.chars ∧
        LengthUnit.find? (String.ofList [t.first, t.second]) = some u ∧ t.units < signedCount ∧ d = t.scaled u) ∧
    ∀ (t : DimenText) (u : LengthUnit), u ∈ LengthUnit.physical → t.units < signedCount →
      ((t.scaled u).toInt = t.exact u ↔ u.Fits t.units t.part ∨ t.IsLeast u) ∧
        (u.scale (Int64.ofNat t.units) (Int64.ofNat t.part)).toInt =
          ((u.dividend t.units t.part : Int).bmod wordCount).tdiv u.divisor := by
  refine ⟨?_, fun t u hu hunits => ⟨t.toInt_scaled_eq_iff hu hunits, LengthUnit.toInt_scale hu _ _⟩⟩
  rw [parse_eq_ok_iff]
  refine or_congr Iff.rfl ⟨?_, ?_⟩
  · rintro ⟨t, htext, hparts⟩
    obtain ⟨u, hunit, hunits, hd⟩ := (t.ofParts_eq_ok_iff _).1 hparts
    exact ⟨t, u, htext, hunit, hunits, hd⟩
  · rintro ⟨t, u, htext, hunit, hunits, hd⟩
    exact ⟨t, htext, (t.ofParts_eq_ok_iff _).2 ⟨u, hunit, hunits, hd⟩⟩

/-- More picas than fit into a word. -/
def DimenText.sample : DimenText where
  sign := none
  whole := "11728124029611".toList
  fraction := none
  first := 'p'
  second := 'c'
  areDigits := List.all_eq_true.1 rfl
  areDecimals := nofun
  isFirst := rfl
  isSecond := rfl
  isNumber := rfl

theorem dimension_texts_parsed_picas :
    let u : LengthUnit := ⟨"pc", 12, 1⟩
    u ∈ LengthUnit.physical ∧ DimenText.sample.units < signedCount ∧
      Dimen.parse " 11728124029611pc" = .ok (DimenText.sample.scaled u) ∧
        (DimenText.sample.scaled u).toInt ≠ DimenText.sample.exact u ∧ DimenText.sample.scaled u = -9223372036854513664 := by
  intro u
  obtain ⟨hparse, hexact⟩ := dimension_texts_parsed " 11728124029611pc" (DimenText.sample.scaled u)
  have hu : u ∈ LengthUnit.physical := .tail _ (.head _)
  have hunits : DimenText.sample.units < signedCount := by decide
  have htrim : trim " 11728124029611pc" = String.ofList DimenText.sample.chars := by decide +kernel
  have hunit : LengthUnit.find? (String.ofList ['p', 'c']) = some u := by decide +kernel
  have hlarge : ¬ u.Fits DimenText.sample.units DimenText.sample.part := by
    unfold LengthUnit.Fits
    decide
  have hother : ¬ DimenText.sample.IsLeast u := fun h => nomatch h.1
  refine ⟨hu, hunits, hparse.2 (.inr ⟨_, u, htrim, hunit, hunits, rfl⟩), fun h => ?_, by decide⟩
  exact ((hexact _ u hu hunits).1.1 h).elim hlarge hother

/-- **A dimension is read which is not that of its text**, and there is no error: the number has wrapped around. -/
theorem dimension_text_wraps : Dimen.parse "9223372036854775807pt" = .ok (-65536) ∧
    (-65536 : Dimen).toInt ≠ LengthUnit.pt.exact 9223372036854775807 0 := by
  decide +kernel

/-! ## The bytes of digits -/

theorem toList_loop_eq (bs : ByteArray) (i : Nat) (r : List UInt8) :
    ByteArray.toList.loop bs i r = r.reverse ++ bs.data.toList.drop i := by
  fun_induction ByteArray.toList.loop bs i r with
  | case1 i r hlt ih =>
    have hi : i < bs.data.toList.length := hlt
    rw [ih, List.drop_eq_getElem_cons hi, List.reverse_cons, List.append_assoc, List.singleton_append]
    simp [ByteArray.get!, hlt]
  | case2 i r hge => rw [List.drop_eq_nil_of_le (Nat.le_of_not_lt hge), List.append_nil]

theorem utf8EncodeChar_digit {c : Char} (h : isAsciiDigit c.toNat = true) : String.utf8EncodeChar c = [UInt8.ofNat c.toNat] := by
  have hrange := isAsciiDigit_iff.1 h
  exact if_pos (show c.toNat ≤ 127 by omega)

theorem toList_toUTF8 {cs : List Char} (h : ∀ c ∈ cs, isAsciiDigit c.toNat = true) :
    (String.ofList cs).toUTF8.toList = cs.map fun c => UInt8.ofNat c.toNat := by
  have hbytes : cs.flatMap String.utf8EncodeChar = cs.map fun c => UInt8.ofNat c.toNat := by
    rw [← List.flatMap_pure_eq_map]
    exact List.flatMap_congr fun c hc => utf8EncodeChar_digit (h c hc)
  rw [ByteArray.toList, toList_loop_eq]
  show ([] ++ (cs.flatMap String.utf8EncodeChar).toByteArray.data.toList : List UInt8) = _
  rw [List.nil_append, List.toList_data_toByteArray, hbytes]

/-- **The bytes of a text of digits are its digits.** -/
theorem roundNumeral_ofList {cs : List Char} (h : ∀ c ∈ cs, isAsciiDigit c.toNat = true) :
    roundNumeral (String.ofList cs) = roundDecimals (cs.map digitValue) := by
  rw [roundNumeral, toList_toUTF8 h, List.map_map]
  refine congrArg roundDecimals (List.map_congr_left fun c hc => ?_)
  have hrange := isAsciiDigit_iff.1 (h c hc)
  have hbyte : (UInt8.ofNat c.toNat).toNat = c.toNat := UInt8.toNat_ofNat_of_lt (show c.toNat < 256 by omega)
  show (UInt8.ofNat c.toNat - 0x30).toNat = c.toNat - 0x30
  rw [UInt8.toNat_sub_of_le _ _ (UInt8.le_iff_toNat_le.2 (by rw [hbyte]; exact hrange.1)), hbyte]
  rfl

/-! ## Printed dimensions -/

section Printed

variable {s : Dimen} {cs : List Char}

theorem isAsciiDigit_of_isDigit {c : Char} (h : c.isDigit = true) : isAsciiDigit c.toNat = true := by
  rw [isAsciiDigit_iff]
  simpa [Char.isDigit, UInt32.le_iff_toNat_le] using h

def DimenText.printed (s : Dimen) : DimenText where
  sign := if s < 0 then some true else none
  whole := Nat.toDigits 10 (s.toInt.natAbs / unity)
  fraction := some ((digitsOfFraction (s.toInt.natAbs % unity)).map Nat.digitChar)
  first := 'p'
  second := 't'
  areDigits := fun c hc => isAsciiDigit_of_isDigit (Nat.isDigit_of_mem_toDigits (by decide) (by decide) hc)
  areDecimals := by
    rintro _ ⟨⟩
    exact ⟨by simpa using digitsOfFraction_ne_nil _, fun c hc => isAsciiDigit_of_isDigit (isDigit_of_mem_fraction hc)⟩
  isFirst := rfl
  isSecond := rfl
  isNumber := by simp

namespace DimenText

theorem units_printed (s : Dimen) : (printed s).units = s.toInt.natAbs / unity := Nat.ofDigitChars_ten_toDigits

theorem map_digitValue {ds : List Nat} (h : ∀ d ∈ ds, d < 10) : (ds.map Nat.digitChar).map digitValue = ds := by
  rw [List.map_map]
  exact (List.map_congr_left fun d hd => Nat.toNat_digitChar_sub_48_of_lt_ten (h d hd)).trans (List.map_id ds)

theorem part_printed (s : Dimen) : (printed s).part = s.toInt.natAbs % unity := by
  have hmod : s.toInt.natAbs % unity < unity := Nat.mod_lt _ (by decide)
  show roundDecimals (((digitsOfFraction (s.toInt.natAbs % unity)).map Nat.digitChar).map digitValue) = _
  rw [map_digitValue (digitsOfFraction_lt hmod), roundDecimals_digitsOfFraction hmod]

theorem chars_printed (hs : s ≠ Int64.minValue) : (Dimen.format s).toList = (printed s).chars := by
  have hsign : signs s = signChars (printed s).sign := by
    rw [signs, if_neg hs]
    show _ = signChars (if s < 0 then some true else none)
    split <;> rfl
  rw [Dimen.format, String.toList_append, toList_formatScaled_eq, hsign]
  simp [chars, numeral, printed, fractionChars]

theorem scaled_printed (hs : s ≠ Int64.minValue) : (printed s).scaled .pt = s := by
  have hlt := natAbs_lt_of_ne hs
  have hphysical : LengthUnit.pt ∈ LengthUnit.physical := .head _
  have hdividend : LengthUnit.pt.dividend (printed s).units (printed s).part = s.toInt.natAbs := by
    rw [LengthUnit.dividend_pt, units_printed, part_printed, Nat.mul_comm]
    exact Nat.div_add_mod _ _
  have hfits : LengthUnit.pt.Fits (printed s).units (printed s).part := by rwa [LengthUnit.Fits, hdividend]
  have hexact : LengthUnit.pt.exact (printed s).units (printed s).part = s.toInt.natAbs := by
    rw [LengthUnit.exact_eq, hdividend]
    exact Nat.div_one _
  rw [← Int64.toInt_inj, toInt_scaled_of_fits _ hfits hphysical, exact, hexact]
  show (if (if s < 0 then some true else none : Option Bool).getD false = true then _ else _) = _
  have hsign : s < 0 ↔ s.toInt < 0 := Int64.lt_iff_toInt_lt
  by_cases hneg : s < 0
  · have := hsign.1 hneg
    simp only [hneg, if_true, Option.getD_some]
    omega
  · have := mt hsign.2 hneg
    simp only [hneg, if_false, Option.getD_none, Bool.false_eq_true]
    omega

end DimenText

/-- **Printing is exact and as short as possible.** Every dimension but the least number of a word is printed so that reading the
text gives it back. The digits after the decimal point give the fraction of a point, and no digits which are fewer, but at
least one, do so. -/
theorem printed_dimension_shortest (s : Dimen) (hs : s ≠ Int64.minValue) :
    Dimen.parse (Dimen.format s) = .ok s ∧
      ∃ whole fraction : List Char,
        (Dimen.format s).toList = (if s < 0 then ['-'] else []) ++ (whole ++ '.' :: (fraction ++ ['p', 't'])) ∧
          (∀ c ∈ whole ++ fraction, isAsciiDigit c.toNat = true) ∧
          roundNumeral (String.ofList fraction) = s.toInt.natAbs % unity ∧
          ∀ cs : List Char, cs ≠ [] → (∀ c ∈ cs, isAsciiDigit c.toNat = true) → cs.length < fraction.length →
            roundNumeral (String.ofList cs) ≠ s.toInt.natAbs % unity := by
  have hchars := DimenText.chars_printed hs
  have hmod : s.toInt.natAbs % unity < unity := Nat.mod_lt _ (by decide)
  have hdecimals := (DimenText.printed s).areDecimals _ rfl
  refine ⟨?_, Nat.toDigits 10 (s.toInt.natAbs / unity), (digitsOfFraction (s.toInt.natAbs % unity)).map Nat.digitChar,
    ?_, ?_, ?_, fun cs hne hcs hshort => ?_⟩
  · have hfind : LengthUnit.find? (String.ofList ['p', 't']) = some .pt := by decide +kernel
    have hunits : (DimenText.printed s).units < signedCount := by
      rw [DimenText.units_printed]
      exact Nat.lt_of_le_of_lt (Nat.div_le_self _ _) (natAbs_lt_of_ne hs)
    have hparts := ((DimenText.printed s).ofParts_eq_ok_iff _).2 ⟨.pt, hfind, hunits, (DimenText.scaled_printed hs).symm⟩
    have hnone : ∀ c ∈ ([] : List Char), Text.isBlank c = true := nofun
    have hparse := (DimenText.printed s).parse_padded hnone hnone
    rw [List.nil_append, List.append_nil, ← hchars, String.ofList_toList] at hparse
    exact hparse.trans hparts
  · rw [hchars]
    show DimenText.signChars (if s < 0 then some true else none) ++ _ = _
    split <;> rfl
  · exact List.forall_mem_append.2 ⟨(DimenText.printed s).areDigits, hdecimals.2⟩
  · rw [roundNumeral_ofList hdecimals.2]
    exact DimenText.part_printed s
  · rw [roundNumeral_ofList hcs]
    rw [List.length_map] at hshort
    exact roundDecimals_ne_of_shorter hmod (by simpa using hne) (by simpa using hshort)

/-- The greatest number of a word is printed with five digits after the point, and read again. -/
theorem printed_dimension_shortest_greatest : Int64.maxValue ≠ Int64.minValue ∧
    Dimen.format Int64.maxValue = "140737488355327.99998pt" ∧
      Dimen.parse "140737488355327.99998pt" = .ok Int64.maxValue := by
  have hne : Int64.maxValue ≠ Int64.minValue := by decide
  have hformat : Dimen.format Int64.maxValue = "140737488355327.99998pt" := by decide +kernel
  refine ⟨hne, hformat, ?_⟩
  rw [← hformat]
  exact (printed_dimension_shortest _ hne).1

end Printed

end Compositor.Measure
