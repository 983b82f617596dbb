import Compositor.Proofs.Engine.Dimensions
import Compositor.Proofs.Engine.Legality

/-!
# True units in constants

A dimension with `true` in front of its unit is not magnified: it is divided by the magnification, which is locked from then
on. The scanner multiplies by 1000 first, in words of 64 bits. This is too much for some numbers of inches, and then the
length wraps around to a negative one, which no bound holds back.

* `TrueConstant` is such a constant, `TrueConstant.magnitudeAt` its length over the unbounded integers;
* `TrueConstant.FitsAt` says that the product fits in a word, which it does for all units but inches;
* `true_constants_magnified` says what the scanner makes of the constants which fit, and of all others.
-/

namespace Compositor

open Compositor.Measure

variable {e : Engine} {letters trueLetters blanks gap ts : List Token} {input mid rest : Input} {v m : Nat}

/-! ## Products in words of 64 bits -/

namespace Measure

/-- The length of an integer in range times 1000 does not wrap around twice, and not at all unless the unit is an inch. -/
theorem LengthUnit.exact_bounds {u : LengthUnit} (hu : u ∈ physical) {whole part : Nat} (hwhole : whole ≤ 2147483647)
    (hpart : part ≤ unity) : u.exact whole part * 1000 < 11000000000000000000 ∧
      (u.name ≠ "in" → u.exact whole part * 1000 < Text.signedCount) := by
  have hgreatest : ∀ u ∈ physical, u.exact 2147483647 unity * 1000 < 11000000000000000000 ∧
      (u.name ≠ "in" → u.exact 2147483647 unity * 1000 < Text.signedCount) := by decide
  have hle : u.exact whole part ≤ u.exact 2147483647 unity := by
    unfold exact
    split
    · exact hwhole
    · have hsum := Nat.add_le_add (Nat.mul_le_mul_right unity hwhole) hpart
      exact Nat.div_le_div_right (Nat.mul_le_mul_right _ hsum)
  have hproduct := Nat.mul_le_mul_right 1000 hle
  obtain ⟨honce, hsigned⟩ := hgreatest u hu
  exact ⟨Nat.lt_of_le_of_lt hproduct honce, fun hne => Nat.lt_of_le_of_lt hproduct (hsigned hne)⟩

namespace Dimen

/-- What words of 64 bits make of a length in true units: the product wraps around before it is divided. -/
theorem toInt_trueLength (hword : m < Text.signedCount) (hne : m ≠ 1000) :
    (trueLength (Int64.ofNat v) (Int64.ofNat m)).toInt = (((v * 1000 : Nat) : Int).bmod Text.wordCount).tdiv m := by
  have hmul : Int64.ofNat v * 1000 = Int64.ofNat (v * 1000) := (Int64.ofNat_mul v 1000).symm
  have hmagnified : Int64.ofNat m ≠ 1000 := by
    intro heq
    have hvalue := congrArg Int64.toInt heq
    rw [toInt_ofNat_of_fits hword] at hvalue
    exact hne (Int.natCast_inj.1 hvalue)
  unfold trueLength
  rw [if_neg hmagnified, hmul, toInt_ofNat_div hword]

/-- **The length of true units is exact** as long as the product fits in a word. -/
theorem trueLength_exact (hword : m < Text.signedCount) (h : m = 1000 ∨ v * 1000 < Text.signedCount) :
    trueLength (Int64.ofNat v) (Int64.ofNat m) = Int64.ofNat (v * 1000 / m) := by
  by_cases hsame : m = 1000
  · subst hsame
    rw [Nat.mul_div_cancel v (by decide)]
    exact if_pos rfl
  · have hproduct : v * 1000 < Text.signedCount := h.resolve_left hsame
    have hquotient : v * 1000 / m < Text.signedCount := Nat.lt_of_le_of_lt (Nat.div_le_self _ _) hproduct
    rw [← Int64.toInt_inj, toInt_trueLength hword hsame, bmod_of_fits hproduct, toInt_ofNat_of_fits hquotient,
      Int.tdiv_eq_ediv_of_nonneg (Int.natCast_nonneg _), Int.natCast_ediv]

/-- A product which is too large for a signed word wraps around once, and so it becomes negative. -/
theorem wrapped_eq {n : Nat} (hn : n < Text.wordCount) (m : Nat) :
    (n - Text.wordCount : Int).tdiv m = -((Text.wordCount - n) / m : Nat) := by
  have hopposite : (n - Text.wordCount : Int) = -((Text.wordCount - n : Nat) : Int) := by omega
  rw [hopposite, Int.neg_tdiv, Int.ofNat_tdiv]

theorem toInt_trueLength_wrapped (hword : m < Text.signedCount) (hne : m ≠ 1000) (hover : Text.signedCount ≤ v * 1000)
    (hv : v * 1000 < Text.wordCount) :
    (trueLength (Int64.ofNat v) (Int64.ofNat m)).toInt = ((v * 1000 : Nat) - Text.wordCount : Int).tdiv m := by
  have hbmod : ((v * 1000 : Nat) : Int).bmod Text.wordCount = (v * 1000 : Nat) - Text.wordCount := by
    unfold Text.signedCount Text.wordCount at *
    rw [Int.bmod_def]
    omega
  rw [toInt_trueLength hword hne, hbmod]

/-- What comes out then is far below all dimensions, and the length itself far above them. -/
theorem wrapped_out_of_range {n : Nat} (hm : 0 < m) (hle : m ≤ 32768) (hover : Text.signedCount ≤ n)
    (hn : n < 11000000000000000000) :
    (n - Text.wordCount : Int).tdiv m < -1073741823 ∧ 1073741823 < n / m := by
  rw [wrapped_eq (Nat.lt_trans hn (by decide))]
  unfold Text.signedCount at hover
  unfold Text.wordCount
  have hlow : 1073741824 ≤ (18446744073709551616 - n) / m := (Nat.le_div_iff_mul_le hm).2 (by omega)
  have hhigh : 1073741824 ≤ n / m := (Nat.le_div_iff_mul_le hm).2 (by omega)
  omega

theorem cut_of_le {d : Dimen} (h : d.toInt ≤ 1073741823) : d.cut = d ∧ d.excess = [] := by
  have hnot : ¬ d > maxDimen := by
    rw [gt_iff_lt, Int64.lt_iff_toInt_lt, Int.not_lt]
    exact h
  exact ⟨if_neg hnot, if_neg hnot⟩

end Dimen

end Measure

/-! ## The lock -/

def Engine.locked (e : Engine) : Engine := { e with context := { e.context with magnificationLocked := true } }

theorem Context.Legal.lock {c : Context} (h : c.Legal) :
    c.setMagnification c.magnification true = .ok { c with magnificationLocked := true } := by
  obtain ⟨c', hset⟩ := h.setMagnification true
  rw [hset, setMagnification_eq hset, Bool.or_true]

theorem Context.Legal.pos {c : Context} (h : c.Legal) (hm : c.magnification.toInt = m) :
    0 < m ∧ m < Text.signedCount ∧ c.magnification = Int64.ofNat m := by
  have hleast : 1 ≤ c.magnification.toInt := Int64.le_iff_toInt_le.1 h.least
  have hgreatest : c.magnification.toInt < 9223372036854775808 := c.magnification.toInt_lt
  have hword : m < Text.signedCount := by
    unfold Text.signedCount
    omega
  refine ⟨by omega, hword, ?_⟩
  rw [← Int64.toInt_inj, hm, toInt_ofNat_of_fits hword]

/-- **A true unit is scanned**, and locks the magnification. -/
theorem absoluteUnit_proceeds {u : LengthUnit} (whole part : Int64) (hlegal : e.context.Legal) (hu : u ∈ LengthUnit.physical)
    (h : Spelled letters u.name.toList) (hcats : ∀ l ∈ letters, l.cat ≠ .space) (htrue : Spelled trueLetters "true".toList)
    (hblanks : ∀ b ∈ blanks, b = .blank) (hrest : e.locked.context.PastSpace mid rest) :
    Proceeds e e.locked (absoluteUnit · whole part) (trueLetters ++ (blanks ++ letters)) mid
      ((u.scale whole part).trueLength e.context.magnification) [] [] rest := by
  refine (keyword_parses_spelled "true" htrue).lift.bind_proceeds ?_
  simp only [if_true]
  refine .context_bind ?_
  simp only [hlegal.lock]
  intro input hinput
  obtain ⟨e', input', hruns, hreported, hleft⟩ :=
    physicalLength_recovers (e := e.locked) whole part e.context.magnification hu h hcats hblanks hrest input hinput
  have hlocked : Runs (fun _ => (modifyContext fun _ => e.locked.context : Action Unit)) (e.withInput input) ()
      (e.locked.withInput input) := .of_eq fun _ => rfl
  exact ⟨e', input', hlocked.bind hruns, hreported, hleft⟩

/-! ## Constants -/

/-- A dimension with a true unit. -/
structure TrueConstant extends DimenConstant where
  /-- The word in front of the unit, in any case of letters. -/
  trueLetters : List Token
  /-- The spaces after this word. -/
  trueGap : List Token
  areTrue : Spelled trueLetters "true".toList
  areTrueVisible : ∀ l ∈ trueLetters, l.cat ≠ .space
  areTrueGap : ∀ b ∈ trueGap, b = .blank

namespace TrueConstant

def tokens (k : TrueConstant) : List Token :=
  k.signs.flatMap SignToken.tokens ++
    (k.blanks ++ k.factor.first :: (k.factor.others ++ (k.gap ++ (k.trueLetters ++ (k.trueGap ++ k.letters)))))

/-- The length without its sign for a magnification, truncated, over the unbounded integers. -/
def magnitudeAt (k : TrueConstant) (m : Nat) : Nat := k.magnitude * 1000 / m

/-- The dimension which a constant stands for. The largest one takes the place of those which are too large. -/
def valueAt (k : TrueConstant) (m : Nat) : Int :=
  if k.isNegative then -(min (k.magnitudeAt m) 1073741823 : Nat) else (min (k.magnitudeAt m) 1073741823 : Nat)

def problemsAt (k : TrueConstant) (m : Nat) : List Kind := Kind.dimensionTooLarge.above 1073741823 (k.magnitudeAt m)

/-- The product with 1000 fits in a word, or it is not needed since nothing is magnified. -/
def FitsAt (k : TrueConstant) (m : Nat) : Prop := m = 1000 ∨ k.magnitude * 1000 < Text.signedCount

instance (k : TrueConstant) (m : Nat) : Decidable (k.FitsAt m) := inferInstanceAs (Decidable (_ ∨ _))

/-- The length without its sign after the product has wrapped around. -/
def wrappedAt (k : TrueConstant) (m : Nat) : Int := ((k.magnitude * 1000 : Nat) - Text.wordCount : Int).tdiv m

theorem magnitudeAt_lt (k : TrueConstant) (h : k.FitsAt m) (honce : k.magnitude * 1000 < 11000000000000000000) :
    k.magnitudeAt m < Text.signedCount := by
  unfold magnitudeAt
  rcases h with rfl | h
  · unfold Text.signedCount
    omega
  · exact Nat.lt_of_le_of_lt (Nat.div_le_self _ _) h

/-- **A constant which does not fit** is in inches, and its product wraps around once. -/
theorem wraps (k : TrueConstant) (hpos : 0 < m) (hword : m < Text.signedCount) (hwhole : k.factor.whole ≤ 2147483647)
    (hover : ¬ k.FitsAt m) : k.unit.name = "in" ∧
      (Dimen.trueLength (Int64.ofNat k.magnitude) (Int64.ofNat m)).toInt = k.wrappedAt m ∧ k.wrappedAt m ≤ 0 ∧
        (m ≤ 32768 → k.wrappedAt m < -1073741823 ∧ 1073741823 < k.magnitudeAt m) := by
  obtain ⟨honce, hinch⟩ := LengthUnit.exact_bounds k.isPhysical hwhole k.factor.part_le
  obtain ⟨hne, hproduct⟩ := not_or.1 hover
  have hlarge : Text.signedCount ≤ k.magnitude * 1000 := Nat.not_lt.1 hproduct
  have honce' : k.magnitude * 1000 < Text.wordCount := Nat.lt_trans honce (by decide)
  have hnegative : k.wrappedAt m ≤ 0 := by
    rw [wrappedAt, Dimen.wrapped_eq honce' m]
    exact Int.neg_nonpos_of_nonneg (Int.natCast_nonneg _)
  exact ⟨Classical.not_not.1 fun hunit => hproduct (hinch hunit), Dimen.toInt_trueLength_wrapped hword hne hlarge honce',
    hnegative, fun hle => Dimen.wrapped_out_of_range hpos hle hlarge honce⟩

end TrueConstant

/-- **A constant is scanned** to the length which the words of 64 bits give, and one space after it. -/
theorem TrueConstant.dimension_proceeds (k : TrueConstant) (hlegal : e.context.Legal) (hwhole : k.factor.whole ≤ 2147483647)
    {d : Dimen} (hd : d = Dimen.trueLength (Int64.ofNat k.magnitude) e.context.magnification)
    (he : e.locked.Bears d.excess.length) (hrest : e.locked.context.PastSpace mid rest) :
    Proceeds e e.locked dimension k.tokens mid (signed k.isNegative d.cut) d.excess [] rest := by
  subst hd
  have hlower : ∀ c ∈ "true".toList, c.isLower = true := List.all_eq_true.1 rfl
  obtain ⟨l, ls, hletters, hends, hspares, hpoint⟩ :=
    exists_letter_of_spelled k.factor k.gap e.context (by decide) hlower k.areTrue k.areTrueVisible
  have habsolute := absoluteUnit_proceeds (e := e) (Int64.ofNat k.factor.whole) (Int64.ofNat k.factor.part) hlegal
    k.isPhysical k.areLetters k.areVisible k.areTrue k.areTrueGap hrest
  rw [(LengthUnit.fits_of_le k.isPhysical hwhole k.factor.part_le).scale_eq k.isPhysical] at habsolute
  have hunit := finiteUnit_proceeds k.areTrue (by decide) hlower (by decide) (by decide) k.areTrueVisible
    (fun b hb => k.areGap b (List.mem_of_mem_tail hb)) habsolute
  refine Compositor.dimension_proceeds k.signs k.areBlanks k.factor rfl ?_
  rw [hletters] at hunit ⊢
  exact lengthFrom_proceeds k.factor k.isNegative k.areGap hends hspares hpoint hwhole hunit he

/-! ## The main statement -/

/-- **True units.** An engine with a legal magnification, which bears the problems of a constant in true units, scans it to
its value, reports these problems, leaves what follows without the space at its start and has its magnification locked. This
holds as long as the product of the length and 1000 fits in a word. Otherwise the unit is an inch, and the scanner gives the
length which comes out when the product wraps around, without a report. Up to the usual bound for the magnification this is
below all dimensions, although the length is too large. -/
theorem true_constants_magnified (k : TrueConstant) (e : Engine) (m : Nat) (input mid rest : Input) (hlegal : e.context.Legal)
    (hm : e.context.magnification.toInt = m) (hwhole : k.factor.whole ≤ 2147483647)
    (hinput : input.Delivers e.context.lexicon k.tokens mid) (hrest : e.locked.context.PastSpace mid rest) :
    (k.FitsAt m → e.locked.Bears (k.problemsAt m).length →
      ∃ e', Runs dimension (e.withInput input) (Int64.ofInt (k.valueAt m)) (e'.withInput rest) ∧
        Engine.Reported (k.problemsAt m) e.locked e') ∧
      (¬ k.FitsAt m → k.unit.name = "in" ∧
        Runs dimension (e.withInput input) (signed k.isNegative (Int64.ofInt (k.wrappedAt m))) (e.locked.withInput rest) ∧
        (m ≤ 32768 → k.wrappedAt m < -1073741823 ∧ 1073741823 < k.magnitudeAt m)) := by
  obtain ⟨hpos, hword, hmagnification⟩ := hlegal.pos hm
  refine ⟨fun hfits he => ?_, fun hover => ?_⟩
  · obtain ⟨honce, -⟩ := LengthUnit.exact_bounds k.isPhysical hwhole k.factor.part_le
    have hsmall : k.magnitudeAt m < Text.signedCount := k.magnitudeAt_lt hfits honce
    have hlength : Int64.ofNat (k.magnitudeAt m) = Dimen.trueLength (Int64.ofNat k.magnitude) e.context.magnification := by
      rw [hmagnification, Dimen.trueLength_exact hword hfits]
      rfl
    rw [TrueConstant.problemsAt, ← Dimen.excess_ofNat hsmall] at he ⊢
    obtain ⟨e', input', hruns, hreported, rfl⟩ := k.dimension_proceeds hlegal hwhole hlength he hrest input hinput
    rw [Dimen.cut_ofNat hsmall, signed_ofNat] at hruns
    exact ⟨e', hruns, hreported⟩
  · obtain ⟨hinch, hwrapped, hnegative, hrange⟩ := k.wraps hpos hword hwhole hover
    have hlength : Int64.ofInt (k.wrappedAt m) = Dimen.trueLength (Int64.ofNat k.magnitude) e.context.magnification := by
      rw [hmagnification, ← hwrapped, Int64.ofInt_toInt]
    have hbelow : (Int64.ofInt (k.wrappedAt m)).toInt ≤ 1073741823 := by
      rw [hlength, hmagnification, hwrapped]
      omega
    -- a negative length passes the comparison, so it is not cut
    obtain ⟨hcut, hexcess⟩ := Dimen.cut_of_le hbelow
    obtain ⟨e', input', hruns, hreported, rfl⟩ :=
      k.dimension_proceeds hlegal hwhole hlength (by rw [hexcess]; trivial) hrest input hinput
    rw [hexcess] at hreported
    cases hreported
    rw [hcut] at hruns
    exact ⟨hinch, hruns, hrange⟩

/-- A number of inches, with a space after `true`. -/
def TrueConstant.inches (first : DigitToken 10) (more : List (DigitToken 10)) : TrueConstant where
  signs := []
  blanks := []
  factor := .integer first more
  gap := []
  unit := ⟨"in", 7227, 100⟩
  letters := [.letter 'i', .letter 'n']
  areBlanks := areBlanks_nil
  areGap := areBlanks_nil
  isPhysical := .tail _ (.tail _ (.head _))
  areLetters := .cons rfl (.cons rfl .nil)
  areVisible := List.forall_mem_cons.2 ⟨nofun, List.forall_mem_singleton.2 nofun⟩
  trueLetters := [.letter 't', .letter 'R', .letter 'u', .letter 'e']
  trueGap := [.blank]
  areTrue := .cons rfl (.cons rfl (.cons rfl (.cons rfl .nil)))
  areTrueVisible := by decide
  areTrueGap := List.forall_mem_singleton.2 rfl

def Engine.doubled : Engine := (Engine.new default {}).use (.deed (.setMagnification 2000 false))

/-- More than a hundred thousand inches, and more than two thousand million of them, at the magnification 2000. Neither is a
dimension, but only the first number is reported and cut. -/
theorem true_constants_magnified_inches :
    let unit : List Token := [.letter 't', .letter 'R', .letter 'u', .letter 'e', .blank, .letter 'i', .letter 'n']
    (∃ e', Runs dimension (Engine.doubled.withInput (Input.pushTokens [] (List.replicate 6 (.other '1') ++ unit))) maxDimen
        (e'.withInput []) ∧ Engine.Reported [.dimensionTooLarge] Engine.doubled.locked e') ∧
      Runs dimension (Engine.doubled.withInput (Input.pushTokens [] (.other '2' :: (List.replicate 9 (.other '1') ++ unit))))
        (-4223958277117903) (Engine.doubled.locked.withInput []) := by
  intro unit
  have hlegal : Engine.doubled.context.Legal := ⟨by decide +kernel, by decide +kernel⟩
  have hm : Engine.doubled.context.magnification.toInt = (2000 : Nat) := by decide +kernel
  have hend : Engine.doubled.locked.context.PastSpace [] [] := .finished (Context.gives_none rfl)
  have hbears : Engine.doubled.locked.Bears 1 := by
    have hgoes : Engine.doubled.locked.handler.GoesOn Engine.doubled.locked.context := trivial
    refine hgoes.bears ?_
    show ((0 + 1 : Nat) : Int) ≤ 100
    decide
  let one : DigitToken 10 := ⟨.other '1', 1, rfl⟩
  let large : TrueConstant := .inches one (List.replicate 5 one)
  let wrapped : TrueConstant := .inches ⟨.other '2', 2, rfl⟩ (List.replicate 9 one)
  have hlarge := true_constants_magnified large Engine.doubled 2000 _ [] [] hlegal hm (by decide)
    (Input.delivers_pushTokens [] _) hend
  have hwrapped := true_constants_magnified wrapped Engine.doubled 2000 _ [] [] hlegal hm (by decide)
    (Input.delivers_pushTokens [] _) hend
  have hfits : large.FitsAt 2000 := by decide
  have hvalue : large.valueAt 2000 = 1073741823 := by decide
  have hproblems : large.problemsAt 2000 = [.dimensionTooLarge] := by decide
  have hlength : wrapped.wrappedAt 2000 = -4223958277117903 := by decide
  rw [hvalue, hproblems] at hlarge
  rw [hlength] at hwrapped
  exact ⟨hlarge.1 hfits hbears, (hwrapped.2 (by decide)).2.1⟩

/-- The length of the inches of the greatest integer is far too large, even if it is divided by two, but what the scanner
gives is negative, and nothing is reported. -/
theorem true_length_unbounded :
    let r := dimension (machine 20) (Engine.doubled.pushText "2147483647truein " "")
    valueOf r = some (-4137822897503142) ∧ (finalState r).errorCount = 0 ∧
      maxDimen.toInt < ((⟨"in", 7227, 100⟩ : LengthUnit).exact 2147483647 0 * 1000 / 2000 : Nat) := by
  decide +kernel

end Compositor
