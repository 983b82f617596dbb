import Compositor.Proofs.Engine.Noted
import Compositor.Proofs.Measure.Units

/-!
# Dimensions as constants

A dimension is written with any number of signs and spaces, a decimal number and the name of a physical unit in any case of
letters. The scanner reads it to the exact length, which it cuts to the largest dimension. A number or a length which is
too large is reported, and one space after the unit is skipped.

* `Context.PastSpace` says what is left of an input without the space at its start;
* `Factor` is the number in front of a unit, `DimenConstant` a dimension with its `tokens`, its `value` and its `problems`;
* `dimension_constants_exact` says that the scanner reads such constants exactly, and that texts without spaces have the
  same dimension when they are read by `Dimen.parse`.
-/

namespace Compositor

open Compositor.Measure

variable {e : Engine} {t : Token} {ts gap letters : List Token} {input mid rest : Input}

/-! ## What follows a constant -/

namespace Context

variable {c : Context}

/-- In this context reading with expansion gives `x` from an input and leaves another one, and nothing else changes. -/
def Gives (c : Context) (input : Input) (x : Option Token) (rest : Input) : Prop :=
  ∀ e : Engine, e.context = c → Runs Machine.nextExpanded (e.withInput input) x (e.withInput rest)

/-- What is left of an input without the space at its start, if there is one. Another token is put back. -/
inductive PastSpace (c : Context) (input : Input) : Input → Prop where
  | space {b : Token} {rest : Input} (hgives : c.Gives input (some b) rest) (hcat : b.cat = .space) : PastSpace c input rest
  | other {t : Token} {rest : Input} (hgives : c.Gives input (some t) rest) (hcat : t.cat ≠ .space) :
      PastSpace c input (rest.pushTokens [t])
  | finished {rest : Input} (hgives : c.Gives input none rest) : PastSpace c input rest

theorem gives_token (hpull : input.pull c.lexicon = (.token t, rest)) (ht : c.Unexpandable t) :
    c.Gives input (some t) rest := by
  rintro e rfl
  exact nextExpanded_runs (e := e.withInput input) hpull ht

theorem gives_none (hpull : input.pull c.lexicon = (.exhausted, rest)) : c.Gives input none rest := by
  rintro e rfl
  have hnext : Runs Machine.next (e.withInput input) none (e.withInput rest) := next_runs_none (e := e.withInput input) hpull
  exact Runs.nextExpanded (Loops.runs (Loops.done (Runs.bind hnext.lift (Runs.of_eq fun m => rfl))))

end Context

theorem optionalSpace_recovers (h : e.context.PastSpace mid rest) : Recovers e optionalSpace [] mid () [] [] rest := by
  rintro input rfl
  cases h with
  | @space b rest hgives hcat =>
    refine ⟨e, rest, (hgives e rfl).lift.bind (.of_eq fun m => ?_), .nil e, rfl⟩
    simp [hcat]
  | @other t rest hgives hcat =>
    refine ⟨e, rest.pushTokens [t], (hgives e rfl).lift.bind (.of_eq fun m => ?_), .nil e, rfl⟩
    simp only [ne_eq, hcat, not_false_eq_true, if_true]
    rfl
  | @finished rest hgives => exact ⟨e, rest, (hgives e rfl).lift.bind (.of_eq fun m => rfl), .nil e, rfl⟩

/-! ## Numbers -/

def Kind.above (kind : Kind) (bound n : Nat) : List Kind := if bound < n then [kind] else []

namespace DigitToken

theorem decimal_value (d : DigitToken 10) : Text.digitValue d.token.char = d.value := by
  have h := d.isDigit
  obtain ⟨hcat, hlow, hhigh⟩ := d.decimal_cat
  simp only [digitOf?, d.isCode_eq, hcat, hlow, hhigh, Bool.false_eq_true, if_false, decide_true, Bool.and_self,
    if_true] at h
  exact Option.some.inj (Option.filter_eq_some_iff.1 h).1

end DigitToken

/-- The token is neither a digit nor a space, and nothing replaces it. It ends a number, and is put back. -/
structure Context.EndsNumber (c : Context) (t : Token) : Prop where
  unexpandable : c.Unexpandable t
  cat_ne : t.cat ≠ .space
  noDigit : digitOf? t 10 = none

/-- A numeral ends at a token which is no digit. Only a space after it is taken, and a control sequence without a name. -/
theorem numeralDigits_parses (d : DigitToken 10) (ds : List (DigitToken 10)) (gap ts : List Token) (hgap : ∀ b ∈ gap, b.cat = .space)
    (ht : e.context.EndsNumber t) (hname : gap = [] → t.name ≠ "") :
    Parses e (numeralDigits · 10 d.token) (ds.map DigitToken.token ++ (gap ++ t :: ts))
      (Numeral.of (DigitToken.append 0 (d :: ds))) (gap.tail ++ t :: ts) := by
  intro input rest hinput
  cases gap with
  | nil =>
    rw [List.nil_append, ← List.singleton_append, ← List.append_assoc, Input.delivers_append] at hinput
    obtain ⟨mid, hread, hleft⟩ := hinput
    have hruns := numeralDigits_runs (e := e.withInput input) (by decide) ht.noDigit ht.unexpandable d ds hread
    have hback : mid.afterNumeral t = mid.pushTokens [t] := by simp [Input.afterNumeral, hname rfl, ht.cat_ne]
    rw [hback] at hruns
    refine ⟨mid.pushTokens [t], hruns, ?_⟩
    show (mid.pushTokens [t]).Delivers e.context.lexicon ([t] ++ ts) rest
    exact Input.delivers_append.2 ⟨mid, mid.delivers_pushTokens [t], hleft⟩
  | cons b gap =>
    have hb : b.cat = .space := hgap b (by simp)
    rw [List.cons_append, ← List.singleton_append, ← List.append_assoc, Input.delivers_append] at hinput
    obtain ⟨mid, hread, hleft⟩ := hinput
    have hruns := numeralDigits_runs (e := e.withInput input) (by decide) (digitOf?_blank hb 10)
      (e.context.unexpandable_of_space hb) d ds hread
    rw [Input.afterNumeral_blank hb] at hruns
    exact ⟨mid, hruns, hleft⟩

/-- What is done with the digits of a numeral: one which is too big is reported and cut. -/
theorem digits_recovers {radix v : Nat} {ts us : List Token}
    (hdigits : Recovers e (numeralDigits · radix t) ts mid (Numeral.of v) [] us rest)
    (he : e.Bears (Kind.numberTooBig.above 2147483647 v).length) :
    Recovers e (digits · radix (some t)) ts mid (Int64.ofNat (min v 2147483647)) (Kind.numberTooBig.above 2147483647 v)
      us rest := by
  refine (Parses.pure (some t)).bind_proceeds ?_
  rw [← List.nil_append (Kind.above _ _ _)]
  refine hdigits.lift.bind fun e₁ hreported => ?_
  cases hreported
  by_cases hv : 2147483647 < v
  · simp only [Numeral.of, Kind.above, hv, decide_true, Bool.not_true, Bool.false_eq_true, if_false, if_true,
      Nat.min_eq_right (Nat.le_of_lt hv)] at he ⊢
    exact ((reportHere_recovers he rfl []).giving maxInteger).bind fun e₂ _ => (Parses.pure _).recovers rest
  · simp only [Numeral.of, Kind.above, hv, decide_false, Bool.not_true, Bool.false_eq_true, if_false]
    exact (Parses.pure _).recovers rest

/-- **An unsigned number is scanned.** One which is too big is reported and cut. -/
theorem unsignedNumber_recovers (d : DigitToken 10) (ds : List (DigitToken 10)) (gap ts : List Token) (hgap : ∀ b ∈ gap, b.cat = .space)
    (ht : e.context.EndsNumber t) (hname : gap = [] → t.name ≠ "")
    (he : e.Bears (Kind.numberTooBig.above 2147483647 (DigitToken.append 0 (d :: ds))).length) (mid : Input) :
    Recovers e (unsignedNumber · d.token) (ds.map DigitToken.token ++ (gap ++ t :: ts)) mid
      (Int64.ofNat (min (DigitToken.append 0 (d :: ds)) 2147483647))
      (Kind.numberTooBig.above 2147483647 (DigitToken.append 0 (d :: ds))) (gap.tail ++ t :: ts) mid := by
  have hdigits := (numeralDigits_parses (e := e) d ds gap ts hgap ht hname).recovers mid
  exact (digits_recovers hdigits he).congr fun m input => unsignedNumber_decimal m d _

theorem fractionStep_digit (d : DigitToken 10) (read : List Nat) :
    Parses e (fractionStep · read) (d.token :: ts) (.again (read ++ [d.value])) ts := by
  obtain ⟨hcat, hlow, hhigh⟩ := d.decimal_cat
  refine (nextExpanded_parses (e.context.unexpandable_of_not_isCode d.isCode_eq)).lift.bind ?_
  simp only [hcat, hlow, hhigh, decide_true, Bool.and_self, if_true, d.decimal_value]
  exact .pure _

theorem fractionStep_stop (hgap : ∀ b ∈ gap, b.cat = .space) (ht : e.context.EndsNumber t) (read : List Nat) :
    Parses e (fractionStep · read) (gap ++ t :: ts) (.done (Int64.ofNat (roundDecimals read))) (gap.tail ++ t :: ts) := by
  cases gap with
  | nil =>
    have hno : ¬ (t.cat = .other && '0' ≤ t.char && t.char ≤ '9') = true := by
      intro hdigit
      have hcat : t.cat = .other := by
        simp only [Bool.and_eq_true, decide_eq_true_eq] at hdigit
        exact hdigit.1.1
      have hnone := ht.noDigit
      rw [digitOf?_decimal (Token.isCode_of_other hcat), if_pos hdigit] at hnone
      cases hnone
    refine (nextExpanded_parses ht.unexpandable).lift.bind ?_
    simp only [hno, Bool.false_eq_true, if_false, ne_eq, ht.cat_ne, not_false_eq_true, if_true]
    exact (pushBack_parses t).bind (.pure _)
  | cons b gap =>
    have hb : b.cat = .space := hgap b (by simp)
    refine (nextExpanded_parses (e.context.unexpandable_of_space hb)).lift.bind ?_
    simp only [hb, reduceCtorEq, decide_false, Bool.false_and, Bool.false_eq_true, if_false, ne_eq, not_true_eq_false]
    exact .pure _

/-- **The digits of a fraction are scanned.** -/
theorem fraction_parses (ds : List (DigitToken 10)) (hgap : ∀ b ∈ gap, b.cat = .space) (ht : e.context.EndsNumber t) :
    Parses e fraction (ds.map DigitToken.token ++ (gap ++ t :: ts)) (Int64.ofNat (roundDecimals (ds.map DigitToken.value)))
      (gap.tail ++ t :: ts) := by
  suffices hloop : ∀ read, ParsesLoop e fractionStep read (ds.map DigitToken.token ++ (gap ++ t :: ts))
      (Int64.ofNat (roundDecimals (read ++ ds.map DigitToken.value))) (gap.tail ++ t :: ts) from (hloop []).parses
  induction ds with
  | nil =>
    intro read
    rw [List.map_nil, List.map_nil, List.append_nil]
    exact .done (fractionStep_stop hgap ht read)
  | cons d ds ih =>
    intro read
    have hmore := ih (read ++ [d.value])
    rw [List.append_assoc, List.singleton_append] at hmore
    exact .again (fractionStep_digit d read) hmore

/-- The number in front of a unit: digits, and perhaps a decimal point with any number of further digits. -/
inductive Factor where
  | integer (first : DigitToken 10) (more : List (DigitToken 10))
  | mixed (first : DigitToken 10) (more : List (DigitToken 10)) (point : Token) (isPoint : isDecimalPoint point = true)
      (decimals : List (DigitToken 10))
  | fraction (point : Token) (isPoint : isDecimalPoint point = true) (decimals : List (DigitToken 10))

namespace Factor

def first : Factor → Token
  | integer first _ | mixed first _ _ _ _ => first.token
  | fraction point _ _ => point

def others : Factor → List Token
  | integer _ more => more.map DigitToken.token
  | mixed _ more point _ decimals => more.map DigitToken.token ++ point :: decimals.map DigitToken.token
  | fraction _ _ decimals => decimals.map DigitToken.token

def whole : Factor → Nat
  | integer first more | mixed first more _ _ _ => DigitToken.append 0 (first :: more)
  | fraction _ _ _ => 0

def decimals : Factor → List (DigitToken 10)
  | integer _ _ => []
  | mixed _ _ _ _ decimals | fraction _ _ decimals => decimals

/-- The fraction of a number, in units of `1/65536`. -/
def part (f : Factor) : Nat := roundDecimals (f.decimals.map DigitToken.value)

theorem part_le (f : Factor) : f.part ≤ unity := by
  refine roundDecimals_le fun d hd => ?_
  obtain ⟨d, -, rfl⟩ := List.mem_map.1 hd
  exact d.value_lt

/-- Right after the digits of an integer a control sequence without a name is dropped. Any other token is put back. -/
def Spares (gap : List Token) (t : Token) : Factor → Prop
  | integer _ _ => gap = [] → t.name ≠ ""
  | mixed .. | fraction .. => True

end Factor

theorem isDecimalPoint_iff : isDecimalPoint t = true ↔ t.cat = .other ∧ (t.char = '.' ∨ t.char = ',') := by
  simp only [isDecimalPoint, Bool.or_eq_true, Token.isOther_iff]
  tauto

theorem Token.name_ne_of_char (h : t.char ≠ replacementChar) : t.name ≠ "" := by
  intro hname
  exact h (by simp [char, hname])

theorem Token.endsNumber_of_point (c : Context) (ht : isDecimalPoint t = true) : c.EndsNumber t ∧ t.name ≠ "" := by
  obtain ⟨hcat, hchar⟩ := isDecimalPoint_iff.1 ht
  have hcode : t.isCode = false := Token.isCode_of_other hcat
  refine ⟨⟨c.unexpandable_of_not_isCode hcode, by simp [hcat], ?_⟩, Token.name_ne_of_char ?_⟩
  · rw [digitOf?_decimal hcode, hcat]
    rcases hchar with h | h <;> rw [h] <;> rfl
  · rcases hchar with h | h <;> rw [h] <;> decide

/-- A decimal digit is no decimal point, and the scanner for dimensions tells it from other characters. -/
theorem DigitToken.decimal_shape (d : DigitToken 10) :
    isDecimalPoint d.token = false ∧ (d.token.cat = .other && Text.isDigit d.token.char.toNat) = true := by
  obtain ⟨hcat, hlow, hhigh⟩ := d.decimal_cat
  have hlow : 48 ≤ d.token.char.toNat := UInt32.le_iff_toNat_le.1 (Char.le_def.1 hlow)
  have hhigh : d.token.char.toNat ≤ 57 := UInt32.le_iff_toNat_le.1 (Char.le_def.1 hhigh)
  constructor
  · rcases h : isDecimalPoint d.token with _ | _
    · rfl
    · rcases (isDecimalPoint_iff.1 h).2 with hchar | hchar <;> rw [hchar] at hlow <;> revert hlow <;> decide
  · have hascii : d.token.char.toNat < 128 := by omega
    simp [hcat, Text.isDigit, Text.isAsciiDigit, hascii, hlow, hhigh]

/-- **A number is scanned**, up to a token which ends it. Of spaces in between the first one is taken. -/
theorem factor_recovers (f : Factor) (gap ts : List Token) (hgap : ∀ b ∈ gap, b.cat = .space) (ht : e.context.EndsNumber t)
    (hspares : f.Spares gap t) (hpoint : isDecimalPoint t = false)
    (he : e.Bears (Kind.numberTooBig.above 2147483647 f.whole).length) (mid : Input) :
    Recovers e (factor · f.first) (f.others ++ (gap ++ t :: ts)) mid
      (Int64.ofNat (min f.whole 2147483647), Int64.ofNat f.part) (Kind.numberTooBig.above 2147483647 f.whole)
      (gap.tail ++ t :: ts) mid := by
  cases f with
  | integer d more =>
    obtain ⟨hnoPoint, hdigit⟩ := d.decimal_shape
    have hpart : (Factor.integer d more).part = 0 := by simp [Factor.part, Factor.decimals, roundDecimals]
    rw [hpart]
    show Recovers e (factor · d.token) (more.map DigitToken.token ++ (gap ++ t :: ts)) mid _ _ _ mid
    simp only [factor, d.isCode_eq, hnoPoint, hdigit, Bool.false_eq_true, if_false, if_true]
    rw [← List.append_nil (Kind.above _ _ _)]
    refine (unsignedNumber_recovers d more gap ts hgap ht hspares he mid).lift.bind fun e₁ hreported => ?_
    -- what follows is looked at and put back: a further space, or the token which ends the number
    obtain ⟨u, us, hus, hplain, hnoPoint⟩ : ∃ u us, gap.tail ++ t :: ts = u :: us ∧ e₁.context.Unexpandable u ∧
        isDecimalPoint u = false := by
      cases htail : gap.tail with
      | nil => exact ⟨t, ts, rfl, hreported.context ▸ ht.unexpandable, hpoint⟩
      | cons b blanks =>
        have hb : b.cat = .space := hgap b (List.mem_of_mem_tail (htail ▸ List.mem_cons_self))
        exact ⟨b, blanks ++ t :: ts, rfl, e₁.context.unexpandable_of_space hb, by simp [isDecimalPoint, Token.isOther, hb]⟩
    rw [hus]
    refine (nextExpanded_parses hplain).lift.bind_proceeds ?_
    simp only [hnoPoint, Bool.false_eq_true, if_false]
    exact (pushBack_parses u).bind_proceeds ((Parses.pure _).recovers mid)
  | mixed d more point isPoint decimals =>
    obtain ⟨hnoPoint, hdigit⟩ := d.decimal_shape
    obtain ⟨hends, hname⟩ := Token.endsNumber_of_point e.context isPoint
    show Recovers e (factor · d.token) (more.map DigitToken.token ++ point :: decimals.map DigitToken.token ++
      (gap ++ t :: ts)) mid _ _ _ mid
    simp only [factor, d.isCode_eq, hnoPoint, hdigit, Bool.false_eq_true, if_false, if_true]
    rw [← List.append_nil (Kind.above _ _ _), List.append_assoc]
    refine (unsignedNumber_recovers d more [] _ (by simp) hends (fun _ => hname) he mid).lift.bind fun e₁ hreported => ?_
    refine (nextExpanded_parses (Token.endsNumber_of_point e₁.context isPoint).1.unexpandable).lift.bind_proceeds ?_
    simp only [isPoint, if_true]
    exact (fraction_parses decimals hgap (hreported.context ▸ ht)).bind_proceeds ((Parses.pure _).recovers mid)
  | fraction point isPoint decimals =>
    have hcode : point.isCode = false := Token.isCode_of_other (isDecimalPoint_iff.1 isPoint).1
    simp only [Factor.first, factor, hcode, isPoint, Bool.false_eq_true, if_false, if_true]
    exact (fraction_parses decimals hgap ht).bind_proceeds ((Parses.pure _).recovers mid)

/-- A number which is not too big is scanned without a report. -/
theorem factor_parses_of_le (f : Factor) (gap ts : List Token) (hgap : ∀ b ∈ gap, b.cat = .space)
    (ht : e.context.EndsNumber t) (hspares : f.Spares gap t) (hpoint : isDecimalPoint t = false)
    (hwhole : f.whole ≤ 2147483647) :
    Parses e (factor · f.first) (f.others ++ (gap ++ t :: ts)) (Int64.ofNat f.whole, Int64.ofNat f.part)
      (gap.tail ++ t :: ts) := by
  have hnone : Kind.numberTooBig.above 2147483647 f.whole = [] := if_neg (Nat.not_lt.2 hwhole)
  refine .of_recovers fun mid => ?_
  have hfactor := factor_recovers (e := e) f gap ts hgap ht hspares hpoint (by rw [hnone]; trivial) mid
  rwa [hnone, Nat.min_eq_left hwhole] at hfactor

/-! ## Units -/

namespace Measure.LengthUnit

variable {u v : LengthUnit}

theorem find?_name (hu : u ∈ physical) : find? u.name = some u := by
  revert u
  decide +kernel

theorem lowercase_name (hu : u ∈ physical) : Text.lowercase u.name = u.name := by
  revert u
  decide +kernel

theorem isLower_name (hu : u ∈ physical) : ∀ c ∈ u.name.toList, c.isLower = true := by
  have hall : u.name.toList.all Char.isLower = true := by
    revert u
    decide
  exact List.all_eq_true.1 hall

theorem name_length (hu : u ∈ physical) : u.name.toList.length = 2 := by
  revert u
  decide

theorem name_ne_nil (hu : u ∈ physical) : u.name.toList ≠ [] :=
  List.ne_nil_of_length_pos (by simp [name_length hu])

theorem differ_name (hu : u ∈ physical) (hv : v ∈ physical) (hne : v.name ≠ u.name) :
    Differ v.name.toList u.name.toList = true := by
  have hall : ∀ u ∈ physical, ∀ v ∈ physical, v.name ≠ u.name → Differ v.name.toList u.name.toList = true := by decide
  exact hall u hu v hv hne

/-- The other units which are tried first do not begin like a physical one. -/
theorem differ_relative (hu : u ∈ physical) :
    Differ "em".toList u.name.toList = true ∧ Differ "ex".toList u.name.toList = true ∧
      Differ "true".toList u.name.toList = true := by
  revert u
  decide

theorem mem_unitKeywords (hu : u ∈ physical) : u.name ∈ unitKeywords := by
  revert u
  decide

theorem exists_of_mem_unitKeywords {name : String} (h : name ∈ unitKeywords) : ∃ v ∈ physical, v.name = name := by
  revert name
  decide

end Measure.LengthUnit

section Units

variable {u : LengthUnit}

/-- **The name of a unit is scanned**, in any case of letters, whatever units are tried before it. -/
theorem physicalUnit_parses (hu : u ∈ LengthUnit.physical) (h : Spelled letters u.name.toList)
    (hcats : ∀ l ∈ letters, l.cat ≠ .space) {blanks : List Token} (hblanks : ∀ b ∈ blanks, b = .blank) {names : List String}
    (hmem : u.name ∈ names) (hnames : ∀ name ∈ names, ∃ v ∈ LengthUnit.physical, v.name = name) :
    Parses e (physicalUnit · names) (blanks ++ (letters ++ ts)) (some u) ts := by
  induction names generalizing blanks with
  | nil => cases hmem
  | cons name names ih =>
    obtain ⟨⟨v, hv, hname⟩, hmore⟩ := List.forall_mem_cons.1 hnames
    subst hname
    have hlower := LengthUnit.isLower_name hv
    have hne := LengthUnit.name_ne_nil hv
    by_cases heq : v.name = u.name
    · have hfound : Parses e (keyword · v.name) (blanks ++ (letters ++ ts)) true ts :=
        keyword_parses_blanks hblanks hne hlower (keywordStep_spelled (heq ▸ h) [])
      refine hfound.lift.bind ?_
      simp only [if_true, heq, LengthUnit.find?_name hu]
      exact .pure _
    · have hother : Parses e (keyword · v.name) (blanks ++ (letters ++ ts)) false (letters ++ ts) :=
        keyword_parses_blanks hblanks hne hlower
          (keywordStep_differ h (LengthUnit.differ_name hu hv heq) hlower (LengthUnit.isLower_name hu) hcats [])
      have hnone : ∀ b ∈ ([] : List Token), b = .blank := by simp
      have hrest := ih hnone ((List.mem_cons.1 hmem).resolve_left fun hsame => heq hsame.symm) hmore
      refine hother.lift.bind ?_
      simp only [Bool.false_eq_true, if_false]
      exact hrest

/-- A length before it is magnified. It is multiplied first, which may be too much for a word of 64 bits. -/
def Measure.Dimen.trueLength (d : Dimen) (magnification : Int64) : Dimen :=
  if magnification = 1000 then d else d * 1000 / magnification

theorem Measure.Dimen.trueLength_thousand (d : Dimen) : d.trueLength 1000 = d := if_pos rfl

/-- **A physical unit is scanned**, and one space after it. -/
theorem physicalLength_recovers (whole part magnification : Int64) (hu : u ∈ LengthUnit.physical)
    (h : Spelled letters u.name.toList) (hcats : ∀ l ∈ letters, l.cat ≠ .space) {blanks : List Token}
    (hblanks : ∀ b ∈ blanks, b = .blank) (hrest : e.context.PastSpace mid rest) :
    Recovers e (physicalLength · whole part magnification) (blanks ++ letters) mid
      ((u.scale whole part).trueLength magnification) [] [] rest := by
  have hunit : Parses e (physicalUnit · unitKeywords) (blanks ++ (letters ++ [])) (some u) [] :=
    physicalUnit_parses hu h hcats hblanks (LengthUnit.mem_unitKeywords hu) fun name hname =>
      LengthUnit.exists_of_mem_unitKeywords hname
  rw [List.append_nil] at hunit
  exact hunit.bind_proceeds ((optionalSpace_recovers hrest).bind fun e₁ _ => (Parses.pure _).recovers rest)

/-- A word which is no unit of the font is left for the other units. -/
theorem finiteUnit_proceeds {e₁ : Engine} {whole part d : Int64} {ks : List Kind} {us : List Token} {word : List Char}
    (h : Spelled letters word) (hword : word ≠ []) (hlower : ∀ c ∈ word, c.isLower = true)
    (hem : Differ "em".toList word = true) (hex : Differ "ex".toList word = true) (hcats : ∀ l ∈ letters, l.cat ≠ .space)
    (hgap : ∀ b ∈ gap, b.cat = .space)
    (habsolute : Proceeds e e₁ (absoluteUnit · whole part) (letters ++ ts) mid d ks us rest) :
    Proceeds e e₁ (finiteUnit · whole part) (gap ++ (letters ++ ts)) mid d ks us rest := by
  obtain ⟨l, ls, rfl⟩ : ∃ l ls, letters = l :: ls := by
    refine List.exists_cons_of_ne_nil ?_
    rintro rfl
    exact hword (List.forall₂_nil_left_iff.1 h)
  have hcode : l.isCode = false := by
    match word, h with
    | _, .cons hl _ => exact isCode_of_spells hl
  have hblank : Parses e nonBlank (gap ++ l :: (ls ++ ts)) (some l) (ls ++ ts) :=
    nonBlank_parses gap hgap (hcats l (by simp)) (e.context.unexpandable_of_not_isCode hcode)
  have hinternal : Parses e (internalDimen? · l) (ls ++ ts) none (ls ++ ts) :=
    .of_eq fun m _ => internalDimen?_character m hcode
  have hdiffer : ∀ font : String, Differ font.toList word = true → (∀ c ∈ font.toList, c.isLower = true) →
      Parses e (keyword · font) (l :: (ls ++ ts)) false (l :: (ls ++ ts)) :=
    fun font hfont hfontLower => keyword_parses_differ font h hfont hfontLower hlower hcats
  refine hblank.lift.bind_proceeds (hinternal.lift.bind_proceeds ((pushBack_parses l).bind_proceeds (.context_bind ?_)))
  refine (hdiffer "em" hem (List.all_eq_true.1 rfl)).lift.bind_proceeds ?_
  exact (hdiffer "ex" hex (List.all_eq_true.1 rfl)).lift.bind_proceeds habsolute

/-- **A unit is scanned**, and one space after it. -/
theorem finiteUnit_recovers (whole part : Int64) (hu : u ∈ LengthUnit.physical) (h : Spelled letters u.name.toList)
    (hcats : ∀ l ∈ letters, l.cat ≠ .space) (hgap : ∀ b ∈ gap, b.cat = .space) (hrest : e.context.PastSpace mid rest) :
    Recovers e (finiteUnit · whole part) (gap ++ letters) mid (u.scale whole part) [] [] rest := by
  obtain ⟨hem, hex, htrue⟩ := LengthUnit.differ_relative hu
  have hlower := LengthUnit.isLower_name hu
  have hnotTrue : Parses e (keyword · "true") (letters ++ []) false (letters ++ []) :=
    keyword_parses_differ "true" h htrue (List.all_eq_true.1 rfl) hlower hcats
  have hblanks : ∀ b ∈ ([] : List Token), b = .blank := List.forall_mem_nil _
  have hlength := physicalLength_recovers whole part 1000 hu h hcats hblanks hrest
  rw [Measure.Dimen.trueLength_thousand, List.nil_append, ← List.append_nil letters] at hlength
  rw [← List.append_nil letters]
  exact finiteUnit_proceeds h (LengthUnit.name_ne_nil hu) hlower hem hex hcats hgap (hnotTrue.lift.bind_proceeds hlength)

end Units

/-! ## Constants -/

/-- A dimension with a physical unit. -/
structure DimenConstant where
  signs : List SignToken
  /-- The spaces after the signs. -/
  blanks : List Token
  factor : Factor
  /-- The spaces in front of the unit. -/
  gap : List Token
  unit : LengthUnit
  letters : List Token
  areBlanks : ∀ b ∈ blanks, b.cat = .space
  areGap : ∀ b ∈ gap, b.cat = .space
  isPhysical : unit ∈ LengthUnit.physical
  /-- The unit is written in any case of letters. -/
  areLetters : Spelled letters unit.name.toList
  areVisible : ∀ l ∈ letters, l.cat ≠ .space

namespace DimenConstant

def tokens (k : DimenConstant) : List Token :=
  k.signs.flatMap SignToken.tokens ++ (k.blanks ++ k.factor.first :: (k.factor.others ++ (k.gap ++ k.letters)))

/-- The constant is negative: there is an odd number of minus signs. -/
def isNegative (k : DimenConstant) : Bool := k.signs.countP (·.token.isOther '-') % 2 == 1

/-- The length without its sign, truncated, over the unbounded integers. -/
def magnitude (k : DimenConstant) : Nat := k.unit.exact k.factor.whole k.factor.part

/-- The dimension which a constant stands for. The largest one takes the place of those which are too large. -/
def value (k : DimenConstant) : Int :=
  if k.isNegative then -(min k.magnitude 1073741823 : Nat) else (min k.magnitude 1073741823 : Nat)

def problems (k : DimenConstant) : List Kind :=
  Kind.numberTooBig.above 2147483647 k.factor.whole ++ Kind.dimensionTooLarge.above 1073741823 k.magnitude

end DimenConstant

section Constants

theorem Factor.first_cat (f : Factor) : f.first.cat = .other := by
  cases f with
  | integer d more => exact d.decimal_cat.1
  | mixed d more point isPoint decimals => exact d.decimal_cat.1
  | fraction point isPoint decimals => exact (isDecimalPoint_iff.1 isPoint).1

theorem Factor.first_not_sign (f : Factor) {c : Char} (hc : c = '-' ∨ c = '+') : f.first.isOther c = false := by
  have hdigit : ∀ d : DigitToken 10, d.token.isOther c = false := by
    intro d
    exact Magnitude.first_not_sign (.decimal d []) hc
  cases f with
  | integer d more => exact hdigit d
  | mixed d more point isPoint decimals => exact hdigit d
  | fraction point isPoint decimals =>
    show point.isOther c = false
    refine Bool.eq_false_iff.2 fun h => ?_
    have hchar : point.char = c := (Token.isOther_iff.1 h).2
    have hpoint := (isDecimalPoint_iff.1 isPoint).2
    rw [hchar] at hpoint
    rcases hc with rfl | rfl <;> revert hpoint <;> decide

theorem Token.endsNumber_of_letter (context : Context) {c : Char} (hc : c.isLower = true) (h : spells t c = true)
    (hcat : t.cat ≠ .space) : context.EndsNumber t ∧ t.name ≠ "" ∧ isDecimalPoint t = false := by
  have hrange := isLower_iff_toNat.1 hc
  have hcase := toNat_char_of_spells hc h
  have hcode := isCode_of_spells h
  refine ⟨⟨context.unexpandable_of_not_isCode hcode, hcat, ?_⟩, Token.name_ne_of_char fun hnone => ?_, ?_⟩
  · rw [digitOf?_decimal hcode]
    refine if_neg fun hdigit => ?_
    simp only [Bool.and_eq_true, decide_eq_true_eq] at hdigit
    have hhigh : t.char.toNat ≤ 57 := UInt32.le_iff_toNat_le.1 (Char.le_def.1 hdigit.2)
    omega
  · rw [hnone] at hcase
    have hreplacement : replacementChar.toNat = 65533 := rfl
    omega
  · rcases hpoint : isDecimalPoint t with _ | _
    · rfl
    · rcases (isDecimalPoint_iff.1 hpoint).2 with hchar | hchar <;> rw [hchar] at hcase
      · have hcode : '.'.toNat = 46 := rfl
        omega
      · have hcode : ','.toNat = 44 := rfl
        omega

theorem ofNat_neg_iff {n : Nat} (hn : n < Text.signedCount) : ¬ Int64.ofNat n < 0 := by
  unfold Text.signedCount at hn
  rw [Int64.lt_iff_toInt_lt, Int64.toInt_ofNat_of_lt (by omega)]
  exact Int.not_lt.2 (Int.natCast_nonneg _)

theorem ofNat_gt_maxDimen {n : Nat} (hn : n < Text.signedCount) : Int64.ofNat n > maxDimen ↔ 1073741823 < n := by
  unfold Text.signedCount at hn
  have hmax : maxDimen.toInt = 1073741823 := rfl
  rw [gt_iff_lt, Int64.lt_iff_toInt_lt, Int64.toInt_ofNat_of_lt (by omega), hmax]
  omega

namespace Measure.Dimen

/-- A length, or the largest dimension if the length is larger. There is no bound below. -/
def cut (d : Dimen) : Dimen := if d > maxDimen then maxDimen else d

/-- What is reported about a length. -/
def excess (d : Dimen) : List Kind := if d > maxDimen then [.dimensionTooLarge] else []

theorem cut_ofNat {n : Nat} (hn : n < Text.signedCount) : cut (Int64.ofNat n) = Int64.ofNat (min n 1073741823) := by
  have hover := ofNat_gt_maxDimen hn
  unfold cut
  by_cases h : 1073741823 < n
  · rw [if_pos (hover.2 h), Nat.min_eq_right (Nat.le_of_lt h)]
    rfl
  · rw [if_neg fun hlarge => h (hover.1 hlarge), Nat.min_eq_left (Nat.not_lt.1 h)]

theorem excess_ofNat {n : Nat} (hn : n < Text.signedCount) :
    excess (Int64.ofNat n) = Kind.dimensionTooLarge.above 1073741823 n := by
  simp only [excess, Kind.above, ofNat_gt_maxDimen hn]

end Measure.Dimen

/-- **A length is cut if it is too large**, which is reported. -/
theorem boundedLength_proceeds {e₁ : Engine} {whole part : Int64} {d : Dimen} (negative : Bool) (hwhole : ¬ whole < 0)
    (hunit : Proceeds e e₁ (finiteUnit · whole part) ts mid d [] [] rest) (he : e₁.Bears d.excess.length) :
    Proceeds e e₁ (boundedLength · negative whole part false) ts mid ⟨signed negative d.cut, .finite⟩ d.excess [] rest := by
  have hlength : Proceeds e e₁ (lengthUnit · whole part false) ts mid ⟨d, .finite⟩ [] [] rest :=
    hunit.bind fun e₂ _ => (Parses.pure _).recovers rest
  simp only [boundedLength, hwhole, if_false]
  rw [← List.nil_append d.excess]
  refine hlength.lift.bind fun e₂ hnothing => ?_
  cases hnothing
  by_cases hover : d > maxDimen
  · simp only [Dimen.excess, Dimen.cut, hover, if_true] at he ⊢
    exact ((reportHere_recovers he rfl []).giving _).bind fun e₃ _ => (Parses.pure _).recovers rest
  · simp only [Dimen.excess, Dimen.cut, hover, if_false]
    exact (Parses.pure _).recovers rest

/-- A number which is no integer register starts a length. -/
theorem Factor.internalDimen?_first (f : Factor) (ts : List Token) : Parses e (internalDimen? · f.first) ts none ts :=
  .of_eq fun m _ => internalDimen?_character m (Token.isCode_of_other f.first_cat)

/-- A length is scanned after its signs, if the number of its units is not too big. -/
theorem lengthFrom_proceeds {e₁ : Engine} {d : Dimen} (f : Factor) (negative : Bool) (hgap : ∀ b ∈ gap, b.cat = .space)
    (ht : e.context.EndsNumber t) (hspares : f.Spares gap t) (hpoint : isDecimalPoint t = false) (hwhole : f.whole ≤ 2147483647)
    (hunit : Proceeds e e₁ (finiteUnit · (Int64.ofNat f.whole) (Int64.ofNat f.part)) (gap.tail ++ t :: ts) mid d [] [] rest)
    (he : e₁.Bears d.excess.length) :
    Proceeds e e₁ (lengthFrom · negative f.first false) (f.others ++ (gap ++ t :: ts)) mid ⟨signed negative d.cut, .finite⟩
      d.excess [] rest := by
  have hfactor := factor_parses_of_le (e := e) f gap ts hgap ht hspares hpoint hwhole
  have hnonneg := ofNat_neg_iff (Nat.lt_of_le_of_lt hwhole (by decide : 2147483647 < Text.signedCount))
  exact ((f.internalDimen?_first _).leaving _).bind_proceeds
    (hfactor.lift.bind_proceeds (boundedLength_proceeds negative hnonneg hunit he))

theorem dimension_proceeds {e₁ : Engine} {d : Dimen} {ks : List Kind} {us : List Token} (signs : List SignToken)
    {blanks : List Token} (hblanks : ∀ b ∈ blanks, b.cat = .space) (f : Factor) {negative : Bool}
    (hnegative : negative = (signs.countP (·.token.isOther '-') % 2 == 1))
    (hlength : Proceeds e e₁ (lengthFrom · negative f.first false) ts mid ⟨d, .finite⟩ ks us rest) :
    Proceeds e e₁ dimension (signs.flatMap SignToken.tokens ++ (blanks ++ f.first :: ts)) mid d ks us rest := by
  subst hnegative
  have hcat := f.first_cat
  have hsigns : Parses e Compositor.signs (signs.flatMap SignToken.tokens ++ (blanks ++ f.first :: ts))
      (signs.countP (·.token.isOther '-') % 2 == 1, some f.first) ts :=
    signs_parses signs blanks hblanks (by simp [hcat])
      (e.context.unexpandable_of_not_isCode (Token.isCode_of_other hcat)) (f.first_not_sign (.inl rfl))
      (f.first_not_sign (.inr rfl))
  exact hsigns.lift.bind_proceeds (hlength.mapBoth Flex.value)

theorem exists_letter_of_spelled (f : Factor) (gap : List Token) (context : Context) {word : List Char} (hne : word ≠ [])
    (hlower : ∀ c ∈ word, c.isLower = true) (h : Spelled letters word) (hcats : ∀ l ∈ letters, l.cat ≠ .space) :
    ∃ l ls, letters = l :: ls ∧ context.EndsNumber l ∧ f.Spares gap l ∧ isDecimalPoint l = false := by
  obtain ⟨c, cs, rfl⟩ := List.exists_cons_of_ne_nil hne
  obtain ⟨l, ls, hl, -, rfl⟩ := List.forall₂_cons_right_iff.1 h
  obtain ⟨hends, hnamed, hpoint⟩ :=
    Token.endsNumber_of_letter context (hlower c List.mem_cons_self) hl (hcats l List.mem_cons_self)
  refine ⟨l, ls, rfl, hends, ?_, hpoint⟩
  cases f with
  | integer d more => exact fun _ => hnamed
  | mixed | fraction => trivial

/-- **A length is scanned after its signs.** It is cut if it is too large. -/
theorem lengthFrom_recovers (k : DimenConstant) (negative : Bool) (he : e.Bears k.problems.length)
    (hrest : e.context.PastSpace mid rest) :
    Recovers e (lengthFrom · negative k.factor.first false) (k.factor.others ++ (k.gap ++ k.letters)) mid
      ⟨signed negative (Int64.ofNat (min k.magnitude 1073741823)), .finite⟩ k.problems [] rest := by
  obtain ⟨l, ls, hletters, hends, hspares, hpoint⟩ := exists_letter_of_spelled k.factor k.gap e.context
    (LengthUnit.name_ne_nil k.isPhysical) (LengthUnit.isLower_name k.isPhysical) k.areLetters k.areVisible
  have hfactor := factor_recovers (e := e) k.factor k.gap ls k.areGap hends hspares hpoint
    (he.mono (by simp [DimenConstant.problems])) mid
  rw [← hletters] at hfactor
  have hsmall : min k.factor.whole 2147483647 ≤ 2147483647 := Nat.min_le_right _ _
  have hfits := LengthUnit.fits_of_le k.isPhysical hsmall k.factor.part_le
  have hnonneg := ofNat_neg_iff (Nat.lt_of_le_of_lt hsmall (by decide : 2147483647 < Text.signedCount))
  -- the length with the number cut stands for the length itself, since both are too large or they are the same
  obtain ⟨hcut, hlarge⟩ := LengthUnit.exact_saturated k.isPhysical k.factor.whole k.factor.part
  let d : Dimen := Int64.ofNat (k.unit.exact (min k.factor.whole 2147483647) k.factor.part)
  have hvalue : d.cut = Int64.ofNat (min k.magnitude 1073741823) := (Dimen.cut_ofNat hfits.exact_lt).trans (congrArg _ hcut)
  have hexcess : d.excess = Kind.dimensionTooLarge.above 1073741823 k.magnitude := by
    rw [Dimen.excess_ofNat hfits.exact_lt]
    exact if_congr hlarge rfl rfl
  rw [DimenConstant.problems] at he ⊢
  refine ((k.factor.internalDimen?_first _).leaving _).bind_proceeds (hfactor.lift.bind fun e₁ hreported => ?_)
  have hunit := finiteUnit_recovers (e := e₁) (Int64.ofNat (min k.factor.whole 2147483647))
    (Int64.ofNat k.factor.part) k.isPhysical k.areLetters k.areVisible
    (fun b hb => k.areGap b (List.mem_of_mem_tail hb)) (hreported.context ▸ hrest)
  rw [hfits.scale_eq k.isPhysical] at hunit
  rw [← hvalue, ← hexcess]
  rw [← hexcess, List.length_append] at he
  exact boundedLength_proceeds negative hnonneg hunit (hreported.bears he)

/-- **A constant is scanned**, and one space after it. -/
theorem dimension_recovers (k : DimenConstant) (he : e.Bears k.problems.length) (hrest : e.context.PastSpace mid rest) :
    Recovers e dimension k.tokens mid (Int64.ofInt k.value) k.problems [] rest := by
  have hvalue : Int64.ofInt k.value = signed k.isNegative (Int64.ofNat (min k.magnitude 1073741823)) :=
    (signed_ofNat _ _).symm
  rw [hvalue]
  exact dimension_proceeds k.signs k.areBlanks k.factor rfl (lengthFrom_recovers k k.isNegative he hrest)

end Constants

/-! ## Constants as texts -/

/-- The number is written with a full stop, and has digits after it. -/
def Factor.IsPlain : Factor → Prop
  | .integer _ _ => True
  | .mixed _ _ point _ decimals | .fraction point _ decimals => point.isOther '.' = true ∧ decimals ≠ []

/-- The constant is written without spaces and with one sign at most. -/
structure DimenConstant.IsPlain (k : DimenConstant) : Prop where
  signs : k.signs = [] ∨ ∃ s, k.signs = [s] ∧ s.blanks = []
  blanks : k.blanks = []
  factor : k.factor.IsPlain
  gap : k.gap = []

def DimenConstant.chars (k : DimenConstant) : List Char := k.tokens.map Token.char

section Texts

theorem DigitToken.map_char (ds : List (DigitToken 10)) :
    (∀ c ∈ ds.map (·.token.char), Text.isAsciiDigit c.toNat = true) ∧
      (∀ v, Nat.ofDigitChars 10 (ds.map (·.token.char)) v = DigitToken.append v ds) ∧
      (ds.map (·.token.char)).map Text.digitValue = ds.map DigitToken.value := by
  induction ds with
  | nil => exact ⟨by simp, fun _ => rfl, rfl⟩
  | cons d ds ih =>
    obtain ⟨hdigits, happend, hvalues⟩ := ih
    obtain ⟨-, hlow, hhigh⟩ := d.decimal_cat
    have hlow : 48 ≤ d.token.char.toNat := UInt32.le_iff_toNat_le.1 (Char.le_def.1 hlow)
    have hhigh : d.token.char.toNat ≤ 57 := UInt32.le_iff_toNat_le.1 (Char.le_def.1 hhigh)
    have hvalue : d.token.char.toNat - '0'.toNat = d.value := d.decimal_value
    refine ⟨List.forall_mem_cons.2 ⟨by simp [Text.isAsciiDigit, hlow, hhigh], hdigits⟩, fun v => ?_, ?_⟩
    · rw [List.map_cons, Nat.ofDigitChars_cons, happend, hvalue, Nat.mul_comm]
      rfl
    · rw [List.map_cons, List.map_cons, List.map_cons, hvalues, d.decimal_value]

/-- The lower case partner of a letter of a word is the letter itself. -/
theorem toLower_of_spells {c : Char} (hc : c.isLower = true) (h : spells t c = true) :
    Char.ofNat (Text.toLower t.char.toNat) = c := by
  have hrange := isLower_iff_toNat.1 hc
  have hcase := toNat_char_of_spells hc h
  have hlower : Text.toLower t.char.toNat = c.toNat := by
    unfold Text.toLower
    rw [if_pos (by omega)]
    by_cases hcapital : (0x41 ≤ t.char.toNat && t.char.toNat ≤ 0x5a) = true
    · rw [if_pos hcapital]
      simp only [Bool.and_eq_true, decide_eq_true_eq] at hcapital
      omega
    · rw [if_neg hcapital]
      simp only [Bool.and_eq_true, decide_eq_true_eq] at hcapital
      omega
  rw [hlower, Char.ofNat_toNat]

theorem lowercase_of_spelled {word : List Char} (h : Spelled letters word) (hlower : ∀ c ∈ word, c.isLower = true) :
    Text.lowercase (String.ofList (letters.map Token.char)) = String.ofList word := by
  rw [← String.toList_inj, Text.lowercase, String.toList_map, String.toList_ofList, String.toList_ofList, List.map_map]
  induction h with
  | nil => rfl
  | @cons l c letters word hl _ ih =>
    obtain ⟨hc, hlower⟩ := List.forall_mem_cons.1 hlower
    rw [List.map_cons, ih hlower]
    exact congrArg (· :: word) (toLower_of_spells hc hl)

theorem isAsciiLetter_of_spelled {word : List Char} (h : Spelled letters word) (hlower : ∀ c ∈ word, c.isLower = true) :
    ∀ l ∈ letters, Text.isAsciiLetter l.char.toNat = true := by
  induction h with
  | nil => simp
  | @cons l c letters word hl _ ih =>
    obtain ⟨hc, hlower⟩ := List.forall_mem_cons.1 hlower
    have hrange := isLower_iff_toNat.1 hc
    have hcase := toNat_char_of_spells hc hl
    refine List.forall_mem_cons.2 ⟨?_, ih hlower⟩
    rw [isAsciiLetter_iff]
    omega

theorem DimenConstant.exists_letters (k : DimenConstant) : ∃ a b : Char, k.letters.map Token.char = [a, b] ∧
    Text.isAsciiLetter a.toNat = true ∧ Text.isAsciiLetter b.toNat = true ∧
      LengthUnit.find? (String.ofList [a, b]) = some k.unit := by
  have hlower := LengthUnit.isLower_name k.isPhysical
  have hlength : (k.letters.map Token.char).length = 2 := by
    rw [List.length_map, k.areLetters.length_eq, LengthUnit.name_length k.isPhysical]
  obtain ⟨a, b, hchars⟩ := List.length_eq_two.1 hlength
  have hname : Text.lowercase (String.ofList [a, b]) = Text.lowercase k.unit.name := by
    rw [← hchars, lowercase_of_spelled k.areLetters hlower, String.ofList_toList, LengthUnit.lowercase_name k.isPhysical]
  have hletter : ∀ c ∈ [a, b], Text.isAsciiLetter c.toNat = true := by
    rw [← hchars]
    exact List.forall_mem_map.2 (isAsciiLetter_of_spelled k.areLetters hlower)
  refine ⟨a, b, hchars, hletter a (by simp), hletter b (by simp), ?_⟩
  rw [← LengthUnit.find?_name k.isPhysical, LengthUnit.find?, LengthUnit.find?, hname]

theorem DimenConstant.IsPlain.exists_sign {k : DimenConstant} (hk : k.IsPlain) : ∃ sign : Option Bool,
    DimenText.signChars sign = (k.signs.flatMap SignToken.tokens).map Token.char ∧ sign.getD false = k.isNegative := by
  unfold DimenConstant.isNegative
  rcases hk.signs with hsigns | ⟨s, hsigns, hblanks⟩
  · rw [hsigns]
    exact ⟨none, rfl, rfl⟩
  · have hflat : (k.signs.flatMap SignToken.tokens).map Token.char = [s.token.char] := by
      simp [hsigns, SignToken.tokens, hblanks]
    rw [hflat, hsigns]
    rcases hs : s.token.isOther '-' with _ | _
    · have hplus := (Token.isOther_iff.1 (s.isSign.resolve_left (by simp [hs]))).2
      exact ⟨some false, by rw [hplus]; rfl, by simp [hs]⟩
    · have hminus := (Token.isOther_iff.1 hs).2
      exact ⟨some true, by rw [hminus]; rfl, by simp [hs]⟩

namespace Factor

def wholeChars : Factor → List Char
  | integer first more | mixed first more _ _ _ => (first :: more).map (·.token.char)
  | fraction _ _ _ => []

/-- The digits after the decimal point in a text, if there is one. -/
def decimalChars : Factor → Option (List Char)
  | integer _ _ => none
  | mixed _ _ _ _ decimals | fraction _ _ decimals => some (decimals.map (·.token.char))

variable {f : Factor}

theorem isAsciiDigit_wholeChars (f : Factor) : ∀ c ∈ f.wholeChars, Text.isAsciiDigit c.toNat = true := by
  cases f with
  | integer d more => exact (DigitToken.map_char (d :: more)).1
  | mixed d more point isPoint decimals => exact (DigitToken.map_char (d :: more)).1
  | fraction point isPoint decimals => exact fun c hc => nomatch hc

theorem ofDigitChars_wholeChars (f : Factor) : Nat.ofDigitChars 10 f.wholeChars 0 = f.whole := by
  cases f with
  | integer d more => exact (DigitToken.map_char (d :: more)).2.1 0
  | mixed d more point isPoint decimals => exact (DigitToken.map_char (d :: more)).2.1 0
  | fraction point isPoint decimals => rfl

theorem roundDecimals_decimals (ds : List (DigitToken 10)) :
    roundDecimals ((ds.map (·.token.char)).map Text.digitValue) = roundDecimals (ds.map DigitToken.value) := by
  rw [(DigitToken.map_char ds).2.2]

namespace IsPlain

theorem chars_eq (hf : f.IsPlain) :
    f.wholeChars ++ DimenText.fractionChars f.decimalChars = (f.first :: f.others).map Token.char := by
  cases f with
  | integer d more => simp [wholeChars, decimalChars, DimenText.fractionChars, first, others]
  | mixed d more point isPoint decimals =>
    have hchar := (Token.isOther_iff.1 hf.1).2
    simp [wholeChars, decimalChars, DimenText.fractionChars, first, others, hchar, Function.comp_def]
  | fraction point isPoint decimals =>
    have hchar := (Token.isOther_iff.1 hf.1).2
    simp [wholeChars, decimalChars, DimenText.fractionChars, first, others, hchar]

theorem areDecimals (hf : f.IsPlain) :
    ∀ cs ∈ f.decimalChars, cs ≠ [] ∧ ∀ c ∈ cs, Text.isAsciiDigit c.toNat = true := by
  have hdecimals : ∀ decimals : List (DigitToken 10), decimals ≠ [] → ∀ cs ∈ some (decimals.map (·.token.char)),
      cs ≠ [] ∧ ∀ c ∈ cs, Text.isAsciiDigit c.toNat = true := by
    rintro decimals hne _ ⟨⟩
    exact ⟨by simpa using hne, (DigitToken.map_char decimals).1⟩
  cases f with
  | integer d more => exact fun cs hcs => nomatch hcs
  | mixed d more point isPoint decimals => exact hdecimals decimals hf.2
  | fraction point isPoint decimals => exact hdecimals decimals hf.2

end IsPlain

end Factor

/-- **A plain constant is the text of a dimension** with the same parts. -/
theorem DimenConstant.IsPlain.exists_text {k : DimenConstant} (hk : k.IsPlain) : ∃ s : DimenText, s.chars = k.chars ∧
    s.sign.getD false = k.isNegative ∧ s.units = k.factor.whole ∧ s.part = k.factor.part ∧
      LengthUnit.find? (String.ofList [s.first, s.second]) = some k.unit := by
  obtain ⟨sign, hsign, hnegative⟩ := hk.exists_sign
  obtain ⟨a, b, hletters, ha, hb, hfind⟩ := k.exists_letters
  have hnumber : (sign.isNone && k.factor.wholeChars.isEmpty && k.factor.decimalChars.isNone) = false := by
    cases k.factor <;> simp [Factor.wholeChars, Factor.decimalChars]
  let s : DimenText :=
    { sign, whole := k.factor.wholeChars, fraction := k.factor.decimalChars, first := a, second := b
      areDigits := k.factor.isAsciiDigit_wholeChars, areDecimals := hk.factor.areDecimals, isFirst := ha, isSecond := hb
      isNumber := hnumber }
  refine ⟨s, ?_, hnegative, k.factor.ofDigitChars_wholeChars, ?_, hfind⟩
  · show DimenText.signChars sign ++ (k.factor.wholeChars ++ (DimenText.fractionChars k.factor.decimalChars ++ [a, b])) =
      k.chars
    rw [← List.append_assoc k.factor.wholeChars, hk.factor.chars_eq, hsign, ← hletters]
    simp [chars, tokens, hk.blanks, hk.gap]
  · show s.part = k.factor.part
    unfold DimenText.part Factor.part
    cases hf : k.factor with
    | integer d more => simp [s, hf, Factor.decimalChars, Factor.decimals, roundDecimals]
    | mixed d more point isPoint decimals =>
      simpa [s, hf, Factor.decimalChars, Factor.decimals] using Factor.roundDecimals_decimals decimals
    | fraction point isPoint decimals =>
      simpa [s, hf, Factor.decimalChars, Factor.decimals] using Factor.roundDecimals_decimals decimals

/-- The dimension of a text, also with white space around it. -/
theorem Measure.DimenText.parse_exact (s : DimenText) {u : LengthUnit}
    (hu : LengthUnit.find? (String.ofList [s.first, s.second]) = some u) (hunits : s.units ≤ 2147483647)
    {before after : List Char} (hblank : ∀ c ∈ before ++ after, Text.isBlank c = true) :
    Dimen.parse (String.ofList (before ++ (s.chars ++ after))) =
      .ok (signed (s.sign.getD false) (Int64.ofNat (u.exact s.units s.part))) := by
  have hphysical : u ∈ LengthUnit.physical := List.mem_of_find?_eq_some hu
  rw [s.parse_padded (fun c hc => hblank c (by simp [hc])) fun c hc => hblank c (by simp [hc]),
    ← (LengthUnit.fits_of_le hphysical hunits s.part_le).scale_eq hphysical]
  exact (s.ofParts_eq_ok_iff _).2 ⟨u, hu, Nat.lt_of_le_of_lt hunits (by decide), rfl⟩

end Texts

/-! ## The main statement -/

/-- **Dimensions with physical units are exact.** An engine which bears the problems of a constant scans it to its value,
reports these problems, and leaves what follows without the space at its start. The text of a dimension has the exact
length when it is parsed, as long as the number of units is that of an integer. So a constant which is a text, and not too
large, is scanned and parsed to the same dimension. -/
theorem dimension_constants_exact :
    (∀ (k : DimenConstant) (e : Engine) (input mid rest : Input), e.Bears k.problems.length →
      input.Delivers e.context.lexicon k.tokens mid → e.context.PastSpace mid rest →
        ∃ e', Runs dimension (e.withInput input) (Int64.ofInt k.value) (e'.withInput rest) ∧
          Engine.Reported k.problems e e') ∧
      (∀ (s : DimenText) (u : LengthUnit) (before after : List Char),
        LengthUnit.find? (String.ofList [s.first, s.second]) = some u → s.units ≤ 2147483647 →
          (∀ c ∈ before ++ after, Text.isBlank c = true) →
            Dimen.parse (String.ofList (before ++ (s.chars ++ after))) =
              .ok (signed (s.sign.getD false) (Int64.ofNat (u.exact s.units s.part)))) ∧
      ∀ (k : DimenConstant) (before after : List Char), k.IsPlain → k.factor.whole ≤ 2147483647 →
        k.magnitude ≤ 1073741823 → (∀ c ∈ before ++ after, Text.isBlank c = true) →
          Dimen.parse (String.ofList (before ++ (k.chars ++ after))) = .ok (Int64.ofInt k.value) := by
  refine ⟨fun k e input mid rest he hinput hrest => ?_, fun s u before after hu hunits hblank => ?_,
    fun k before after hk hwhole hsmall hblank => ?_⟩
  · obtain ⟨e', input', hruns, hreported, rfl⟩ := dimension_recovers k he hrest input hinput
    exact ⟨e', hruns, hreported⟩
  · exact s.parse_exact hu hunits hblank
  · obtain ⟨s, hchars, hnegative, hunits, hpart, hu⟩ := hk.exists_text
    rw [← hchars, s.parse_exact hu (hunits ▸ hwhole) hblank, hnegative, hunits, hpart, signed_ofNat]
    have hvalue : k.unit.exact k.factor.whole k.factor.part = min k.magnitude 1073741823 := by
      unfold DimenConstant.magnitude at hsmall ⊢
      omega
    rw [hvalue]
    rfl

theorem areBlanks_nil : ∀ b ∈ ([] : List Token), b.cat = .space := nofun

theorem isSign_minus : (Token.other '-').isOther '-' = true ∨ (Token.other '-').isOther '+' = true := .inl rfl

/-- One and a half centimetres below zero. -/
def DimenConstant.sample : DimenConstant where
  signs := [⟨[], .other '-', areBlanks_nil, isSign_minus⟩]
  blanks := []
  factor := .mixed ⟨.other '1', 1, rfl⟩ [] (.other '.') rfl [⟨.other '5', 5, rfl⟩]
  gap := []
  unit := ⟨"cm", 7227, 254⟩
  letters := [.letter 'C', .letter 'm']
  areBlanks := areBlanks_nil
  areGap := areBlanks_nil
  isPhysical := .tail _ (.tail _ (.tail _ (.tail _ (.head _))))
  areLetters := .cons rfl (.cons rfl .nil)
  areVisible := List.forall_mem_cons.2 ⟨nofun, List.forall_mem_singleton.2 nofun⟩

/-- More than four thousand million points, with a space in front of the unit. -/
def DimenConstant.largeSample : DimenConstant where
  signs := []
  blanks := []
  factor := .integer ⟨.other '4', 4, rfl⟩ (List.replicate 9 ⟨.other '9', 9, rfl⟩)
  gap := [.blank]
  unit := .pt
  letters := [.letter 'p', .letter 'T']
  areBlanks := areBlanks_nil
  areGap := List.forall_mem_singleton.2 rfl
  isPhysical := .head _
  areLetters := .cons rfl (.cons rfl .nil)
  areVisible := List.forall_mem_cons.2 ⟨nofun, List.forall_mem_singleton.2 nofun⟩

/-- Two constants, one of which is too large, in front of the end of all input, and the text of the other. -/
theorem dimension_constants_exact_sample :
    let e : Engine := Engine.new default {}
    let tokens : List Token := [.other '-', .other '1', .other '.', .other '5', .letter 'C', .letter 'm']
    let nines : List Token := List.replicate 9 (.other '9')
    (∃ e', Runs dimension (e.withInput (Input.pushTokens [] tokens)) (-2797019) (e'.withInput []) ∧
        Engine.Reported [] e e') ∧
      (∃ e', Runs dimension (e.withInput (Input.pushTokens [] (.other '4' :: (nines ++ [.blank, .letter 'p', .letter 'T']))))
          maxDimen (e'.withInput []) ∧ Engine.Reported [.numberTooBig, .dimensionTooLarge] e e') ∧
      Dimen.parse " -1.5Cm" = .ok (-2797019) := by
  intro e tokens nines
  obtain ⟨hscan, -, hparse⟩ := dimension_constants_exact
  have hend : e.context.PastSpace [] [] := .finished (Context.gives_none rfl)
  have hgoes : e.handler.GoesOn e.context := trivial
  have hbears : ∀ n ≤ 2, e.Bears n := by
    intro n hn
    refine hgoes.bears ?_
    show ((0 + n : Nat) : Int) ≤ 100
    omega
  have hsmall := hscan .sample e _ [] [] (hbears _ (by decide)) (Input.delivers_pushTokens [] _) hend
  have hlarge := hscan .largeSample e _ [] [] (hbears _ (by decide)) (Input.delivers_pushTokens [] _) hend
  have hplain : DimenConstant.sample.IsPlain := ⟨.inr ⟨_, rfl, rfl⟩, rfl, ⟨rfl, by decide⟩, rfl⟩
  have htext := hparse .sample [' '] [] hplain (by decide) (by decide) (List.forall_mem_singleton.2 rfl)
  have hvalue : DimenConstant.sample.value = -2797019 := by decide
  have hvalue' : DimenConstant.largeSample.value = 1073741823 := by decide
  have hproblems : DimenConstant.sample.problems = [] := by decide
  have hproblems' : DimenConstant.largeSample.problems = [.numberTooBig, .dimensionTooLarge] := by decide
  rw [hvalue, hproblems] at hsmall
  rw [hvalue', hproblems'] at hlarge
  rw [hvalue] at htext
  exact ⟨hsmall, hlarge, htext⟩

end Compositor
