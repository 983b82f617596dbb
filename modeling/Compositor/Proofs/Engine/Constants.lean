import Compositor.Proofs.Engine.Reading

/-!
# Integer constants

An integer constant is written with any number of signs and spaces in front of its digits, which may be decimal, octal
or hexadecimal ones, or of a character which stands for its code. A constant holds the proofs that its tokens are what
they are meant to be, and that its value is in range.

* `IntegerConstant` is such a constant, with its `tokens` and its `value`;
* `number_runs` says that the scanner for integers reads it with a space after it.
-/

namespace Compositor

/-! ## Digits -/

/-- A digit of a numeral in a radix. -/
structure DigitToken (radix : Nat) where
  token : Token
  value : Nat
  isDigit : digitOf? token radix = some value

/-- The value of digits after others which have the value `v`. -/
def DigitToken.append {radix : Nat} (v : Nat) (ds : List (DigitToken radix)) : Nat :=
  ds.foldl (fun v d => v * radix + d.value) v

namespace DigitToken

variable {radix : Nat}

theorem isCode_eq (d : DigitToken radix) : d.token.isCode = false := by
  have h := d.isDigit
  rcases hcode : d.token.isCode with _ | _
  · rfl
  · simp [digitOf?, hcode] at h

theorem value_lt (d : DigitToken radix) : d.value < radix := by
  have h := d.isDigit
  unfold digitOf? at h
  simpa using (Option.filter_eq_some_iff.1 h).2

end DigitToken

namespace Numeral

/-- The numeral holds the number `v`, or the largest integer if this is too big. -/
structure Holds (n : Numeral) (v : Nat) : Prop where
  value : n.value = Int64.ofNat (min v 2147483647)
  tooBig : n.tooBig = (2147483647 < v : Bool)

/-- The numeral whose digits have the value `v`. -/
def of (v : Nat) : Numeral := ⟨Int64.ofNat (min v 2147483647), true, (2147483647 < v : Bool)⟩

theorem of_holds (v : Nat) : (of v).Holds v := ⟨rfl, rfl⟩

theorem of_inRange {v : Nat} (h : v ≤ 2147483647) : of v = ⟨Int64.ofNat v, true, false⟩ := by
  simp [of, Nat.min_eq_left h, Nat.not_lt.2 h]

/-- A numeral takes one more digit. Once it is too big, it stays so. -/
theorem Holds.push {radix v digit : Nat} {n : Numeral} (h : n.Holds v) (hradix : radix ≤ 16) (hdigit : digit < radix) :
    n.push radix digit = of (v * radix + digit) := by
  have hgrows : v ≤ v * radix := Nat.le_mul_of_pos_right v (Nat.zero_lt_of_lt hdigit)
  have hsum : n.value * Int64.ofNat radix + Int64.ofNat digit = Int64.ofNat (min v 2147483647 * radix + digit) := by
    rw [h.value, ← Int64.ofNat_mul, ← Int64.ofNat_add]
  have hsmall : min v 2147483647 * radix ≤ 2147483647 * 16 := Nat.mul_le_mul (Nat.min_le_right _ _) hradix
  have hlarge : Int64.ofNat (min v 2147483647 * radix + digit) > maxInteger ↔
      2147483647 < min v 2147483647 * radix + digit := by
    have hmax : maxInteger.toInt = 2147483647 := rfl
    rw [gt_iff_lt, Int64.lt_iff_toInt_lt, Int64.toInt_ofNat_of_lt (by omega), hmax]
    omega
  unfold Numeral.push of
  simp only [hsum, hlarge, h.tooBig]
  rcases Nat.lt_or_ge 2147483647 v with hv | hv
  · -- the number is too big already, and so is every longer one
    rw [Nat.min_eq_right (Nat.le_of_lt hv), Nat.min_eq_right (by omega), decide_eq_true (by omega : 2147483647 < v * radix + digit),
      decide_eq_true hv]
    split
    · rfl
    · rename_i hsame
      have heq : 2147483647 * radix + digit = 2147483647 := by
        have hle : 2147483647 ≤ 2147483647 * radix := Nat.le_mul_of_pos_right _ (Nat.zero_lt_of_lt hdigit)
        omega
      rw [heq]
  · rw [Nat.min_eq_left hv, decide_eq_false (Nat.not_lt.2 hv)]
    split
    · rename_i hbig
      rw [Nat.min_eq_right (Nat.le_of_lt hbig), decide_eq_true hbig]
      rfl
    · rename_i hrange
      rw [Nat.min_eq_left (Nat.not_lt.1 hrange), decide_eq_false hrange]

end Numeral

/-- What is left of the input after the token which ends a numeral: only a space belongs to the numeral. -/
def Input.afterNumeral (input : Input) (stop : Token) : Input :=
  if stop.name != "" && stop.cat ≠ .space then input.pushTokens [stop] else input

theorem Input.afterNumeral_blank {blank : Token} (hblank : blank.cat = .space) (input : Input) :
    input.afterNumeral blank = input := by
  simp [afterNumeral, hblank]

section Numerals

variable {radix : Nat} {e : Engine} {rest : Input} {stop blank : Token}

theorem digitOf?_blank (hblank : blank.cat = .space) (radix : Nat) : digitOf? blank radix = none := by
  simp [digitOf?, hblank, Token.isCode]

theorem numeralStep_digit (hradix : radix ≤ 16) (d : DigitToken radix) {n : Numeral} {v : Nat} (hn : n.Holds v) {t : Token}
    {input : Input} (ht : e.context.Unexpandable t) (hpull : e.input.pull e.context.lexicon = (.token t, input)) :
    Runs (numeralStep · radix (n, d.token)) e (.again (Numeral.of (v * radix + d.value), t)) (e.withInput input) := by
  have hnext := nextExpanded_runs hpull ht
  simp only [numeralStep, d.isDigit, hn.push hradix d.value_lt]
  exact Runs.bind hnext.lift (Runs.of_eq fun m => rfl)

theorem numeralStep_stop (hstop : digitOf? stop radix = none) (n : Numeral) :
    Runs (numeralStep · radix (n, stop)) e (.done n) (e.withInput (e.input.afterNumeral stop)) := by
  refine Runs.of_eq fun m => ?_
  simp only [numeralStep, hstop, Input.afterNumeral]
  split <;> rfl

theorem numeralDigits_loops_of {mid : Input} (hradix : radix ≤ 16)
    (hlast : ∀ (d : DigitToken radix) {n : Numeral} {v : Nat}, n.Holds v →
      Loops (numeralStep · radix) (n, d.token) (e.withInput mid) (Numeral.of (v * radix + d.value)) (e.withInput rest))
    (d : DigitToken radix) (ds : List (DigitToken radix)) {n : Numeral} {v : Nat} (hn : n.Holds v)
    (hinput : e.input.Delivers e.context.lexicon (ds.map DigitToken.token) mid) :
    Loops (numeralStep · radix) (n, d.token) e (Numeral.of (DigitToken.append v (d :: ds))) (e.withInput rest) := by
  induction ds generalizing n v d e with
  | nil =>
    obtain rfl : e.input = mid := hinput
    exact hlast d hn
  | cons d' ds ih =>
    obtain ⟨input, hpull, hinput⟩ := hinput
    refine Loops.again (numeralStep_digit hradix d hn (e.context.unexpandable_of_not_isCode d'.isCode_eq) hpull) ?_
    exact ih (e := e.withInput input) hlast d' (Numeral.of_holds _) hinput

theorem numeralDigits_loops (hradix : radix ≤ 16) (hstop : digitOf? stop radix = none) (hplain : e.context.Unexpandable stop)
    (d : DigitToken radix) (ds : List (DigitToken radix)) {n : Numeral} {v : Nat} (hn : n.Holds v)
    (hinput : e.input.Delivers e.context.lexicon (ds.map DigitToken.token ++ [stop]) rest) :
    Loops (numeralStep · radix) (n, d.token) e (Numeral.of (DigitToken.append v (d :: ds)))
      (e.withInput (rest.afterNumeral stop)) := by
  obtain ⟨mid, hdigits, input, hpull, rfl⟩ := Input.delivers_append.1 hinput
  refine numeralDigits_loops_of hradix (fun d _ _ hn => ?_) d ds hn hdigits
  exact Loops.again (numeralStep_digit (e := e.withInput mid) hradix d hn hplain hpull) (Loops.done (numeralStep_stop hstop _))

theorem numeralDigits_runs (hradix : radix ≤ 16) (hstop : digitOf? stop radix = none) (hplain : e.context.Unexpandable stop)
    (d : DigitToken radix) (ds : List (DigitToken radix))
    (hinput : e.input.Delivers e.context.lexicon (ds.map DigitToken.token ++ [stop]) rest) :
    Runs (numeralDigits · radix d.token) e (Numeral.of (DigitToken.append 0 (d :: ds)))
      (e.withInput (rest.afterNumeral stop)) :=
  Loops.runs (numeralDigits_loops hradix hstop hplain d ds ⟨rfl, rfl⟩ hinput)

/-- A numeral whose first digit has been read is scanned. -/
theorem digits_some_runs (hradix : radix ≤ 16) (hstop : digitOf? stop radix = none) (hplain : e.context.Unexpandable stop)
    (d : DigitToken radix) (ds : List (DigitToken radix)) (hrange : DigitToken.append 0 (d :: ds) ≤ 2147483647)
    (hinput : e.input.Delivers e.context.lexicon (ds.map DigitToken.token ++ [stop]) rest) :
    Runs (digits · radix (some d.token)) e (Int64.ofNat (DigitToken.append 0 (d :: ds)))
      (e.withInput (rest.afterNumeral stop)) := by
  refine Runs.bind (a := some d.token) (Runs.of_eq fun m => rfl) ?_
  have hdigits := numeralDigits_runs hradix hstop hplain d ds hinput
  rw [Numeral.of_inRange hrange] at hdigits
  exact Runs.bind (Runs.lift hdigits) (Runs.of_eq fun m => rfl)

theorem digits_none_runs (hradix : radix ≤ 16) (hblank : blank.cat = .space) (d : DigitToken radix) (ds : List (DigitToken radix))
    (hrange : DigitToken.append 0 (d :: ds) ≤ 2147483647)
    (hinput : e.input.Delivers e.context.lexicon ((d :: ds).map DigitToken.token ++ [blank]) rest) :
    Runs (digits · radix none) e (Int64.ofNat (DigitToken.append 0 (d :: ds))) (e.withInput rest) := by
  obtain ⟨input, hpull, hinput⟩ := hinput
  have hfirst := nextExpanded_runs hpull (e.context.unexpandable_of_not_isCode d.isCode_eq)
  refine Runs.bind (Runs.lift hfirst) ?_
  have hdigits := numeralDigits_runs (e := e.withInput input) hradix (digitOf?_blank hblank radix)
    (e.context.unexpandable_of_space hblank) d ds hinput
  rw [Input.afterNumeral_blank hblank, Numeral.of_inRange hrange] at hdigits
  exact Runs.bind (Runs.lift hdigits) (Runs.of_eq fun m => rfl)

end Numerals

/-! ## Constants -/

/-- An integer constant without its signs. -/
inductive Magnitude where
  | decimal (first : DigitToken 10) (more : List (DigitToken 10))
  | octal (mark : Token) (isMark : mark.isOther Text.singleQuote) (first : DigitToken 8) (more : List (DigitToken 8))
  | hexadecimal (mark : Token) (isMark : mark.isOther '\"') (first : DigitToken 16) (more : List (DigitToken 16))
  /-- A character, or a control sequence of a single character, stands for its code. -/
  | character (mark : Token) (isMark : mark.isOther characterMark) (t : Token)
      (isSingle : t.isControlSequence → t.isControlSymbol)

namespace Magnitude

def first : Magnitude → Token
  | decimal first _ => first.token
  | octal mark _ _ _ => mark
  | hexadecimal mark _ _ _ => mark
  | character mark _ _ _ => mark

def others : Magnitude → List Token
  | decimal _ more => more.map DigitToken.token
  | octal _ _ first more => (first :: more).map DigitToken.token
  | hexadecimal _ _ first more => (first :: more).map DigitToken.token
  | character _ _ t _ => [t]

def value : Magnitude → Nat
  | decimal first more => DigitToken.append 0 (first :: more)
  | octal _ _ first more => DigitToken.append 0 (first :: more)
  | hexadecimal _ _ first more => DigitToken.append 0 (first :: more)
  | character _ _ t _ => t.char.toNat

end Magnitude

/-- A sign, with the spaces in front of it. -/
structure SignToken where
  blanks : List Token
  token : Token
  areBlanks : ∀ b ∈ blanks, b.cat = .space
  isSign : token.isOther '-' ∨ token.isOther '+'

/-- An integer constant in range. -/
structure IntegerConstant where
  signs : List SignToken
  /-- The spaces after the signs. -/
  blanks : List Token
  magnitude : Magnitude
  areBlanks : ∀ b ∈ blanks, b.cat = .space
  inRange : magnitude.value ≤ 2147483647

def SignToken.tokens (s : SignToken) : List Token := s.blanks ++ [s.token]

namespace IntegerConstant

def tokens (n : IntegerConstant) : List Token :=
  n.signs.flatMap SignToken.tokens ++ (n.blanks ++ [n.magnitude.first]) ++ n.magnitude.others

/-- The constant is negative: there is an odd number of minus signs. -/
def isNegative (n : IntegerConstant) : Bool := n.signs.countP (·.token.isOther '-') % 2 == 1

def value (n : IntegerConstant) : Int := if n.isNegative then -n.magnitude.value else n.magnitude.value

end IntegerConstant

/-! ## Scanning constants -/

section Scanning

variable {e : Engine} {rest : Input} {blank t : Token}

theorem Token.isOther_iff {t : Token} {c : Char} : t.isOther c = true ↔ t.cat = .other ∧ t.char = c := by
  simp [isOther]

theorem Token.isCode_of_other {t : Token} (h : t.cat = .other) : t.isCode = false := by simp [isCode, h]

theorem DigitToken.decimal_cat (d : DigitToken 10) :
    d.token.cat = .other ∧ '0' ≤ d.token.char ∧ d.token.char ≤ '9' := by
  have h := d.isDigit
  simp only [digitOf?, d.isCode_eq, Bool.false_eq_true, if_false] at h
  split at h
  · simp_all
  · simp at h

theorem digitOf?_decimal (hcode : t.isCode = false) : digitOf? t 10 =
    if t.cat = .other && '0' ≤ t.char && t.char ≤ '9' then some (Text.digitValue t.char) else none := by
  have hradix : (10 == 16) = false := rfl
  simp only [digitOf?, hcode, hradix, Bool.false_and, Bool.false_eq_true, if_false]
  split
  · rename_i hdigit
    simp only [Bool.and_eq_true, decide_eq_true_eq] at hdigit
    have hhigh : t.char.toNat ≤ 57 := UInt32.le_iff_toNat_le.1 (Char.le_def.1 hdigit.2)
    have hvalue : Text.digitValue t.char < 10 := by
      unfold Text.digitValue
      omega
    exact Option.filter_eq_some_iff.2 ⟨rfl, by simpa using hvalue⟩
  · rfl

theorem Magnitude.first_cat (g : Magnitude) : g.first.cat = .other := by
  cases g with
  | decimal d more => exact d.decimal_cat.1
  | octal mark isMark d more => exact (Token.isOther_iff.1 isMark).1
  | hexadecimal mark isMark d more => exact (Token.isOther_iff.1 isMark).1
  | character mark isMark t isSingle => exact (Token.isOther_iff.1 isMark).1

theorem Magnitude.first_not_sign (g : Magnitude) {c : Char} (hc : c = '-' ∨ c = '+') : g.first.isOther c = false := by
  rcases h : g.first.isOther c with _ | _
  · rfl
  · have hchar : g.first.char = c := (Token.isOther_iff.1 h).2
    cases g with
    | decimal d more =>
      have hlow : '0' ≤ c := hchar ▸ d.decimal_cat.2.1
      rcases hc with rfl | rfl <;> exact absurd hlow (by decide)
    | octal mark isMark d more =>
      have hmark : Text.singleQuote = c := (Token.isOther_iff.1 isMark).2.symm.trans hchar
      rcases hc with rfl | rfl <;> exact absurd hmark (by decide)
    | hexadecimal mark isMark d more =>
      have hmark : '\"' = c := (Token.isOther_iff.1 isMark).2.symm.trans hchar
      rcases hc with rfl | rfl <;> exact absurd hmark (by decide)
    | character mark isMark t isSingle =>
      have hmark : characterMark = c := (Token.isOther_iff.1 isMark).2.symm.trans hchar
      rcases hc with rfl | rfl <;> exact absurd hmark (by decide)

theorem quantity?_character {β : Type} (m : Machine) (ht : t.isCode = false) :
    (quantity? m t : Proc β (Option Quantity)) e = .ok none e := by
  rw [quantity?, meaningOf_bind, e.context.meaning?_of_not_isCode ht]
  rfl

theorem internalInteger?_character (m : Machine) (ht : t.isCode = false) : internalInteger? m t e = .ok none e :=
  Proc.bind_ok (quantity?_character m ht)

theorem internalDimen?_character (m : Machine) (ht : t.isCode = false) : internalDimen? m t e = .ok none e :=
  Proc.bind_ok (quantity?_character m ht)

theorem optionalSpace_runs (hblank : blank.cat = .space)
    (hpull : e.input.pull e.context.lexicon = (.token blank, rest)) :
    Runs optionalSpace e () (e.withInput rest) := by
  have hnext := nextExpanded_runs hpull (e.context.unexpandable_of_space hblank)
  refine Runs.bind (Runs.lift hnext) (Runs.of_eq fun m => ?_)
  simp [hblank]

theorem characterConstant_runs (hblank : blank.cat = .space) (hsingle : t.isControlSequence → t.isControlSymbol)
    (hinput : e.input.Delivers e.context.lexicon [t, blank] rest) :
    Runs characterConstant e (Int64.ofNat t.char.toNat) (e.withInput rest) := by
  obtain ⟨input, hpull, input', hpull', rfl⟩ := hinput
  refine Runs.bind (Runs.lift (next_runs hpull)) ?_
  have hspace := optionalSpace_runs (e := e.withInput input) hblank hpull'
  have hplain : ¬ (t.isControlSequence = true ∧ t.isControlSymbol = false) := by grind
  simp only [Bool.and_eq_true, Bool.not_eq_eq_eq_not, Bool.not_true, hplain, if_false]
  exact Runs.bind (Runs.giving hspace _) (Runs.of_eq fun m => rfl)

theorem unsignedNumber_decimal (m : Machine) (d : DigitToken 10) (e : Engine) :
    unsignedNumber m d.token e = digits m 10 (some d.token) e := by
  obtain ⟨hcat, hlow, hhigh⟩ := d.decimal_cat
  have hmarks : ∀ c : Char, c < '0' ∨ '9' < c → d.token.isOther c = false := by
    intro c hc
    rcases h : d.token.isOther c with _ | _
    · rfl
    · rw [Token.isOther_iff] at h
      obtain ⟨-, rfl⟩ := h
      grind
  have hcharacter : d.token.isOther characterMark = false := hmarks _ (by decide)
  have hquote : d.token.isOther Text.singleQuote = false := hmarks _ (by decide)
  have hdouble : d.token.isOther '\"' = false := hmarks _ (by decide)
  rw [unsignedNumber, Proc.bind_ok (internalInteger?_character m d.isCode_eq)]
  simp only [hcharacter, hquote, hdouble, hcat, hlow, hhigh, Bool.false_eq_true, if_false, decide_true, Bool.and_self,
    if_true]

theorem unsignedNumber_octal (m : Machine) (hmark : t.isOther Text.singleQuote = true) (e : Engine) :
    unsignedNumber m t e = digits m 8 none e := by
  obtain ⟨hcat, hchar⟩ := Token.isOther_iff.1 hmark
  have hcharacter : t.isOther characterMark = false := by
    rw [Token.isOther, hchar]
    simp [characterMark, Text.singleQuote]
  rw [unsignedNumber, Proc.bind_ok (internalInteger?_character m (Token.isCode_of_other hcat))]
  simp only [hcharacter, hmark, Bool.false_eq_true, if_false, if_true]

/-- A number after a double quote is a hexadecimal numeral. -/
theorem unsignedNumber_hexadecimal (m : Machine) (hmark : t.isOther '\"' = true) (e : Engine) :
    unsignedNumber m t e = digits m 16 none e := by
  obtain ⟨hcat, hchar⟩ := Token.isOther_iff.1 hmark
  have hothers : ∀ c : Char, c ≠ '\"' → t.isOther c = false := by
    intro c hc
    rw [Token.isOther, hchar]
    simp [hc.symm]
  have hcharacter : t.isOther characterMark = false := hothers _ (by decide)
  have hquote : t.isOther Text.singleQuote = false := hothers _ (by decide)
  rw [unsignedNumber, Proc.bind_ok (internalInteger?_character m (Token.isCode_of_other hcat))]
  simp only [hcharacter, hquote, hmark, Bool.false_eq_true, if_false, if_true]

theorem unsignedNumber_runs (g : Magnitude) (hrange : g.value ≤ 2147483647) (hblank : blank.cat = .space)
    (hinput : e.input.Delivers e.context.lexicon (g.others ++ [blank]) rest) :
    Runs (unsignedNumber · g.first) e (Int64.ofNat g.value) (e.withInput rest) := by
  have hcode : g.first.isCode = false := Token.isCode_of_other g.first_cat
  cases g with
  | decimal d more =>
    have hdigits := digits_some_runs (by decide) (digitOf?_blank hblank 10) (e.context.unexpandable_of_space hblank) d more
      hrange hinput
    rw [Input.afterNumeral_blank hblank] at hdigits
    exact hdigits.congr fun m => unsignedNumber_decimal m d e
  | octal mark isMark d more =>
    exact (digits_none_runs (by decide) hblank d more hrange hinput).congr fun m => unsignedNumber_octal m isMark e
  | hexadecimal mark isMark d more =>
    exact (digits_none_runs (by decide) hblank d more hrange hinput).congr fun m => unsignedNumber_hexadecimal m isMark e
  | character mark isMark t isSingle =>
    refine Runs.bind (Runs.of_eq fun m => internalInteger?_character m hcode) ?_
    simp only [Magnitude.first, isMark, if_true]
    exact characterConstant_runs hblank isSingle hinput

/-- A minus sign in front changes the parity of the number of minus signs. -/
theorem SignToken.odd_cons (s : SignToken) (signs : List SignToken) :
    ((s :: signs).countP (·.token.isOther '-') % 2 == 1) =
      (s.token.isOther '-' ^^ (signs.countP (·.token.isOther '-') % 2 == 1)) := by
  rw [List.countP_cons]
  generalize signs.countP (·.token.isOther '-') = k
  rcases s.token.isOther '-' with _ | _
  · simp
  · rcases Nat.mod_two_eq_zero_or_one k with h | h
    · simp [h, show (k + 1) % 2 = 1 by omega]
    · simp [h, show (k + 1) % 2 = 0 by omega]

theorem signs_loops (signs : List SignToken) {blanks : List Token} (hblanks : ∀ b ∈ blanks, b.cat = .space)
    (hcat : t.cat ≠ .space) (ht : e.context.Unexpandable t) (hminus : t.isOther '-' = false)
    (hplus : t.isOther '+' = false) (negative : Bool)
    (hinput : e.input.Delivers e.context.lexicon (signs.flatMap SignToken.tokens ++ (blanks ++ [t])) rest) :
    Loops signStep negative e (negative ^^ (signs.countP (·.token.isOther '-') % 2 == 1), some t)
      (e.withInput rest) := by
  induction signs generalizing negative e with
  | nil =>
    have hnext := nonBlank_runs hblanks hinput hcat ht
    refine Loops.done (Runs.bind (Runs.lift hnext) (Runs.of_eq fun m => ?_))
    simp [hminus, hplus]
  | cons s signs ih =>
    rw [List.flatMap_cons, List.append_assoc, Input.delivers_append] at hinput
    obtain ⟨mid, hsign, hinput⟩ := hinput
    have hother : s.token.cat = .other := by
      rcases s.isSign with h | h <;> exact (Token.isOther_iff.1 h).1
    have hnext := nonBlank_runs s.areBlanks hsign (by simp [hother])
      (e.context.unexpandable_of_not_isCode (Token.isCode_of_other hother))
    have hstep : Runs (signStep · negative) e (.again (negative ^^ s.token.isOther '-')) (e.withInput mid) := by
      refine Runs.bind (Runs.lift hnext) (Runs.of_eq fun m => ?_)
      rcases hs : s.token.isOther '-' with _ | _
      · have hplus := s.isSign.resolve_left (by simp [hs])
        simp [hs, hplus]
      · simp [hs]
    have hrest := ih (e := e.withInput mid) ht (negative ^^ s.token.isOther '-') hinput
    rw [SignToken.odd_cons, ← Bool.xor_assoc]
    exact Loops.again hstep hrest

theorem signed_ofInt (negative : Bool) (v : Int) :
    signed negative (Int64.ofInt v) = Int64.ofInt (if negative then -v else v) := by
  cases negative with
  | false => rfl
  | true => exact (Int64.ofInt_neg v).symm

theorem signed_ofNat (negative : Bool) (v : Nat) :
    signed negative (Int64.ofNat v) = Int64.ofInt (if negative then -(v : Int) else v) := signed_ofInt negative v

/-- **An integer constant is scanned, with the space after it.** -/
theorem number_runs (n : IntegerConstant) (hblank : blank.cat = .space)
    (hinput : e.input.Delivers e.context.lexicon (n.tokens ++ [blank]) rest) :
    Runs Machine.number e (Int64.ofInt n.value) (e.withInput rest) := by
  rw [IntegerConstant.tokens, List.append_assoc, Input.delivers_append] at hinput
  obtain ⟨mid, hsigns, hinput⟩ := hinput
  have hcat := n.magnitude.first_cat
  have hcode := Token.isCode_of_other hcat
  have hloop := signs_loops n.signs n.areBlanks (by simp [hcat]) (e.context.unexpandable_of_not_isCode hcode)
    (n.magnitude.first_not_sign (.inl rfl)) (n.magnitude.first_not_sign (.inr rfl)) false hsigns
  rw [Bool.false_xor] at hloop
  refine Runs.number (Runs.bind (Runs.lift hloop.runs) ?_)
  have hunsigned := unsignedNumber_runs (e := e.withInput mid) n.magnitude n.inRange hblank hinput
  have hvalue : Int64.ofInt n.value = signed n.isNegative (Int64.ofNat n.magnitude.value) :=
    (signed_ofNat _ _).symm
  rw [hvalue]
  exact Runs.mapBoth hunsigned (signed n.isNegative)

theorem IntegerConstant.toInt_value (n : IntegerConstant) : (Int64.ofInt n.value).toInt = n.value := by
  have hrange := n.inRange
  refine Int64.toInt_ofInt_of_le ?_ ?_
  · unfold value
    split <;> omega
  · unfold value
    split <;> omega

end Scanning

end Compositor
