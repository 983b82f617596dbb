import Compositor.Proofs.Engine.Printed

/-!
# Numerals of any length

An integer which is written in digits may have any number of them, in each of the three radices. The scanner stops counting
at the greatest integer, but it reads all digits: the value is the exact one, or the greatest integer in its place, which is
reported. Of what comes after the digits only a space is taken.

* `Context.PastNumeral` says what is left of an input after the digits of a numeral;
* `WrittenInteger` is a numeral with its signs, with its `tokens`, its `value` and its `problems`;
* `integers_scanned` says that these are scanned exactly, and that a printed integer is scanned again.
-/

namespace Compositor

variable {e : Engine} {mid rest : Input}

/-! ## Digits and what follows them -/

section Digits

variable {radix : Nat}

/-- What is left of an input after the digits of a numeral, which end there: a space is taken, any other token is put back.
It is no digit, and it has a name. -/
inductive Context.PastNumeral (c : Context) (radix : Nat) (input : Input) : Input → Prop where
  | space {b : Token} {rest : Input} (hgives : c.Gives input (some b) rest) (hcat : b.cat = .space) :
      PastNumeral c radix input rest
  | other {t : Token} {rest : Input} (hgives : c.Gives input (some t) rest) (hcat : t.cat ≠ .space) (hname : t.name ≠ "")
      (hdigit : digitOf? t radix = none) : PastNumeral c radix input (rest.pushTokens [t])
  | finished {rest : Input} (hgives : c.Gives input none rest) : PastNumeral c radix input rest

theorem numeralStep_last (hradix : radix ≤ 16) (d : DigitToken radix) {n : Numeral} {v : Nat} (hn : n.Holds v)
    (hpast : e.context.PastNumeral radix e.input rest) :
    Loops (numeralStep · radix) (n, d.token) e (Numeral.of (v * radix + d.value)) (e.withInput rest) := by
  have hmore : ∀ {t : Token} {input : Input}, e.context.Gives e.input (some t) input →
      Runs (numeralStep · radix (n, d.token)) e (.again (Numeral.of (v * radix + d.value), t)) (e.withInput input) := by
    intro t input hgives
    simp only [numeralStep, d.isDigit, hn.push hradix d.value_lt]
    exact (hgives e rfl).lift.bind (.of_eq fun _ => rfl)
  cases hpast with
  | @space b rest hgives hcat =>
    have hstop := numeralStep_stop (e := e.withInput rest) (digitOf?_blank hcat radix) (Numeral.of (v * radix + d.value))
    rw [Input.afterNumeral_blank hcat] at hstop
    exact .again (hmore hgives) (.done hstop)
  | @other t rest hgives hcat hname hnone =>
    have hstop := numeralStep_stop (e := e.withInput rest) hnone (Numeral.of (v * radix + d.value))
    have hback : rest.afterNumeral t = rest.pushTokens [t] := by simp [Input.afterNumeral, hname, hcat]
    rw [Engine.withInput_input, hback] at hstop
    exact .again (hmore hgives) (.done hstop)
  | finished hgives =>
    refine .done ?_
    simp only [numeralStep, d.isDigit, hn.push hradix d.value_lt]
    exact (hgives e rfl).lift.bind (.of_eq fun _ => rfl)

/-- **A numeral whose first digit has been read is scanned.** One which is too big is reported and cut. -/
theorem digits_some_recovers (hradix : radix ≤ 16) (d : DigitToken radix) (ds : List (DigitToken radix))
    (hpast : e.context.PastNumeral radix mid rest)
    (he : e.Bears (Kind.numberTooBig.above 2147483647 (DigitToken.append 0 (d :: ds))).length) :
    Recovers e (digits · radix (some d.token)) (ds.map DigitToken.token) mid
      (Int64.ofNat (min (DigitToken.append 0 (d :: ds)) 2147483647))
      (Kind.numberTooBig.above 2147483647 (DigitToken.append 0 (d :: ds))) [] rest := by
  have hdigits : Recovers e (numeralDigits · radix d.token) (ds.map DigitToken.token) mid
      (Numeral.of (DigitToken.append 0 (d :: ds))) [] [] rest := by
    intro input hinput
    have hloops := numeralDigits_loops_of (e := e.withInput input) hradix
      (fun d _ _ hn => numeralStep_last (e := e.withInput mid) hradix d hn hpast) d ds (n := {}) (v := 0) ⟨rfl, rfl⟩ hinput
    exact ⟨e, rest, hloops.runs, .nil e, rfl⟩
  exact digits_recovers hdigits he

/-- The first digit is read after the mark of the radix. -/
theorem digits_none_recovers (hradix : radix ≤ 16) (d : DigitToken radix) (ds : List (DigitToken radix))
    (hpast : e.context.PastNumeral radix mid rest)
    (he : e.Bears (Kind.numberTooBig.above 2147483647 (DigitToken.append 0 (d :: ds))).length) :
    Recovers e (digits · radix none) ((d :: ds).map DigitToken.token) mid
      (Int64.ofNat (min (DigitToken.append 0 (d :: ds)) 2147483647))
      (Kind.numberTooBig.above 2147483647 (DigitToken.append 0 (d :: ds))) [] rest :=
  (nextExpanded_parses (e.context.unexpandable_of_not_isCode d.isCode_eq)).lift.bind_proceeds
    (digits_some_recovers hradix d ds hpast he)

end Digits

/-! ## Integers in digits -/

namespace Magnitude

def isNumeral : Magnitude → Bool
  | character .. => false
  | _ => true

def radix : Magnitude → Nat
  | decimal .. | character .. => 10
  | octal .. => 8
  | hexadecimal .. => 16

end Magnitude

/-- **An unsigned number is scanned** by its mark. -/
theorem unsignedNumber_recovers_numeral (g : Magnitude) (hg : g.isNumeral = true)
    (hpast : e.context.PastNumeral g.radix mid rest) (he : e.Bears (Kind.numberTooBig.above 2147483647 g.value).length) :
    Recovers e (unsignedNumber · g.first) g.others mid (Int64.ofNat (min g.value 2147483647))
      (Kind.numberTooBig.above 2147483647 g.value) [] rest := by
  cases g with
  | decimal d more => exact (digits_some_recovers (by decide) d more hpast he).congr fun m input => unsignedNumber_decimal m d _
  | octal mark isMark d more =>
    exact (digits_none_recovers (by decide) d more hpast he).congr fun m input => unsignedNumber_octal m isMark _
  | hexadecimal mark isMark d more =>
    exact (digits_none_recovers (by decide) d more hpast he).congr fun m input => unsignedNumber_hexadecimal m isMark _
  | character => cases hg

/-- An integer of any size, written in digits. -/
structure WrittenInteger where
  signs : List SignToken
  /-- The spaces after the signs. -/
  blanks : List Token
  magnitude : Magnitude
  areBlanks : ∀ b ∈ blanks, b.cat = .space
  isNumeral : magnitude.isNumeral = true

namespace WrittenInteger

def tokens (n : WrittenInteger) : List Token :=
  n.signs.flatMap SignToken.tokens ++ (n.blanks ++ n.magnitude.first :: n.magnitude.others)

/-- The integer is negative: there is an odd number of minus signs. -/
def isNegative (n : WrittenInteger) : Bool := n.signs.countP (·.token.isOther '-') % 2 == 1

/-- What an integer is scanned to. The greatest integer takes the place of those which are too big. -/
def value (n : WrittenInteger) : Int :=
  if n.isNegative then -(min n.magnitude.value 2147483647 : Nat) else (min n.magnitude.value 2147483647 : Nat)

def problems (n : WrittenInteger) : List Kind := Kind.numberTooBig.above 2147483647 n.magnitude.value

/-- **An integer is scanned**, and what follows it is left. -/
theorem number_recovers (n : WrittenInteger) (hpast : e.context.PastNumeral n.magnitude.radix mid rest)
    (he : e.Bears n.problems.length) :
    Recovers e number n.tokens mid (Int64.ofInt n.value) n.problems [] rest := by
  have hcat := n.magnitude.first_cat
  have hsigns : Parses e Compositor.signs n.tokens (n.isNegative, some n.magnitude.first) n.magnitude.others :=
    signs_parses n.signs n.blanks n.areBlanks (by simp [hcat])
      (e.context.unexpandable_of_not_isCode (Token.isCode_of_other hcat)) (n.magnitude.first_not_sign (.inl rfl))
      (n.magnitude.first_not_sign (.inr rfl))
  have hvalue : Int64.ofInt n.value = signed n.isNegative (Int64.ofNat (min n.magnitude.value 2147483647)) :=
    (signed_ofNat _ _).symm
  rw [hvalue]
  exact hsigns.lift.bind_proceeds ((unsignedNumber_recovers_numeral n.magnitude n.isNumeral hpast he).mapBoth _)

end WrittenInteger

/-! ## Printed integers -/

theorem toList_decimal (v : Int64) :
    (Text.decimal v).toList = (if v < 0 then ['-'] else []) ++ Nat.toDigits 10 v.toInt.natAbs := by
  have hneg : v < 0 ↔ v.toInt < 0 := Int64.lt_iff_toInt_lt
  simp only [hneg, Text.decimal]
  generalize v.toInt = i
  cases i with
  | ofNat k =>
    have hnonneg : ¬ Int.ofNat k < 0 := by simp
    rw [if_neg hnonneg]
    exact Nat.toList_repr
  | negSucc k =>
    have hnegative : Int.negSucc k < 0 := Int.negSucc_lt_zero k
    rw [if_pos hnegative]
    show ("-" ++ (k + 1).repr).toList = _
    rw [String.toList_append, Nat.toList_repr]
    rfl

theorem isDigit_of_mem_decimal {i : Int} {c : Char} (h : c ∈ Nat.toDigits 10 i.natAbs) : c.isDigit = true :=
  Nat.isDigit_of_mem_toDigits (b := 10) (by decide) (by decide) h

theorem otherTokens_decimal (v : Int64) :
    Token.otherTokens (Text.decimal v) =
      (if v < 0 then [.other '-'] else []) ++ (Nat.toDigits 10 v.toInt.natAbs).map Token.other := by
  have hchars : ∀ c ∈ (Text.decimal v).toList, c ≠ ' ' := by
    intro c hc
    rw [toList_decimal] at hc
    rcases List.mem_append.1 hc with hsign | hdigit
    · rintro rfl
      split at hsign <;> simp at hsign
    · exact isDigit_ne_blank (isDigit_of_mem_decimal hdigit)
  rw [Token.otherTokens_of_ne hchars, toList_decimal, List.map_append]
  split <;> rfl

theorem exists_written (v : Int64) (hv : v.toInt.natAbs ≤ 2147483647) :
    ∃ n : WrittenInteger, n.tokens = Token.otherTokens (Text.decimal v) ∧ n.magnitude.radix = 10 ∧ n.problems = [] ∧
      Int64.ofInt n.value = v := by
  obtain ⟨c, cs, hdigits⟩ := List.exists_cons_of_ne_nil (Nat.toDigits_ne_nil (n := v.toInt.natAbs) (b := 10))
  have hdigit : ∀ c' ∈ c :: cs, c'.isDigit = true := fun c' hc' => isDigit_of_mem_decimal (hdigits ▸ hc')
  obtain ⟨ds, htokens, happend⟩ := exists_digitTokens hdigit
  obtain ⟨d, more, rfl⟩ := List.exists_cons_of_ne_nil (l := ds) (by
    rintro rfl
    cases htokens)
  have hvalue : DigitToken.append 0 (d :: more) = v.toInt.natAbs := by
    rw [happend, ← hdigits, Nat.ofDigitChars_ten_toDigits]
  have hneg : v < 0 ↔ v.toInt < 0 := Int64.lt_iff_toInt_lt
  let n : WrittenInteger :=
    { signs := if v < 0 then [⟨[], .other '-', areBlanks_nil, isSign_minus⟩] else [], blanks := []
      magnitude := .decimal d more, areBlanks := areBlanks_nil, isNumeral := rfl }
  have hmagnitude : n.magnitude.value = v.toInt.natAbs := hvalue
  have hnegative : n.isNegative = (v < 0 : Bool) := by
    unfold WrittenInteger.isNegative
    by_cases hless : v < 0 <;> simp [n, hless, Token.isOther, Token.other_char, Token.other_cat]
  refine ⟨n, ?_, rfl, ?_, ?_⟩
  · rw [otherTokens_decimal, hdigits, ← htokens]
    by_cases hless : v < 0 <;>
      simp [n, WrittenInteger.tokens, hless, SignToken.tokens, Magnitude.first, Magnitude.others]
  · unfold WrittenInteger.problems
    rw [hmagnitude]
    exact if_neg (Nat.not_lt.2 hv)
  · have hint : n.value = v.toInt := by
      unfold WrittenInteger.value
      rw [hmagnitude, hnegative, Nat.min_eq_left hv]
      by_cases hless : v < 0
      · have := hneg.1 hless
        simp only [hless, decide_true, if_true]
        omega
      · have : ¬ v.toInt < 0 := fun h => hless (hneg.2 h)
        simp only [hless, decide_false, Bool.false_eq_true, if_false]
        omega
    rw [hint, Int64.ofInt_toInt]

/-! ## The main statement -/

/-- **Integers in digits are exact, and saturate.** An engine which bears the problems of an integer scans it to its value:
the exact one, or the greatest integer with its sign if it is too big, which is all that is reported. Nothing is left of the
integer, and of what follows only a space is taken. So a printed integer is scanned again. -/
theorem integers_scanned :
    (∀ (n : WrittenInteger) (e : Engine) (input mid rest : Input), e.Bears n.problems.length →
      input.Delivers e.context.lexicon n.tokens mid → e.context.PastNumeral n.magnitude.radix mid rest →
        ∃ e', Runs Machine.number (e.withInput input) (Int64.ofInt n.value) (e'.withInput rest) ∧
          Engine.Reported n.problems e e') ∧
      ∀ (v : Int64) (e : Engine) (input mid rest : Input), v.toInt.natAbs ≤ 2147483647 →
        input.Delivers e.context.lexicon (Token.otherTokens (Text.decimal v)) mid → e.context.PastNumeral 10 mid rest →
          Runs Machine.number (e.withInput input) v (e.withInput rest) := by
  have hscan : ∀ (n : WrittenInteger) (e : Engine) (input mid rest : Input), e.Bears n.problems.length →
      input.Delivers e.context.lexicon n.tokens mid → e.context.PastNumeral n.magnitude.radix mid rest →
        ∃ e', Runs Machine.number (e.withInput input) (Int64.ofInt n.value) (e'.withInput rest) ∧
          Engine.Reported n.problems e e' := by
    intro n e input mid rest he hinput hpast
    obtain ⟨e', input', hruns, hreported, rfl⟩ := n.number_recovers hpast he input hinput
    exact ⟨e', hruns.number, hreported⟩
  refine ⟨hscan, fun v e input mid rest hv hinput hpast => ?_⟩
  obtain ⟨n, htokens, hradix, hproblems, hvalue⟩ := exists_written v hv
  have hnone : e.Bears n.problems.length := by
    rw [hproblems]
    trivial
  obtain ⟨e', hruns, hreported⟩ := hscan n e input mid rest hnone (htokens ▸ hinput) (hradix ▸ hpast)
  rw [hproblems] at hreported
  cases hreported
  rwa [hvalue] at hruns

theorem areBlanks_blank : ∀ b ∈ [Token.blank], b.cat = .space := List.forall_mem_singleton.2 rfl

/-- A hexadecimal integer which is too big, after two minus signs and another one. The digit `A` is a letter. -/
def WrittenInteger.sample : WrittenInteger where
  signs := [⟨[.blank], .other '-', areBlanks_blank, isSign_minus⟩, ⟨[], .other '-', areBlanks_nil, isSign_minus⟩,
    ⟨[], .other '-', areBlanks_nil, isSign_minus⟩]
  blanks := [.blank]
  magnitude := .hexadecimal (.other '\"') rfl ⟨.letter 'A', 10, rfl⟩ (List.replicate 9 ⟨.other 'F', 15, rfl⟩)
  areBlanks := areBlanks_blank
  isNumeral := rfl

/-- The integer is cut and reported in front of a control sequence, which is left. A printed one is scanned at the end of all
input. -/
theorem integers_scanned_sample :
    let e : Engine := Engine.new default {}
    let tokens : List Token := [.blank, .other '-', .other '-', .other '-', .blank, .other '\"', .letter 'A'] ++
      List.replicate 9 (.other 'F')
    let stop : Token := .controlSequence "x" ""
    (∃ e', Runs Machine.number (e.withInput (Input.pushTokens [] (tokens ++ [stop]))) (-2147483647)
        (e'.withInput (Input.pushTokens [] [stop])) ∧ Engine.Reported [.numberTooBig] e e') ∧
      Runs Machine.number (e.withInput (Input.pushTokens [] (Token.otherTokens "-2147483647"))) (-2147483647)
        (e.withInput []) := by
  intro e tokens stop
  obtain ⟨hscan, hprinted⟩ := integers_scanned
  have hbears : e.Bears 1 := by
    have hgoes : e.handler.GoesOn e.context := trivial
    refine hgoes.bears ?_
    show ((0 + 1 : Nat) : Int) ≤ 100
    omega
  obtain ⟨mid, htokens, hmid⟩ : ∃ mid, (Input.pushTokens [] (tokens ++ [stop])).Delivers e.context.lexicon tokens mid ∧
      mid.Delivers e.context.lexicon [stop] [] :=
    Input.delivers_append.1 (Input.delivers_pushTokens [] _)
  obtain ⟨input, hpull, rfl⟩ := hmid
  have hstop : e.context.PastNumeral 16 mid (Input.pushTokens [] [stop]) :=
    .other (Context.gives_token hpull (by decide +kernel)) (by decide) (by decide) (by decide)
  have hend : e.context.PastNumeral 10 [] [] := .finished (Context.gives_none rfl)
  have hproblems : WrittenInteger.sample.problems = [.numberTooBig] := by decide
  have hvalue : WrittenInteger.sample.value = -2147483647 := by decide
  have hlarge := hscan .sample e _ mid _ (hproblems ▸ hbears) htokens hstop
  rw [hvalue, hproblems] at hlarge
  exact ⟨hlarge, hprinted (-2147483647) e _ [] [] (by decide) (Input.delivers_pushTokens [] _) hend⟩

end Compositor
