import Compositor.Proofs.Engine.Dimensions

/-!
# Printed quantities

A dimension or a glue which has been printed can be scanned again: `printed_quantities_scanned`. The digits of the points
end at the decimal point and those of the fraction at the unit. The letters of the unit are put back and tried with one
keyword after the other, and a component of a glue ends with a blank which may be skipped by any of them. `Leaves` says
what may follow a component, so that each scanner leaves it to the next one.
-/

namespace Compositor

open Compositor.Measure

variable {e : Engine} {t : Token} {ts us : List Token}

/-! ## Factors -/

section Factors

theorem Token.other_char (c : Char) : (Token.other c).char = c := by
  simp [other, character, char]

theorem Token.other_cat (c : Char) : (Token.other c).cat = .other := rfl

theorem digitOf?_other {c : Char} (hc : c.isDigit = true) : digitOf? (.other c) 10 = some (Text.digitValue c) := by
  have hrange : 48 ≤ c.toNat ∧ c.toNat ≤ 57 := Char.isDigit_iff_toNat.1 hc
  have hlow : '0' ≤ c := Char.le_def.2 (UInt32.le_iff_toNat_le.2 hrange.1)
  have hhigh : c ≤ '9' := Char.le_def.2 (UInt32.le_iff_toNat_le.2 hrange.2)
  rw [digitOf?_decimal rfl, Token.other_char]
  simp [Token.other_cat, hlow, hhigh]

theorem exists_digitTokens {cs : List Char} (hcs : ∀ c ∈ cs, c.isDigit = true) :
    ∃ ds : List (DigitToken 10), ds.map DigitToken.token = cs.map Token.other ∧
      ∀ v, DigitToken.append v ds = Nat.ofDigitChars 10 cs v := by
  induction cs with
  | nil => exact ⟨[], rfl, fun _ => rfl⟩
  | cons c cs ih =>
    obtain ⟨hc, hcs⟩ := List.forall_mem_cons.1 hcs
    obtain ⟨ds, htokens, hvalue⟩ := ih hcs
    refine ⟨⟨.other c, Text.digitValue c, digitOf?_other hc⟩ :: ds, by simp [htokens], fun v => ?_⟩
    rw [Nat.ofDigitChars_cons, ← hvalue, Nat.mul_comm]
    rfl

theorem exists_decimalTokens {ds : List Nat} (hds : ∀ d ∈ ds, d < 10) :
    ∃ decimals : List (DigitToken 10), decimals.map DigitToken.token = (ds.map Nat.digitChar).map Token.other ∧
      decimals.map DigitToken.value = ds := by
  induction ds with
  | nil => exact ⟨[], rfl, rfl⟩
  | cons d ds ih =>
    obtain ⟨hd, hds⟩ := List.forall_mem_cons.1 hds
    obtain ⟨decimals, htokens, hvalues⟩ := ih hds
    have hdigit : digitOf? (.other d.digitChar) 10 = some d := by
      rw [digitOf?_other (by simpa [Nat.isDigit_digitChar] using hd)]
      exact congrArg some (Nat.toNat_digitChar_sub_48_of_lt_ten hd)
    exact ⟨⟨.other d.digitChar, d, hdigit⟩ :: decimals, by simp [htokens], by simp [hvalues]⟩

/-- **A number with a decimal point is scanned**, up to a token which ends it. -/
theorem factor_parses {w : Nat} {c : Char} {cs : List Char} (hdigits : Nat.toDigits 10 w = c :: cs) (hw : w ≤ 2147483647)
    {ds : List Nat} (hds : ∀ d ∈ ds, d < 10) (ht : e.context.EndsNumber t) (hpoint : isDecimalPoint t = false) :
    Parses e (factor · (.other c))
      (cs.map Token.other ++ .other '.' :: ((ds.map Nat.digitChar).map Token.other ++ t :: ts))
      (Int64.ofNat w, Int64.ofNat (roundDecimals ds)) (t :: ts) := by
  have hcs : ∀ c' ∈ c :: cs, c'.isDigit = true := by
    intro c' hc'
    exact Nat.isDigit_of_mem_toDigits (b := 10) (n := w) (by decide) (by decide) (hdigits ▸ hc')
  obtain ⟨whole, htokens, hvalue⟩ := exists_digitTokens hcs
  obtain ⟨d, more, rfl⟩ := List.exists_cons_of_ne_nil (l := whole) (by
    rintro rfl
    cases htokens)
  obtain ⟨hfirst, hmore⟩ := List.cons.inj htokens
  obtain ⟨decimals, hdecimals, hround⟩ := exists_decimalTokens hds
  -- the printed number is one of those which are scanned to an exact length
  let f : Factor := .mixed d more (.other '.') rfl decimals
  have hwhole : f.whole = w := by
    show DigitToken.append 0 (d :: more) = w
    rw [hvalue, ← hdigits, Nat.ofDigitChars_ten_toDigits]
  have hpart : f.part = roundDecimals ds := congrArg roundDecimals hround
  have hfactor := factor_parses_of_le (e := e) f [] ts (by simp) ht trivial hpoint (hwhole.trans_le hw)
  rw [hwhole, hpart] at hfactor
  simpa [f, Factor.first, Factor.others, hfirst, hmore, hdecimals] using hfactor

end Factors

/-! ## Units -/

/-- After a quantity come the token `t`, which does not belong to it, and the tokens `ts`, perhaps with a blank in
front. -/
structure Leaves (e : Engine) (us : List Token) (t : Token) (ts : List Token) : Prop where
  eq : us = t :: ts ∨ us = .blank :: t :: ts
  cat_ne : t.cat ≠ .space
  unexpandable : e.context.Unexpandable t
  spells_l : spells t 'l' = false

namespace Leaves

theorem of_controlSequence (hcat : t.cat = .escape) (ht : e.context.Unexpandable t) : Leaves e (t :: ts) t ts where
  eq := .inl rfl
  cat_ne := by simp [hcat]
  unexpandable := ht
  spells_l := by simp [spells, Token.isCode, hcat]

theorem of_word {c : Char} (hc : spells (.other c) 'l' = false) : Leaves e (.blank :: .other c :: ts) (.other c) ts where
  eq := .inr rfl
  cat_ne := by simp [Token.other_cat]
  unexpandable := e.context.unexpandable_of_not_isCode rfl
  spells_l := hc

theorem exists_blanks (h : Leaves e us t ts) :
    ∃ blanks : List Token, us = blanks ++ t :: ts ∧ (∀ b ∈ blanks, b = .blank) ∧ blanks.length ≤ 1 := by
  rcases h.eq with heq | heq
  · exact ⟨[], heq, by simp, by simp⟩
  · exact ⟨[.blank], heq, by simp, by simp⟩

theorem optionalSpace (h : Leaves e us t ts) : Parses e optionalSpace us () (t :: ts) := by
  obtain ⟨blanks, rfl, hblanks, hlength⟩ := h.exists_blanks
  exact optionalSpace_parses (fun b hb => hblanks b hb ▸ rfl) hlength h.cat_ne h.unexpandable

theorem keyword (h : Leaves e us t ts) (word : String) {c : Char} {letters : List Char} (hword : word.toList = c :: letters)
    (hspace : spells .blank c = false) (hspells : spells t c = false) : Parses e (keyword · word) us false (t :: ts) := by
  obtain ⟨blanks, rfl, hblanks, -⟩ := h.exists_blanks
  exact keyword_parses_false word hword blanks hblanks hspace h.cat_ne h.unexpandable hspells

theorem tail (h : Leaves e us t ts) : Leaves e (t :: ts) t ts := { h with eq := .inl rfl }

end Leaves

section Units

variable {whole part : Int64}

theorem keyword_parses_other (word : String) {c c' : Char} {letters : List Char} (hword : word.toList = c :: letters)
    (hspells : spells (.other c') c = false) (hspace : spells .blank c = false) :
    Parses e (keyword · word) (.other c' :: ts) false (.other c' :: ts) :=
  keyword_parses_false word hword [] (by simp) hspace (by simp [Token.other_cat])
    (e.context.unexpandable_of_not_isCode rfl) hspells

/-- What is left without a space delivers the tokens which do not belong to the quantity. -/
theorem Leaves.exists_pastSpace (h : Leaves e us t ts) {mid rest : Input} (hmid : mid.Delivers e.context.lexicon us rest) :
    ∃ left, e.context.PastSpace mid left ∧ left.Delivers e.context.lexicon (t :: ts) rest := by
  rcases h.eq with rfl | rfl
  · obtain ⟨left, hpull, hleft⟩ := hmid
    have hback : (left.pushTokens [t]).Delivers e.context.lexicon ([t] ++ ts) rest :=
      Input.delivers_append.2 ⟨left, left.delivers_pushTokens [t], hleft⟩
    exact ⟨_, .other (Context.gives_token hpull h.unexpandable) h.cat_ne, hback⟩
  · obtain ⟨left, hpull, hleft⟩ := hmid
    exact ⟨left, .space (Context.gives_token hpull (e.context.unexpandable_of_not_isCode rfl)) rfl, hleft⟩

/-- Points are scanned after the other units have been tried. -/
theorem finiteUnit_parses (h : Leaves e us t ts) :
    Parses e (finiteUnit · whole part) (.other 'p' :: .other 't' :: us) (LengthUnit.pt.scale whole part) (t :: ts) := by
  intro input rest hinput
  rw [← List.nil_append us, ← List.cons_append, ← List.cons_append, Input.delivers_append] at hinput
  obtain ⟨mid, hunit, hus⟩ := hinput
  obtain ⟨left, hpast, hleft⟩ := h.exists_pastSpace hus
  have hscan : Recovers e (finiteUnit · whole part) [.other 'p', .other 't'] mid (LengthUnit.pt.scale whole part) [] []
      left :=
    finiteUnit_recovers whole part (by decide) (spelled_other "pt".toList) (by decide) (List.forall_mem_nil _) hpast
  obtain ⟨e', input', hruns, hreported, rfl⟩ := hscan input hunit
  cases hreported
  exact ⟨input', hruns, hleft⟩

/-- The further letters of an infinite order are scanned. When fewer are there than might be, the blank after them is
skipped in the search for another one. -/
theorem orderFrom_parses (h : Leaves e us t ts) {k n : Nat} (hk : k ≤ n) (order : Order) :
    ∃ left, Parses e (orderFrom · n order) (List.replicate k (.other 'l') ++ us) ⟨order.rank + k⟩ left ∧
      Leaves e left t ts := by
  have hnone : ∀ order : Order, (⟨order.rank + (0 : Nat)⟩ : Order) = order := by simp
  induction n generalizing k order with
  | zero =>
    obtain rfl : k = 0 := Nat.le_zero.1 hk
    rw [hnone]
    exact ⟨us, .pure order, h⟩
  | succ n ih =>
    cases k with
    | zero =>
      refine ⟨t :: ts, ?_, h.tail⟩
      rw [hnone]
      exact (h.keyword "l" rfl (by decide) h.spells_l).lift.bind (.pure order)
    | succ k =>
      obtain ⟨left, hmore, hleft⟩ := ih (Nat.le_of_succ_le_succ hk) order.next
      refine ⟨left, ?_, hleft⟩
      have hrank : order.rank + ((k + 1 : Nat) : Int) = order.next.rank + k := by
        simp only [Order.next]
        omega
      rw [hrank]
      have hletter : Parses e (keyword · "l") (List.replicate (k + 1) (.other 'l') ++ us) true
          (List.replicate k (.other 'l') ++ us) :=
        keyword_parses "l"
      exact hletter.lift.bind hmore

theorem infiniteUnit_parses (h : Leaves e us t ts) {k : Nat} (hk : k ≤ 2) :
    Parses e (lengthUnit · whole part true) ("fil".toList.map Token.other ++ (List.replicate k (.other 'l') ++ us))
      ⟨LengthUnit.pt.scale whole part, ⟨1 + k⟩⟩ (t :: ts) := by
  obtain ⟨left, horder, hleft⟩ := orderFrom_parses h hk .fil
  exact (keyword_parses "fil").lift.bind (horder.bind (hleft.optionalSpace.bind (.pure _)))

/-- **The unit of a printed length is scanned**, with the blank after it. -/
theorem lengthUnit_parses {o : Order} {infinite : Bool} (h : Leaves e us t ts)
    (ho : o = .finite ∨ infinite = true ∧ (o = .fil ∨ o = .fill ∨ o = .filll)) :
    Parses e (lengthUnit · whole part infinite) (o.name.toList.map Token.other ++ us) ⟨LengthUnit.pt.scale whole part, o⟩
      (t :: ts) := by
  rcases ho with rfl | ⟨rfl, rfl | rfl | rfl⟩
  · have hfinite : Parses e (fun m => do return (⟨← finiteUnit m whole part, .finite⟩ : Flex))
        (.other 'p' :: .other 't' :: us) ⟨LengthUnit.pt.scale whole part, .finite⟩ (t :: ts) :=
      (finiteUnit_parses h).bind (.pure _)
    cases infinite with
    | false => exact hfinite
    | true =>
      have hfil : Parses e (keyword · "fil") (.other 'p' :: .other 't' :: us) false (.other 'p' :: .other 't' :: us) :=
        keyword_parses_other "fil" rfl (by decide) (by decide)
      exact hfil.lift.bind hfinite
  · exact infiniteUnit_parses (k := 0) h (by decide)
  · exact infiniteUnit_parses (k := 1) h (by decide)
  · exact infiniteUnit_parses (k := 2) h (by decide)

end Units

/-! ## Lengths -/

section Lengths

theorem Token.otherTokens_append (s s' : String) : otherTokens (s ++ s') = otherTokens s ++ otherTokens s' := by
  simp [otherTokens]

theorem Token.otherTokens_of_ne {s : String} (h : ∀ c ∈ s.toList, c ≠ ' ') : otherTokens s = s.toList.map other := by
  refine List.map_congr_left fun c hc => ?_
  simp [h c hc]

theorem Token.otherTokens_pt : otherTokens "pt" = "pt".toList.map other := otherTokens_of_ne (by simp)

theorem isDigit_ne_blank {c : Char} (hc : c.isDigit = true) : c ≠ ' ' := by
  rintro rfl
  cases hc

/-- The tokens of a length without its sign, where `c` and `cs` are the digits of the points. -/
def lengthTokens (cs : List Char) (n : Nat) : List Token :=
  cs.map Token.other ++ .other '.' :: ((digitsOfFraction (n % unity)).map Nat.digitChar).map Token.other

theorem otherTokens_formatScaled {s : Int64} (hs : s.toInt.natAbs ≤ 1073741823) :
    Token.otherTokens (formatScaled s) = (if s < 0 then [.other '-'] else []) ++
      lengthTokens (Nat.toDigits 10 (s.toInt.natAbs / unity)) s.toInt.natAbs := by
  have hlt := digitsOfFraction_lt (Nat.mod_lt s.toInt.natAbs (by decide : 0 < unity))
  have hchars : ∀ c ∈ (formatScaled s).toList, c ≠ ' ' := by
    intro c hc
    rw [toList_formatScaled (Nat.lt_of_le_of_lt hs (by decide : 1073741823 < Text.signedCount))] at hc
    simp only [List.append_assoc, List.mem_append, List.mem_cons, List.mem_map] at hc
    rcases hc with hc | hc | rfl | ⟨d, hd, rfl⟩
    · split at hc
      · simp_all
      · simp at hc
    · exact isDigit_ne_blank (Nat.isDigit_of_mem_toDigits (by decide) (by decide) hc)
    · decide
    · exact isDigit_ne_blank (by simpa [Nat.isDigit_digitChar] using hlt d hd)
  rw [Token.otherTokens_of_ne hchars, toList_formatScaled (Nat.lt_of_le_of_lt hs (by decide : 1073741823 < Text.signedCount))]
  simp only [lengthTokens, List.map_append, List.map_cons, List.append_assoc]
  split <;> rfl

theorem scale_pt (n : Nat) :
    LengthUnit.pt.scale (Int64.ofNat (n / unity)) (Int64.ofNat (n % unity)) = Int64.ofNat n := by
  have hsum : n / unity * 65536 + n % unity = n := Nat.div_add_mod' n unity
  calc LengthUnit.pt.scale (Int64.ofNat (n / unity)) (Int64.ofNat (n % unity))
      = (Int64.ofNat (n / unity) * Int64.ofNat 65536 + Int64.ofNat (n % unity)) * 1 / 1 := rfl
    _ = Int64.ofNat n := by rw [Int64.div_one, Int64.mul_one, ← Int64.ofNat_mul, ← Int64.ofNat_add, hsum]

theorem Measure.Order.name_cons (o : Order) : ∃ c cs, o.name.toList = c :: cs ∧ (c = 'p' ∨ c = 'f') := by
  unfold Order.name
  split
  · exact ⟨'f', ['i', 'l'], rfl, .inr rfl⟩
  · exact ⟨'f', ['i', 'l', 'l'], rfl, .inr rfl⟩
  · exact ⟨'f', ['i', 'l', 'l', 'l'], rfl, .inr rfl⟩
  · exact ⟨'p', ['t'], rfl, .inl rfl⟩

/-- **A printed length is scanned after its sign**, with the blank after it. -/
theorem lengthFrom_parses {n : Nat} {c : Char} {cs : List Char} {o : Order} (infinite : Bool) (hn : n ≤ 1073741823)
    (hdigits : Nat.toDigits 10 (n / unity) = c :: cs) (h : Leaves e us t ts)
    (ho : o = .finite ∨ infinite = true ∧ (o = .fil ∨ o = .fill ∨ o = .filll)) (negative : Bool) :
    Parses e (lengthFrom · negative (.other c) infinite) (lengthTokens cs n ++ (o.name.toList.map Token.other ++ us))
      ⟨signed negative (Int64.ofNat n), o⟩ (t :: ts) := by
  obtain ⟨c', cs', hname, hc'⟩ := o.name_cons
  have hmod : n % unity < unity := Nat.mod_lt n (by decide)
  have hwhole : n / unity ≤ 2147483647 := (Nat.div_le_self n unity).trans (by omega)
  obtain ⟨hends, -, hpoint⟩ : e.context.EndsNumber (.other c') ∧ (Token.other c').name ≠ "" ∧ isDecimalPoint (.other c') = false := by
    rcases hc' with rfl | rfl <;>
      exact Token.endsNumber_of_letter e.context (by decide) (spells_other _) (by decide)
  have hfactor : Parses e (factor · (.other c)) (lengthTokens cs n ++ (.other c' :: (cs'.map Token.other ++ us)))
      (Int64.ofNat (n / unity), Int64.ofNat (roundDecimals (digitsOfFraction (n % unity))))
      (.other c' :: (cs'.map Token.other ++ us)) := by
    rw [lengthTokens, List.append_assoc, List.cons_append]
    exact factor_parses hdigits hwhole (digitsOfFraction_lt hmod) hends hpoint
  rw [roundDecimals_digitsOfFraction hmod] at hfactor
  have hunit : Parses e (lengthUnit · (Int64.ofNat (n / unity)) (Int64.ofNat (n % unity)) infinite)
      (.other c' :: (cs'.map Token.other ++ us)) ⟨Int64.ofNat n, o⟩ (t :: ts) := by
    rw [← scale_pt n, ← List.cons_append, ← List.map_cons, ← hname]
    exact lengthUnit_parses h ho
  have hinternal : Parses e (internalDimen? · (.other c)) (lengthTokens cs n ++ (o.name.toList.map Token.other ++ us)) none
      (lengthTokens cs n ++ (o.name.toList.map Token.other ++ us)) :=
    .of_eq fun m _ => internalDimen?_character m rfl
  refine (hinternal.leaving _).bind ?_
  rw [hname]
  refine hfactor.lift.bind ?_
  have hnonneg : ¬ Int64.ofNat (n / unity) < 0 := by
    rw [Int64.lt_iff_toInt_lt, Int64.toInt_ofNat_of_lt (by omega)]
    exact Int.not_lt.2 (Int.natCast_nonneg _)
  have hsmall : ¬ Int64.ofNat n > maxDimen := by
    rw [gt_iff_lt, Int64.lt_iff_toInt_lt, Int64.toInt_ofNat_of_lt (by omega)]
    have hmax : maxDimen.toInt = 1073741823 := rfl
    omega
  simp only [boundedLength, hnonneg, if_false]
  refine hunit.lift.bind ?_
  simp only [hsmall, if_false]
  exact .pure _

theorem signs_printed {s : Int64} {c : Char} {cs : List Char} (lead us : List Token) (hs : s.toInt.natAbs ≤ 1073741823)
    (hdigits : Nat.toDigits 10 (s.toInt.natAbs / unity) = c :: cs) (hlead : ∀ b ∈ lead, b.cat = .space) :
    Parses e signs (lead ++ (Token.otherTokens (formatScaled s) ++ us)) ((s < 0 : Bool), some (.other c))
      (lengthTokens cs s.toInt.natAbs ++ us) := by
  have hc : c.isDigit = true :=
    Nat.isDigit_of_mem_toDigits (b := 10) (n := s.toInt.natAbs / unity) (by decide) (by decide) (by simp [hdigits])
  have hsign : ∀ c' : Char, c'.isDigit = false → (Token.other c).isOther c' = false := by
    intro c' hc'
    have hne : c ≠ c' := by
      rintro rfl
      rw [hc] at hc'
      cases hc'
    simp [Token.isOther, Token.other_char, hne]
  have hparses : ∀ (read : List SignToken) (blanks : List Token), (∀ b ∈ blanks, b.cat = .space) →
      Parses e signs (read.flatMap SignToken.tokens ++ (blanks ++ .other c :: (lengthTokens cs s.toInt.natAbs ++ us)))
        (read.countP (·.token.isOther '-') % 2 == 1, some (.other c)) (lengthTokens cs s.toInt.natAbs ++ us) :=
    fun read blanks hblanks => signs_parses read blanks hblanks (by simp [Token.other_cat])
      (e.context.unexpandable_of_not_isCode rfl) (hsign '-' rfl) (hsign '+' rfl)
  rw [otherTokens_formatScaled hs, hdigits]
  by_cases hneg : s < 0
  · have hisMinus : (Token.other '-').isOther '-' = true := rfl
    have hminus := hparses [⟨lead, .other '-', hlead, .inl hisMinus⟩] [] (by simp)
    simpa [hneg, lengthTokens, SignToken.tokens, hisMinus] using hminus
  · have hplain := hparses [] lead hlead
    simpa [hneg, lengthTokens] using hplain

theorem signed_natAbs {s : Int64} (hs : s.toInt.natAbs ≤ 1073741823) :
    signed (s < 0 : Bool) (Int64.ofNat s.toInt.natAbs) = s := by
  rw [← magnitude_eq (Nat.lt_of_le_of_lt hs (by decide : 1073741823 < Text.signedCount))]
  by_cases hneg : s < 0
  · simp [signed, hneg]
  · simp [signed, hneg]

theorem natAbs_le_of_inRange {d : Dimen} (hlow : -maxDimen ≤ d) (hhigh : d ≤ maxDimen) :
    d.toInt.natAbs ≤ 1073741823 := by
  have hlow : -1073741823 ≤ d.toInt := Int64.le_iff_toInt_le.1 hlow
  have hhigh : d.toInt ≤ 1073741823 := Int64.le_iff_toInt_le.1 hhigh
  omega

/-- **A printed dimension is scanned**, with the blank after it. -/
theorem dimension_parses {d : Dimen} (hd : d.toInt.natAbs ≤ 1073741823) (h : Leaves e us t ts) :
    Parses e dimension (Token.otherTokens (Dimen.format d) ++ us) d (t :: ts) := by
  obtain ⟨c, cs, hdigits⟩ := List.exists_cons_of_ne_nil (Nat.toDigits_ne_nil (n := d.toInt.natAbs / unity) (b := 10))
  have hsigns := signs_printed (e := e) [] ("pt".toList.map Token.other ++ us) hd hdigits (by simp)
  have hlength := lengthFrom_parses false hd hdigits h (.inl rfl) (d < 0 : Bool)
  rw [signed_natAbs hd] at hlength
  rw [List.nil_append] at hsigns
  rw [Dimen.format, Token.otherTokens_append, Token.otherTokens_pt, List.append_assoc]
  exact hsigns.lift.bind (hlength.mapBoth Flex.value)

end Lengths

/-! ## Glue -/

section Glue

/-- A stretch or shrink which can be printed: its value is in range, its order has a name, and it is finite if there is
none. -/
structure Measure.Flex.Printable (f : Flex) : Prop where
  low : -maxDimen ≤ f.value
  high : f.value ≤ maxDimen
  order : f.order = .finite ∨ f.order = .fil ∨ f.order = .fill ∨ f.order = .filll
  finite : f.value = 0 → f.order = .finite

/-- A glue whose parts can be printed. -/
structure Measure.Glue.Printable (g : Glue) : Prop where
  low : -maxDimen ≤ g.natural
  high : g.natural ≤ maxDimen
  stretch : g.stretch.Printable
  shrink : g.shrink.Printable

theorem Measure.Flex.Printable.eq_default {f : Flex} (hf : f.Printable) (hvalue : f.value = 0) : f = {} := by
  obtain ⟨value, order⟩ := f
  obtain rfl : value = 0 := hvalue
  obtain rfl : order = .finite := hf.finite rfl
  rfl

/-- **A printed stretch or shrink is scanned**, with the blanks around it. -/
theorem flexSpec_parses {f : Flex} (hf : f.Printable) (h : Leaves e us t ts) :
    Parses e flexSpec (.blank :: (Token.otherTokens f.format ++ us)) f (t :: ts) := by
  have hvalue := natAbs_le_of_inRange hf.low hf.high
  obtain ⟨c, cs, hdigits⟩ :=
    List.exists_cons_of_ne_nil (Nat.toDigits_ne_nil (n := f.value.toInt.natAbs / unity) (b := 10))
  have hname : Token.otherTokens f.order.name = f.order.name.toList.map Token.other := by
    rcases hf.order with ho | ho | ho | ho <;> rw [ho] <;> rfl
  have horder : f.order = .finite ∨ true = true ∧ (f.order = .fil ∨ f.order = .fill ∨ f.order = .filll) :=
    hf.order.imp_right fun ho => ⟨rfl, ho⟩
  have hsigns := signs_printed (e := e) [.blank] (f.order.name.toList.map Token.other ++ us) hvalue hdigits
    (by simp [Token.blank, Token.character])
  have hlength := lengthFrom_parses true hvalue hdigits h horder (f.value < 0 : Bool)
  rw [signed_natAbs hvalue] at hlength
  rw [List.singleton_append] at hsigns
  rw [Flex.format, Token.otherTokens_append, List.append_assoc, hname]
  exact hsigns.lift.bind hlength

/-- A part of a glue, if its keyword is there. -/
def flexPart (m : Machine) (word : String) (put : Flex → Glue) (g : Glue) : Proc Glue Glue := do
  if ← Proc.giving (keyword m word) g then return put (← Proc.leaving (flexSpec m) put) else return g

theorem glueFrom_eq (m : Machine) (natural : Dimen) : glueFrom m natural = (do
    let g ← flexPart m "plus" (fun f => { Glue.rigid natural with stretch := f }) (.rigid natural)
    flexPart m "minus" (fun f => { g with shrink := f }) g) := by
  simp only [glueFrom, flexPart, bind_assoc]
  congr 1
  funext b
  cases b <;> simp

/-- The tokens of a part, with the blank in front. A part without a value is not printed. -/
def partTokens (word : String) (f : Flex) : List Token :=
  if f.value ≠ 0 then .blank :: (word.toList.map Token.other ++ .blank :: Token.otherTokens f.format) else []

theorem otherTokens_part {intro : String} (word : String) (f : Flex)
    (hintro : Token.otherTokens intro = .blank :: (word.toList.map Token.other ++ [.blank])) :
    Token.otherTokens (if f.value ≠ 0 then intro ++ f.format else "") = partTokens word f := by
  unfold partTokens
  split
  · simp [Token.otherTokens_append, hintro]
  · rfl

theorem otherTokens_glue (g : Glue) : Token.otherTokens g.format =
    Token.otherTokens (Dimen.format g.natural) ++ (partTokens "plus" g.stretch ++ partTokens "minus" g.shrink) := by
  rw [Glue.format, Token.otherTokens_append, Token.otherTokens_append, otherTokens_part "plus" g.stretch rfl,
    otherTokens_part "minus" g.shrink rfl, List.append_assoc]

/-- A part of a glue is scanned if it is there, once the blank in front of it has been skipped. -/
theorem flexPart_parses (word : String) {c : Char} {letters : List Char} {f : Flex} (put : Flex → Glue) {g : Glue}
    (hword : word.toList = c :: letters) (hspace : spells .blank c = false) (hc : spells (.other c) 'l' = false)
    (hf : f.Printable) (hput : f.value = 0 → put f = g) (h : Leaves e us t ts) (ht : spells t c = false) :
    ∃ t' ts', Leaves e (partTokens word f ++ us) t' ts' ∧ (t' = .other c ∨ t' = t) ∧
      Parses e (flexPart · word put g) (t' :: ts') (put f) (t :: ts) := by
  by_cases hvalue : f.value = 0
  · have habsent : Parses e (flexPart · word put g) (t :: ts) g (t :: ts) :=
      ((h.tail.keyword word hword hspace ht).giving g).bind (.pure g)
    rw [partTokens, if_neg (by simpa using hvalue), hput hvalue]
    exact ⟨t, ts, h, .inr rfl, habsent⟩
  · have hpart : Parses e (flexPart · word put g) (word.toList.map Token.other ++
        .blank :: (Token.otherTokens f.format ++ us)) (put f) (t :: ts) :=
      ((keyword_parses word).giving g).bind (((flexSpec_parses hf h).leaving put).bind (.pure _))
    rw [hword] at hpart
    refine ⟨.other c, _, ?_, .inl rfl, hpart⟩
    rw [partTokens, if_pos hvalue, hword]
    simpa using Leaves.of_word (e := e) hc

/-- **A printed glue is scanned**, up to a control sequence. -/
theorem glueSpec_parses {g : Glue} (hg : g.Printable) (hcat : t.cat = .escape) (ht : e.context.Unexpandable t) :
    Parses e glueSpec (Token.otherTokens g.format ++ t :: ts) g (t :: ts) := by
  have hcode : ∀ c, spells t c = false := fun c => by simp [spells, Token.isCode, hcat]
  have hnatural := natAbs_le_of_inRange hg.low hg.high
  obtain ⟨c, cs, hdigits⟩ :=
    List.exists_cons_of_ne_nil (Nat.toDigits_ne_nil (n := g.natural.toInt.natAbs / unity) (b := 10))
  -- from the last part to the first one, since each has to be left what comes after it
  let stretched : Glue := { Glue.rigid g.natural with stretch := g.stretch }
  have hshrink : g.shrink.value = 0 → { stretched with shrink := g.shrink } = stretched := by
    intro hvalue
    rw [hg.shrink.eq_default hvalue]
    rfl
  have hstretch : g.stretch.value = 0 → stretched = Glue.rigid g.natural := by
    intro hvalue
    show ({ Glue.rigid g.natural with stretch := g.stretch } : Glue) = _
    rw [hg.stretch.eq_default hvalue]
    rfl
  have hend : Leaves e (t :: ts) t ts := .of_controlSequence hcat ht
  obtain ⟨t₂, ts₂, hleaves₂, hhead₂, hminus⟩ := flexPart_parses "minus"
    (fun f => { stretched with shrink := f }) rfl (by decide) (by decide) hg.shrink hshrink hend (hcode 'm')
  have hhead : spells t₂ 'p' = false := by
    rcases hhead₂ with heq | heq <;> rw [heq]
    · decide
    · exact hcode 'p'
  obtain ⟨t₁, ts₁, hleaves₁, -, hplus⟩ := flexPart_parses "plus"
    (fun f => { Glue.rigid g.natural with stretch := f }) rfl (by decide) (by decide) hg.stretch hstretch
    hleaves₂ hhead
  have hparts : Parses e (glueFrom · g.natural) (t₁ :: ts₁) g (t :: ts) := by
    simp only [glueFrom_eq]
    exact hplus.bind hminus
  have hlength := lengthFrom_parses false hnatural hdigits hleaves₁ (.inl rfl) (g.natural < 0 : Bool)
  rw [signed_natAbs hnatural] at hlength
  have hsigns := signs_printed (e := e) [] ("pt".toList.map Token.other ++ (partTokens "plus" g.stretch ++
    (partTokens "minus" g.shrink ++ t :: ts))) hnatural hdigits (by simp)
  have hquantity : ∀ us, Parses e (fun m => (quantity? m (.other c) : Proc Glue _)) us none us :=
    fun _ => .of_eq fun m _ => quantity?_character m rfl
  rw [List.nil_append] at hsigns
  rw [otherTokens_glue, Dimen.format, Token.otherTokens_append, Token.otherTokens_pt]
  simp only [List.append_assoc]
  exact hsigns.lift.bind ((hquantity _).bind ((hlength.leaving _).bind hparts))

end Glue

/-! ## The main statement -/

/-- **What has been printed can be scanned again.** The tokens of a printed dimension or glue, with a control sequence
after them which is not replaced by others, are scanned to the value which was printed. Exactly these tokens are read, and
nothing else changes in the engine: nothing is reported. -/
theorem printed_quantities_scanned (e : Engine) (t : Token) (hcontrol : t.isControlSequence = true)
    (ht : e.context.Unexpandable t) :
    (∀ d : Dimen, -maxDimen ≤ d → d ≤ maxDimen → Parses e dimension (Token.otherTokens (Dimen.format d) ++ [t]) d [t]) ∧
      ∀ g : Glue, g.Printable → Parses e glueSpec (Token.otherTokens g.format ++ [t]) g [t] := by
  have hcat : t.cat = .escape := by simpa [Token.isControlSequence] using hcontrol
  refine ⟨fun d hlow hhigh => ?_, fun g hg => ?_⟩
  · exact dimension_parses (natAbs_le_of_inRange hlow hhigh) (.of_controlSequence hcat ht)
  · exact glueSpec_parses hg hcat ht

/-- A dimension and a glue in front of a name without a meaning. -/
theorem printed_quantities_scanned_sample :
    let e : Engine := Engine.new default {}
    let t : Token := .controlSequence "next" ""
    let g : Glue := ⟨98304, ⟨65536, .fil⟩, ⟨-1, .finite⟩⟩
    Parses e dimension (Token.otherTokens "-1.5pt" ++ [t]) (-98304) [t] ∧
      Parses e glueSpec (Token.otherTokens "1.5pt plus 1.0fil minus -0.00002pt" ++ [t]) g [t] := by
  intro e t g
  have hdimen : Dimen.format (-98304) = "-1.5pt" := by decide +kernel
  have hglue : g.format = "1.5pt plus 1.0fil minus -0.00002pt" := by decide +kernel
  have hg : g.Printable := by
    have hstretch : g.stretch.Printable := ⟨by decide, by decide, .inr (.inl rfl), nofun⟩
    have hshrink : g.shrink.Printable := ⟨by decide, by decide, .inl rfl, fun _ => rfl⟩
    exact ⟨by decide, by decide, hstretch, hshrink⟩
  obtain ⟨hscan, hscan'⟩ := printed_quantities_scanned e t rfl (by decide)
  rw [← hdimen, ← hglue]
  exact ⟨hscan (-98304) (by decide) (by decide), hscan' g hg⟩

end Compositor
