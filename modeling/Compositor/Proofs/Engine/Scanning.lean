import Compositor.Proofs.Engine.Conduct

/-!
# The conduct of scanners

Whatever reads tokens and quantities takes a course of scanning steps, delivers proper tokens from a proper state and is
stopped only by what ends the run. There is one statement for each procedure, in every regime, under the assumption that
the machine which it calls is sound.
-/

namespace Compositor

open Compositor.Measure

variable {β : Type} {R : Regime} {m : Machine} (hm : m.Sound)

include hm

/-! ## Tokens -/

omit hm in
theorem admits_append {ts : List Token} {t : Token} (hts : ∀ u ∈ ts, R.Admits u) (ht : R.Admits t) :
    ∀ u ∈ ts ++ [t], R.Admits u := by
  intro u hu
  rcases List.mem_append.1 hu with hu | hu
  · exact hts u hu
  · exact List.mem_singleton.1 hu ▸ ht

theorem meets_readToken : Meets R (readToken m) fun x => ∀ t ∈ x, R.Admits t := by
  refine .iterate (I := fun _ => True) (fun _ _ => ?_) m.fuel trivial
  intro e he
  rcases hpull : e.input.pull e.context.lexicon with ⟨pulled, input⟩
  have hstep : Course R.strict R.level none e { e with input } := .of_scan (.pull hpull)
  cases pulled with
  | token t =>
    have ht : R.Admits t := fun hs => ((he hs).input.pull (he hs).context.lexicon hpull).2 t rfl
    refine .of_ok (a := .done (some t)) (by simp only [Proc.get_bind, hpull]; rfl) hstep ?_
    exact fun u hu => Option.some.inj hu ▸ ht
  | exhausted =>
    refine .of_ok (a := .done none) (by simp only [Proc.get_bind, hpull]; rfl) hstep ?_
    exact fun u hu => by cases hu
  | invalid c place =>
    have hreport : Meets R (do
        report m { kind := .invalidCharacter, place, arguments := [.code c.toNat] }
        return .again () : Action (Turn Unit (Option Token)))
        (Turn.Keeps (fun _ => True) fun x => ∀ t ∈ x, R.Admits t) :=
      (meets_report hm (by simp)).bind fun _ _ => .pure trivial
    exact (hreport _ (hstep.proper_of he)).after hstep (by simp only [Proc.get_bind, hpull]; rfl)

omit hm in
/-- Invalid characters are reported, which is all that can stop the reading of a token. -/
theorem readToken_stops {e e' : Engine} {d : Diagnostic} (h : readToken m e = .error ⟨.diagnostic d, ()⟩ e') :
    d.kind = .aborted ∨ d.kind = .errorLimit := by
  let P : Stop → Prop := fun s => ∀ d, s = .diagnostic d → d.kind = .aborted ∨ d.kind = .errorLimit
  unfold readToken at h
  have hstops : P (.diagnostic d) := by
    refine iterate_stops (P := P) (i := ⟨.diagnostic d, ()⟩) (fun _ hd => by cases hd) ?_ h
    intro _ e i e' hstep d hd
    rcases hpull : e.input.pull e.context.lexicon with ⟨pulled, input⟩
    simp only [Proc.get_bind, hpull] at hstep
    cases pulled with
    | token t | exhausted => cases hstep
    | invalid c place =>
      let problem : Diagnostic := { kind := .invalidCharacter, place, arguments := [.code c.toNat] }
      cases hreport : report m problem { e with input } with
      | ok u e₁ => cases (Proc.bind_ok hreport).symm.trans hstep
      | error j e₁ =>
        cases (Proc.bind_error hreport).symm.trans hstep
        obtain ⟨cause, sofar⟩ := i
        obtain rfl : cause = .diagnostic d := hd
        exact report_stops (d := problem) rfl hreport
  exact hstops d rfl

omit hm in
theorem skipSpace_keeps {x : Option Token} (hx : ∀ t ∈ x, R.Admits t) :
    (skipSpace x).Keeps (fun _ => True) fun x => ∀ t ∈ x, R.Admits t := by
  unfold skipSpace
  cases x with
  | none => exact hx
  | some t =>
    dsimp only
    split
    · exact trivial
    · exact hx

theorem meets_nonBlank : Meets R (nonBlank m) fun x => ∀ t ∈ x, R.Admits t :=
  .iterate (fun _ _ => hm.nextExpanded.bind fun _ hx => .pure (skipSpace_keeps hx)) m.fuel trivial

theorem meets_nonBlankRaw : Meets R (nonBlankRaw m) fun x => ∀ t ∈ x, R.Admits t :=
  .iterate (fun _ _ => hm.next.bind fun _ hx => .pure (skipSpace_keeps hx)) m.fuel trivial

theorem meets_optionalSpace : Meets R (optionalSpace m) fun _ => True := by
  refine hm.nextExpanded.lift.bind fun x hx => ?_
  cases x with
  | none => exact .pure trivial
  | some t => exact .ite (fun _ => meets_pushBack (hx t rfl)) (fun _ => .pure trivial)

theorem meets_optionalEquals : Meets R (optionalEquals m) fun _ => True := by
  refine (meets_nonBlank hm).lift.bind fun x hx => ?_
  cases x with
  | none => exact .pure trivial
  | some t => exact .ite (fun _ => .pure trivial) (fun _ => meets_pushBack (hx t rfl))

theorem meets_keywordFrom (letters : List Char) : Meets R (keywordFrom m [] letters) fun _ => True := by
  refine .iterate (I := fun s => ∀ t ∈ s.1, R.Admits t) (fun (matched, letters) hs => ?_) m.fuel (by simp)
  cases letters with
  | nil => exact .pure trivial
  | cons c rest =>
    simp only [keywordStep]
    have hnext : Meets R (Proc.onStop (Proc.giving m.nextExpanded false) (·.pushTokens matched))
        fun x => ∀ t ∈ x, R.Admits t :=
      (hm.nextExpanded.giving false).onStop hs
    refine hnext.bind fun x hx => ?_
    cases x with
    | none => exact (meets_pushTokens hs).bind fun _ _ => .pure trivial
    | some t =>
      have ht := hx t rfl
      refine .ite (fun _ => .pure (admits_append hs ht)) (fun _ => .ite (fun _ => .pure hs) (fun _ => ?_))
      exact (meets_pushBack ht).bind fun _ _ => (meets_pushTokens hs).bind fun _ _ => .pure trivial

theorem meets_keyword (word : String) : Meets R (keyword m word) fun _ => True := meets_keywordFrom hm word.toList

theorem meets_controlSequence : Meets R (controlSequence m) fun _ => True := by
  have hmissing : Meets R (do
      Proc.giving (reportHere m .missingControlSequence []) inaccessible
      return inaccessible : Proc Token Token) fun _ => True :=
    ((meets_reportHere hm [] (by simp)).giving _).bind fun _ _ => .pure trivial
  refine (meets_nonBlankRaw hm).lift.bind fun x hx => ?_
  cases x with
  | none => exact hmissing
  | some t => exact .ite (fun _ => .pure trivial) (fun _ => (meets_pushBack (hx t rfl)).bind fun _ _ => hmissing)

theorem meets_fileName : Meets R (fileName m) fun _ => True := by
  refine (meets_nonBlank hm).lift.bind fun x hx => ?_
  cases x with
  | none => exact .pure trivial
  | some first =>
    refine .iterate (I := fun s => R.Admits s.2) (fun (name, t) ht => ?_) m.fuel (hx first rfl)
    refine .ite (fun _ => (meets_pushBack ht).bind fun _ _ => .pure trivial) (fun _ => ?_)
    refine .ite (fun _ => .pure trivial) (fun _ => ?_)
    refine (hm.nextExpanded.giving _).bind fun x hx => ?_
    cases x with
    | none => exact .pure trivial
    | some t => exact .pure (hx t rfl)

/-- A text in braces is proper if the tokens are which it is read from. -/
theorem meets_untilRightBrace {next : Action (Option Token)} (hnext : Meets R next fun x => ∀ t ∈ x, R.Admits t) :
    Meets R (untilRightBrace m next) fun ts => ∀ t ∈ ts, R.Admits t := by
  refine .iterate (I := fun s => ∀ t ∈ s.2, R.Admits t) (fun (level, ts) hts => ?_) m.fuel (by simp)
  refine (hnext.giving ts).bind fun x hx => ?_
  cases x with
  | none => exact ((meets_reportHere hm _ (by simp)).giving ts).bind fun _ _ => .pure hts
  | some t =>
    dsimp only
    cases t.nest level with
    | none => exact .pure hts
    | some level => exact .pure (admits_append hts (hx t rfl))

theorem meets_openingBrace : Meets R (openingBrace m) fun _ => True := by
  refine (meets_nonBlank hm).lift.bind fun x hx => ?_
  refine .ite (fun _ => .pure trivial) (fun _ => ?_)
  cases x with
  | none => exact meets_reportHere hm _ (by simp)
  | some t => exact (meets_pushBack (hx t rfl)).bind fun _ _ => meets_reportHere hm _ (by simp)

theorem meets_balancedText (expanded : Bool) : Meets R (balancedText m expanded) fun ts => ∀ t ∈ ts, R.Admits t := by
  refine (meets_openingBrace hm).lift.bind fun _ _ => meets_untilRightBrace hm ?_
  split
  · exact hm.nextExpanded.giving ()
  · exact hm.next

/-! ## Quantities -/

omit hm in
theorem decimal_ne_mag (n : Int64) : Text.decimal n ≠ "mag" := by
  intro h
  have hdigits : ∀ k : Nat, 'm' ∉ k.repr.toList := by
    intro k hk
    rw [Nat.toList_repr] at hk
    cases Nat.isDigit_of_mem_toDigits (by decide) (by decide) hk
  have hletter : 'm' ∈ (toString n.toInt).toList := by
    rw [← Text.decimal, h]
    decide
  cases hn : n.toInt with
  | ofNat k =>
    rw [hn] at hletter
    exact hdigits k hletter
  | negSucc k =>
    rw [hn] at hletter
    have hsplit : 'm' ∈ "-".toList ++ k.succ.repr.toList := String.toList_append ▸ hletter
    rcases List.mem_append.1 hsplit with h | h
    · simp at h
    · exact hdigits k.succ h

/-- A register which is found by its number is not the one of the magnification. -/
theorem meets_registerName : Meets R (registerName m) fun name => name ≠ "mag" := by
  refine Meets.giving (hm.number.lift.bind fun n _ => ?_) "0"
  refine .ite (fun _ => (meets_reportHere hm _ (by simp)).bind fun _ _ => .pure (by decide)) (fun _ => ?_)
  exact .pure (decimal_ne_mag n)

theorem meets_locate (fixed : Option String) : Meets R (locate m fixed) fun name => fixed ≠ some "mag" → name ≠ "mag" := by
  cases fixed with
  | none => exact (meets_registerName hm).mono fun name h _ => h
  | some name => exact .pure fun h heq => h (congrArg some heq)

theorem meets_charCodePoint : Meets R (charCodePoint m) fun _ => True := by
  refine hm.number.lift.bind fun n _ => ?_
  exact .ite (fun _ => (meets_reportHere hm _ (by simp)).bind fun _ _ => .pure trivial) (fun _ => .pure trivial)

theorem meets_registerValue {Q : β → Prop} (fixed : Option String) {value : Context → String → β}
    (hvalue : ∀ c name, (R.strict → c.Proper) → Q (value c name)) : Meets R (registerValue m fixed value) Q := by
  intro e he
  have hlocate := meets_locate hm fixed e he
  cases h : locate m fixed e with
  | ok name e' =>
    have hR := (hlocate.ok h).1
    have hproper := hR.proper_of he
    exact .of_ok (a := value e'.context name) (by simp only [registerValue, h]) hR
      (hvalue _ _ fun hs => (hproper hs).context)
  | error i e' =>
    obtain ⟨hR, hi⟩ := hlocate.error h
    exact .of_error (i := ⟨i.cause, value e'.context i.sofar⟩) (by simp only [registerValue, h]) hR hi

/-- The value of a quantity can be found, and the tokens of a token register are proper. -/
def Quantity.Conducts (R : Regime) : Quantity → Prop
  | count value => Meets R value fun _ => True
  | dimen value => Meets R value fun _ => True
  | glue value => Meets R value fun _ => True
  | toks value => Meets R value fun ts => ∀ t ∈ ts, R.Admits t

theorem quantityOf?_conducts (c : Command) : ∀ q ∈ quantityOf? m c, q.Conducts R := by
  intro q hq
  cases c with
  | register kind fixed =>
    cases kind with
    | toks => exact Option.some.inj hq ▸ meets_registerValue hm fixed fun c name hc t ht hs => (hc hs).toks name t ht
    | count | dimen | glue => exact Option.some.inj hq ▸ meets_registerValue hm fixed fun _ _ _ => trivial
  | magnification => exact Option.some.inj hq ▸ meets_context.bind fun _ _ => .pure trivial
  | charCode table =>
    have hcode : ∀ value : Context → Nat → Int64, Meets R (do
        let code ← charCodePoint m
        return value (← context) code : Proc Int64 Int64) fun _ => True :=
      fun value => (meets_charCodePoint hm).lift.bind fun _ _ => meets_context.bind fun _ _ => .pure trivial
    cases table with
    | categories => exact Option.some.inj hq ▸ hcode fun c code => Int64.ofNat (c.catcode code).code
    | codes table => exact Option.some.inj hq ▸ hcode fun c code => c.charcode table code
  | _ => cases hq

theorem meets_quantity? (t : Token) :
    Meets R (quantity? m t : Proc β (Option Quantity)) fun x => ∀ q ∈ x, q.Conducts R := by
  refine (meets_meaningOf t).bind fun x _ => ?_
  split
  · exact .pure (quantityOf?_conducts hm _)
  · exact .pure fun q hq => by cases hq

theorem meets_internalInteger? (t : Token) : Meets R (internalInteger? m t) fun _ => True := by
  refine (meets_quantity? hm t).bind fun x hx => ?_
  split
  · exact Meets.bind (hx _ rfl) fun _ _ => .pure trivial
  · exact Meets.bind (hx _ rfl) fun _ _ => .pure trivial
  · rename_i value
    have hglue : Meets R value fun _ => True := hx (.glue value) rfl
    exact (hglue.mapBoth Glue.natural).bind fun _ _ => .pure trivial
  · exact .pure trivial

theorem meets_internalDimen? (t : Token) : Meets R (internalDimen? m t) fun _ => True := by
  refine (meets_quantity? hm t).bind fun x hx => ?_
  split
  · exact Meets.bind (hx _ rfl) fun _ _ => .pure trivial
  · rename_i value
    have hglue : Meets R value fun _ => True := hx (.glue value) rfl
    exact (hglue.mapBoth Glue.natural).bind fun _ _ => .pure trivial
  · exact .pure trivial

theorem meets_signs : Meets R (signs m) fun x => ∀ t ∈ x.2, R.Admits t := by
  refine .iterate (I := fun _ => True) (fun negative _ => ?_) m.fuel trivial
  refine (meets_nonBlank hm).lift.bind fun x hx => ?_
  cases x with
  | none => exact .pure hx
  | some t => exact .ite (fun _ => .pure trivial) (fun _ => .ite (fun _ => .pure trivial) (fun _ => .pure hx))

theorem meets_numeralDigits (radix : Nat) {first : Token} (hfirst : R.Admits first) :
    Meets R (numeralDigits m radix first) fun _ => True := by
  refine .iterate (I := fun s => R.Admits s.2) (fun (n, t) ht => ?_) m.fuel hfirst
  dsimp only [numeralStep]
  cases digitOf? t radix with
  | none => exact .ite (fun _ => (meets_pushBack ht).bind fun _ _ => .pure trivial) (fun _ => .pure trivial)
  | some d =>
    refine hm.nextExpanded.lift.bind fun x hx => ?_
    cases x with
    | none => exact .pure trivial
    | some t => exact .pure (hx t rfl)

/-- A report, after which a value is used in place of the one which could not be read. -/
theorem meets_report_return {α : Type} {Q : α → Prop} [Inhabited β] (kind : Kind) (arguments : List Argument) {a : α}
    (h : R.Reports kind) (ha : Q a) :
    Meets R (do reportHere m kind arguments; return a : Proc β α) Q :=
  (meets_reportHere hm arguments h).lift.bind fun _ _ => .pure ha

theorem meets_digits_some (radix : Nat) {t : Token} (ht : R.Admits t) :
    Meets R (digits m radix (some t)) fun _ => True := by
  refine (meets_numeralDigits hm radix ht).lift.bind fun n _ => ?_
  refine .ite (fun _ => meets_report_return hm _ _ (by simp) trivial) (fun _ => ?_)
  refine .ite (fun _ => ?_) (fun _ => .pure trivial)
  exact ((meets_reportHere hm _ (by simp)).giving _).bind fun _ _ => .pure trivial

theorem meets_digits_none (radix : Nat) : Meets R (digits m radix none) fun _ => True := by
  refine hm.nextExpanded.lift.bind fun x hx => ?_
  cases x with
  | none => exact meets_report_return hm _ _ (by simp) trivial
  | some t => exact meets_digits_some hm radix (hx t rfl)

theorem meets_characterConstant : Meets R (characterConstant m) fun _ => True := by
  refine hm.next.lift.bind fun x hx => ?_
  cases x with
  | none => exact .pure trivial
  | some t =>
    have hspace : ∀ n : Int64, Meets R (do
        Proc.giving (optionalSpace m) n
        return n : Proc Int64 Int64) fun _ => True :=
      fun n => ((meets_optionalSpace hm).giving n).bind fun _ _ => .pure trivial
    refine .ite (fun _ => ?_) (fun _ => hspace _)
    exact (meets_pushBack (hx t rfl)).bind fun _ _ => (meets_reportHere hm _ (by simp)).lift.bind fun _ _ => hspace 0

theorem meets_unsignedNumber {t : Token} (ht : R.Admits t) : Meets R (unsignedNumber m t) fun _ => True := by
  refine (meets_internalInteger? hm t).bind fun x _ => ?_
  cases x with
  | some n => exact .pure trivial
  | none =>
    refine .ite (fun _ => meets_characterConstant hm) (fun _ => ?_)
    refine .ite (fun _ => meets_digits_none hm 8) (fun _ => .ite (fun _ => meets_digits_none hm 16) (fun _ => ?_))
    refine .ite (fun _ => meets_digits_some hm 10 ht) (fun _ => ?_)
    exact (meets_pushBack ht).bind fun _ _ => meets_report_return hm _ _ (by simp) trivial

theorem meets_number : Meets R (number m) fun _ => True := by
  refine (meets_signs hm).lift.bind fun (negative, first) hfirst => ?_
  cases first with
  | none => exact meets_report_return hm _ _ (by simp) trivial
  | some t => exact (meets_unsignedNumber hm (hfirst t rfl)).mapBoth _

theorem meets_fraction : Meets R (fraction m) fun _ => True := by
  refine .iterate (I := fun _ => True) (fun read _ => ?_) m.fuel trivial
  refine hm.nextExpanded.lift.bind fun x hx => ?_
  cases x with
  | none => exact .pure trivial
  | some t =>
    refine .ite (fun _ => .pure trivial) (fun _ => ?_)
    exact .ite (fun _ => (meets_pushBack (hx t rfl)).bind fun _ _ => .pure trivial) (fun _ => .pure trivial)

theorem meets_orderFrom (n : Nat) (order : Order) : Meets R (orderFrom m n order) fun _ => True := by
  induction n generalizing order with
  | zero => exact .pure trivial
  | succ n ih =>
    refine (meets_keyword hm "l").lift.bind fun found _ => ?_
    exact .ite (fun _ => ih order.next) (fun _ => .pure trivial)

theorem meets_physicalUnit (names : List String) : Meets R (physicalUnit m names) fun _ => True := by
  induction names with
  | nil => exact .pure trivial
  | cons name rest ih =>
    refine (meets_keyword hm name).lift.bind fun found _ => ?_
    exact .ite (fun _ => .pure trivial) (fun _ => ih)

theorem meets_reportMagnification (fault : MagnificationFault) (value : Int64) :
    Meets R (reportMagnification m fault value) fun _ => True := by
  refine meets_get.bind fun e _ => ?_
  cases fault <;> exact meets_reportHere hm _ (by simp)

theorem meets_physicalLength (whole part magnification : Int64) :
    Meets R (physicalLength m whole part magnification) fun _ => True := by
  refine (meets_physicalUnit hm unitKeywords).bind fun x _ => ?_
  cases x with
  | none => exact (meets_reportHere hm _ (by simp)).bind fun _ _ => .pure trivial
  | some u => exact (meets_optionalSpace hm).bind fun _ _ => .pure trivial

theorem meets_absoluteUnit (whole part : Int64) : Meets R (absoluteUnit m whole part) fun _ => True := by
  refine (meets_keyword hm "true").lift.bind fun found _ => .ite (fun _ => ?_) (fun _ => meets_physicalLength hm _ _ _)
  intro e he
  cases hset : e.context.setMagnification e.context.magnification true with
  | ok locked =>
    have hstep : Course R.strict R.level none e { e with context := locked } := .of_scan (.lockMagnification hset)
    have hlength : Meets R (physicalLength m whole part e.context.magnification) fun _ => True :=
      meets_physicalLength hm _ _ _
    refine (hlength _ (hstep.proper_of he)).after hstep ?_
    simp only [Proc.context_bind, hset]
    rfl
  | error fault =>
    have hreport : Meets R (do
        reportMagnification m fault e.context.magnification
        return 0 : Action Dimen) fun _ => True :=
      (meets_reportMagnification hm fault _).bind fun _ _ => .pure trivial
    refine (hreport e he).congr ?_
    simp only [Proc.context_bind, hset]

theorem meets_finiteUnit (whole part : Int64) : Meets R (finiteUnit m whole part) fun _ => True := by
  have hfont : Meets R (do
      let font := (← context).style.font
      if ← keyword m "em" then
        optionalSpace m
        return timesUnit whole part font.size
      if ← keyword m "ex" then
        optionalSpace m
        return timesUnit whole part (font.metrics 0x78).height
      absoluteUnit m whole part : Action Dimen) fun _ => True := by
    refine meets_context.bind fun c _ => (meets_keyword hm "em").lift.bind fun found _ => ?_
    refine .ite (fun _ => (meets_optionalSpace hm).bind fun _ _ => .pure trivial) (fun _ => ?_)
    refine (meets_keyword hm "ex").lift.bind fun found _ => ?_
    exact .ite (fun _ => (meets_optionalSpace hm).bind fun _ _ => .pure trivial) (fun _ => meets_absoluteUnit hm _ _)
  refine (meets_nonBlank hm).lift.bind fun first hfirst => ?_
  cases first with
  | none => exact hfont
  | some t =>
    refine (meets_internalDimen? hm t).lift.bind fun unit? _ => ?_
    cases unit? with
    | some unit => exact .pure trivial
    | none => exact (meets_pushBack (hfirst t rfl)).bind fun _ _ => hfont

theorem meets_lengthUnit (whole part : Int64) (infinite : Bool) :
    Meets R (lengthUnit m whole part infinite) fun _ => True := by
  have hfinite : Meets R (do return ⟨← finiteUnit m whole part, .finite⟩ : Action Flex) fun _ => True :=
    (meets_finiteUnit hm whole part).bind fun _ _ => .pure trivial
  refine .ite (fun _ => ?_) (fun _ => hfinite)
  refine (meets_keyword hm "fil").lift.bind fun found _ => .ite (fun _ => ?_) (fun _ => hfinite)
  exact (meets_orderFrom hm 2 .fil).bind fun order _ => (meets_optionalSpace hm).bind fun _ _ => .pure trivial

theorem meets_factor {t : Token} (ht : R.Admits t) : Meets R (factor m t) fun _ => True := by
  refine .ite (fun _ => ?_) (fun _ => .ite (fun _ => ?_) (fun _ => ?_))
  · refine (meets_internalInteger? hm t).lift.bind fun x _ => ?_
    cases x with
    | some n => exact .pure trivial
    | none => exact (meets_pushBack ht).bind fun _ _ => (meets_reportHere hm _ (by simp)).bind fun _ _ => .pure trivial
  · exact (meets_fraction hm).bind fun _ _ => .pure trivial
  · refine (meets_unsignedNumber hm ht).lift.bind fun whole _ => .ite (fun _ => ?_) (fun _ => .pure trivial)
    refine hm.nextExpanded.lift.bind fun x hx => ?_
    cases x with
    | none => exact .pure trivial
    | some u =>
      refine .ite (fun _ => (meets_fraction hm).bind fun _ _ => .pure trivial) (fun _ => ?_)
      exact (meets_pushBack (hx u rfl)).bind fun _ _ => .pure trivial

theorem meets_boundedLength (negative : Bool) (whole part : Int64) (infinite : Bool) :
    Meets R (boundedLength m negative whole part infinite) fun _ => True := by
  unfold boundedLength
  generalize (if whole < 0 then (!negative, -whole) else (negative, whole)) = sign
  refine (meets_lengthUnit hm _ _ _).lift.bind fun length _ => .ite (fun _ => ?_) (fun _ => .pure trivial)
  exact ((meets_reportHere hm _ (by simp)).giving _).bind fun _ _ => .pure trivial

theorem meets_lengthFrom (negative : Bool) {t : Token} (ht : R.Admits t) (infinite : Bool) :
    Meets R (lengthFrom m negative t infinite) fun _ => True := by
  refine ((meets_internalDimen? hm t).leaving _).bind fun x _ => ?_
  cases x with
  | some d => exact .pure trivial
  | none => exact (meets_factor hm ht).lift.bind fun (whole, part) _ => meets_boundedLength hm negative whole part infinite

theorem meets_dimension : Meets R (dimension m) fun _ => True := by
  refine (meets_signs hm).lift.bind fun (negative, first) hfirst => ?_
  cases first with
  | none => exact meets_report_return hm _ _ (by simp) trivial
  | some t => exact (meets_lengthFrom hm negative (hfirst t rfl) false).mapBoth _

theorem meets_flexSpec : Meets R (flexSpec m) fun _ => True := by
  refine (meets_signs hm).lift.bind fun (negative, first) hfirst => ?_
  cases first with
  | none => exact meets_report_return hm _ _ (by simp) trivial
  | some t => exact meets_lengthFrom hm negative (hfirst t rfl) true

theorem meets_glueFrom (natural : Dimen) : Meets R (glueFrom m natural) fun _ => True := by
  have hminus : ∀ g : Glue, Meets R (do
      let mut g := g
      if ← Proc.giving (keyword m "minus") g then
        let before := g
        let shrink ← Proc.leaving (flexSpec m) fun f => { before with shrink := f }
        g := { g with shrink }
      return g : Proc Glue Glue) fun _ => True := by
    intro g
    refine ((meets_keyword hm "minus").giving g).bind fun found _ => .ite (fun _ => ?_) (fun _ => .pure trivial)
    exact ((meets_flexSpec hm).leaving _).bind fun shrink _ => .pure trivial
  refine ((meets_keyword hm "plus").giving _).bind fun found _ => .ite (fun _ => ?_) (fun _ => hminus _)
  exact ((meets_flexSpec hm).leaving _).bind fun stretch _ => hminus _

theorem meets_glueSpec : Meets R (glueSpec m) fun _ => True := by
  refine (meets_signs hm).lift.bind fun (negative, first) hfirst => ?_
  cases first with
  | none => exact meets_report_return hm _ _ (by simp) trivial
  | some t =>
    refine (meets_quantity? hm t).bind fun x hx => ?_
    have hlength : Meets R (do
        let length ← Proc.leaving (lengthFrom m negative t false) fun f => Glue.rigid f.value
        glueFrom m length.value : Proc Glue Glue) fun _ => True :=
      ((meets_lengthFrom hm negative (hfirst t rfl) false).leaving _).bind fun length _ => meets_glueFrom hm _
    split
    · rename_i value
      have hglue : Meets R value fun _ => True := hx (.glue value) rfl
      exact hglue.mapBoth _
    · exact hlength

end Compositor
