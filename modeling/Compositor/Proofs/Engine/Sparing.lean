import Compositor.Proofs.Engine.Constants
import Compositor.Proofs.Engine.Handling

/-!
# What scanners leave of the input

Scanners look one token too far at many places. What they find there is put back, so that no control sequence gets lost. There
is one exception: after the digits of a number, and where a relation should be, a control sequence without a name is taken for
no token at all. Such a control sequence is made of an empty name, and is dropped there.

* `Deals Spent ts p us` says how many of the tokens in hand are still there after a procedure, and that `Handles` knows of all
  that was done;
* `number_deals` and its likes say this of one scanner each;
* `control_sequences_spared` says it of all of them, `nameless_control_sequence_dropped` shows the exception.
-/

namespace Compositor

variable {α β γ σ ρ : Type} {Spent : Token → Prop} {ts : List Token} {e : Engine}

/-! ## Procedures with tokens in hand -/

/-- Where a procedure begins in this state with the tokens `ts` in hand and comes to its end, there are those of `us` in hand. -/
def DealsAt (Spent : Token → Prop) (ts : List Token) (p : Proc β α) (us : α → List Token) (e : Engine) : Prop :=
  ∀ hand front a e', p e = .ok a e' → ∃ front', Handles Spent ⟨hand ++ ts, front⟩ e ⟨hand ++ us a, front'⟩ e'

/-- A procedure which begins with the tokens `ts` in hand comes to its end with those of `us`. -/
def Deals (Spent : Token → Prop) (ts : List Token) (p : Proc β α) (us : α → List Token) : Prop :=
  ∀ e, DealsAt Spent ts p us e

/-- What is in hand after a step of a loop. -/
def Turn.held (I : σ → List Token) (us : ρ → List Token) : Turn σ ρ → List Token
  | again s => I s
  | done r => us r

theorem DealsAt.bind {x : Proc β α} {f : α → Proc β γ} {us : α → List Token} {vs : γ → List Token} (hx : DealsAt Spent ts x us e)
    (hf : ∀ a, Deals Spent (us a) (f a) vs) : DealsAt Spent ts (x >>= f) vs e := by
  intro hand front c e' h
  obtain ⟨a, e₁, hfirst, hrest⟩ := Proc.bind_eq_ok h
  obtain ⟨front₁, h₁⟩ := hx hand front a e₁ hfirst
  obtain ⟨front₂, h₂⟩ := hf a e₁ hand front₁ c e' hrest
  exact ⟨front₂, h₁.trans h₂⟩

theorem DealsAt.pure {us : α → List Token} {a : α} (ha : us a = ts) : DealsAt Spent ts (pure a : Proc β α) us e := by
  intro hand front a' e' h
  cases h
  rw [ha]
  exact ⟨front, .refl _ _⟩

namespace Deals

variable {us : α → List Token}

theorem bind {x : Proc β α} {f : α → Proc β γ} {vs : γ → List Token} (hx : Deals Spent ts x us)
    (hf : ∀ a, Deals Spent (us a) (f a) vs) : Deals Spent ts (x >>= f) vs :=
  fun e => (hx e).bind hf

theorem pure {a : α} (ha : us a = ts) : Deals Spent ts (pure a : Proc β α) us := fun _ => .pure ha

theorem leaving {x : Proc γ α} (h : Deals Spent ts x us) (f : γ → β) : Deals Spent ts (x.leaving f) us :=
  fun e hand front a e' hx => h e hand front a e' (Proc.leaving_eq_ok.1 hx)

theorem giving {x : Proc γ α} (h : Deals Spent ts x us) (b : β) : Deals Spent ts (x.giving b) us := h.leaving _

theorem lift [Inhabited β] {x : Proc γ α} (h : Deals Spent ts x us) : Deals Spent ts (monadLift x : Proc β α) us :=
  h.giving default

theorem onStop {x : Proc β α} (h : Deals Spent ts x us) (f : Engine → Engine) : Deals Spent ts (x.onStop f) us :=
  fun e hand front a e' hx => h e hand front a e' (Proc.onStop_eq_ok.1 hx)

theorem mapBoth {us : List Token} {x : Proc α α} (h : Deals Spent ts x fun _ => us) (f : α → β) :
    Deals Spent ts (x.mapBoth f : Proc β β) fun _ => us := by
  intro e hand front b e' hx
  obtain ⟨a, ha, -⟩ := Proc.mapBoth_eq_ok hx
  exact h e hand front a e' ha

theorem ite {c : Prop} [Decidable c] {p q : Proc β α} (hp : c → Deals Spent ts p us) (hq : ¬ c → Deals Spent ts q us) :
    Deals Spent ts (if c then p else q) us := by
  split
  · exact hp ‹_›
  · exact hq ‹_›

theorem get_bind {f : Engine → Proc β α} (h : ∀ e, DealsAt Spent ts (f e) us e) : Deals Spent ts (get >>= f) us :=
  fun e => h e

theorem context_bind {f : Context → Proc β α} (h : ∀ e : Engine, DealsAt Spent ts (f e.context) us e) :
    Deals Spent ts (context >>= f) us :=
  fun e => h e

/-- A loop keeps in hand what each of its steps keeps, as long as its state has a property. -/
theorem iterate_of [Inhabited β] {step : σ → Proc β (Turn σ ρ)} {I : σ → List Token} {vs : ρ → List Token} {P : σ → Prop}
    (hstep : ∀ s, P s → Deals Spent (I s) (step s) (Turn.held I vs))
    (hkeeps : ∀ s e s' e', P s → step s e = .ok (.again s') e' → P s') (fuel : Nat) {s : σ} (hs : P s) :
    Deals Spent (I s) (iterate step fuel s) vs := by
  induction fuel generalizing s with
  | zero => exact fun e hand front r e' h => nomatch h
  | succ fuel ih =>
    intro e hand front r e' h
    rw [iterate] at h
    obtain ⟨turn, e₁, hturn, h⟩ := Proc.bind_eq_ok h
    obtain ⟨front₁, h₁⟩ := hstep s hs e hand front turn e₁ hturn
    cases turn with
    | again s' =>
      obtain ⟨front₂, h₂⟩ := ih (hkeeps s e s' e₁ hs hturn) e₁ hand front₁ r e' h
      exact ⟨front₂, h₁.trans h₂⟩
    | done r' =>
      cases h
      exact ⟨front₁, h₁⟩

theorem iterate [Inhabited β] {step : σ → Proc β (Turn σ ρ)} {I : σ → List Token} {vs : ρ → List Token}
    (hstep : ∀ s, Deals Spent (I s) (step s) (Turn.held I vs)) (fuel : Nat) (s : σ) :
    Deals Spent (I s) (Compositor.iterate step fuel s) vs :=
  iterate_of (P := fun _ => True) (fun s _ => hstep s) (fun _ _ _ _ _ _ => trivial) fuel trivial

theorem spend {t : Token} {p : Proc β α} (h : Deals Spent ts p us) (ht : Spent t) : Deals Spent (ts ++ [t]) p us := by
  intro e hand front a e' hp
  obtain ⟨front', h'⟩ := h e hand front a e' hp
  have hdropped : Handles Spent ⟨hand ++ (ts ++ [t]), front⟩ e ⟨hand ++ ts, front⟩ e := by
    rw [← List.append_assoc]
    exact (Handles.refl _ _).spend ht
  exact ⟨front', hdropped.trans h'⟩

theorem drop {t : Token} {p : Proc β α} (h : Deals Spent [] p us) (ht : Spent t) : Deals Spent [t] p us :=
  show Deals Spent ([] ++ [t]) p us from h.spend ht

theorem spendAll {vs : List Token} {p : Proc β α} (h : Deals Spent ts p us) (hvs : ∀ t ∈ vs, Spent t) :
    Deals Spent (ts ++ vs) p us := by
  induction vs using List.reverseRecOn with
  | nil => rwa [List.append_nil]
  | append_singleton vs t ih =>
    rw [← List.append_assoc]
    exact (ih fun u hu => hvs u (List.mem_append.2 (.inl hu))).spend (hvs t (by simp))

end Deals

/-! ## Elementary procedures -/

/-- Tokens in hand are put back, and those in hand before them stay there. -/
theorem pushTokens_deals (ts us : List Token) : Deals Spent (ts ++ us) (pushTokens us : Proc β Unit) fun _ => ts := by
  intro e hand front a e' h
  cases h
  refine ⟨front.push us, ?_⟩
  rw [← List.append_assoc]
  exact (Handles.refl _ _).putBack

theorem pushBack_deals (ts : List Token) (t : Token) : Deals Spent (ts ++ [t]) (pushBack t : Proc β Unit) fun _ => ts :=
  pushTokens_deals ts [t]

theorem nextExpanded_deals (n : Nat) : Deals Spent ts (machine n).nextExpanded fun x => ts ++ x.toList := by
  intro e hand front x e' h
  cases x with
  | none =>
    simp only [Option.toList_none, List.append_nil]
    exact ⟨.nothing, (Handles.refl _ _).finish (.inl h)⟩
  | some t =>
    simp only [Option.toList_some, ← List.append_assoc]
    exact ⟨front.read, (Handles.refl _ _).read h⟩

theorem report_deals (n : Nat) {d : Diagnostic} (hd : d.kind ≠ .errorLimit ∧ d.kind ≠ .aborted) :
    Deals Spent ts (report (machine n) d) fun _ => ts := by
  intro e hand front u e' h
  by_cases hinsert : ∃ sources, e'.input = sources ++ e.input
  · obtain ⟨sources, hinput⟩ := hinsert
    exact ⟨front.insert sources, (Handles.refl _ _).report hd h hinput⟩
  · have hhandler : e.handler = .prompter := by
      by_contra hother
      exact hinsert (report_input h hother)
    exact ⟨.nothing, (Handles.refl _ _).delete hd hhandler h (not_exists.1 hinsert)⟩

theorem reportHere_deals (n : Nat) {kind : Kind} (arguments : List Argument)
    (hkind : kind ≠ .errorLimit ∧ kind ≠ .aborted) :
    Deals Spent ts (reportHere (machine n) kind arguments) fun _ => ts := by
  intro e hand front u e' h
  let problem : Diagnostic := { kind, place := e.locator, arguments }
  have hreport : report (machine n) problem e = .ok u e' := h
  exact report_deals n (d := problem) hkind e hand front u e' hreport

/-- A value is used in place of the one which could not be read. -/
theorem report_return_deals [Inhabited β] (n : Nat) {kind : Kind} (arguments : List Argument)
    (hkind : kind ≠ .errorLimit ∧ kind ≠ .aborted) (a : α) :
    Deals Spent ts (do reportHere (machine n) kind arguments; return a : Proc β α) fun _ => ts :=
  (reportHere_deals n arguments hkind).lift.bind fun _ => .pure rfl

/-! ## Tokens which are not kept -/

/-- The token has no meaning of its own: it is a character, and not an active one. -/
def Token.IsInert (t : Token) : Prop := t.isCode = false

/-- The token is plain, or a control sequence without a name. -/
def Token.IsExpendable (t : Token) : Prop := t.isCode = true → t.name = ""

theorem isExpendable_of_isInert (t : Token) (h : t.IsInert) : t.IsExpendable := fun hcode => nomatch h.symm.trans hcode

theorem isInert_of_isOther {t : Token} {c : Char} (h : t.isOther c = true) : t.IsInert :=
  Token.isCode_of_other (Token.isOther_iff.1 h).1

theorem isInert_of_space {t : Token} (h : t.cat = .space) : t.IsInert := by
  simp [Token.IsInert, Token.isCode, h]

theorem keywordStep_inert {m : Machine} {s s' : List Token × List Char} {e e' : Engine} (hmatched : ∀ t ∈ s.1, t.IsInert)
    (h : keywordStep m s e = .ok (.again s') e') : ∀ t ∈ s'.1, t.IsInert := by
  obtain ⟨matched, letters⟩ := s
  cases letters with
  | nil => cases h
  | cons c rest =>
    obtain ⟨x, e₁, -, h⟩ := Proc.bind_eq_ok h
    cases x with
    | none => cases h
    | some t =>
      dsimp only at h
      split at h
      · rename_i hspells
        cases h
        have ht : t.IsInert := by simpa [Token.IsInert] using (Bool.and_eq_true_iff.1 hspells).1
        intro u hu
        rcases List.mem_append.1 hu with hu | hu
        · exact hmatched u hu
        · exact List.mem_singleton.1 hu ▸ ht
      · split at h
        · cases h
          exact hmatched
        · cases h

section Inert

variable (n : Nat) (hinert : ∀ t : Token, t.IsInert → Spent t)
include hinert

theorem nonBlank_deals : Deals Spent [] (nonBlank (machine n)) Option.toList := by
  refine .iterate (I := fun _ => []) (fun _ => ?_) (machine n).fuel ()
  refine (nextExpanded_deals n).bind fun x => ?_
  cases x with
  | none => exact .pure rfl
  | some t =>
    by_cases hcat : t.cat = .space
    · have hskip : skipSpace (some t) = .again () := if_pos hcat
      rw [hskip]
      exact Deals.drop (.pure rfl) (hinert t (isInert_of_space hcat))
    · have hfound : skipSpace (some t) = .done (some t) := if_neg hcat
      rw [hfound]
      exact .pure rfl

theorem optionalSpace_deals : Deals Spent [] (optionalSpace (machine n)) fun _ => [] := by
  refine (nextExpanded_deals n).lift.bind fun x => ?_
  cases x with
  | none => exact .pure rfl
  | some t =>
    refine .ite (fun _ => pushBack_deals [] t) (fun hcat => ?_)
    exact Deals.drop (.pure rfl) (hinert t (isInert_of_space (not_not.1 hcat)))

/-- What has been matched of a keyword is put back if the keyword is not there. -/
theorem keywordFrom_deals (letters : List Char) : Deals Spent [] (keywordFrom (machine n) [] letters) fun _ => [] := by
  have hstep : ∀ s : List Token × List Char, (∀ t ∈ s.1, t.IsInert) →
      Deals Spent s.1 (keywordStep (machine n) s) (Turn.held Prod.fst fun _ => []) := by
    rintro ⟨matched, letters⟩ hmatched
    cases letters with
    | nil =>
      show Deals Spent ([] ++ matched) _ _
      exact .spendAll (.pure rfl) fun t ht => hinert t (hmatched t ht)
    | cons c rest =>
      have hnext : Deals Spent matched (Proc.onStop (Proc.giving (machine n).nextExpanded false) (·.pushTokens matched))
          fun x => matched ++ x.toList := ((nextExpanded_deals n).giving false).onStop _
      refine hnext.bind fun x => ?_
      cases x with
      | none =>
        rw [Option.toList_none, List.append_nil]
        exact (pushTokens_deals [] matched).bind fun _ => .pure rfl
      | some t =>
        refine .ite (fun _ => .pure rfl) (fun _ => .ite (fun hspace => ?_) (fun _ => ?_))
        · have hcat : t.cat = .space := of_decide_eq_true (Bool.and_eq_true_iff.1 hspace).1
          exact Deals.spend (.pure rfl) (hinert t (isInert_of_space hcat))
        · exact (pushBack_deals matched t).bind fun _ => (pushTokens_deals [] matched).bind fun _ => .pure rfl
  -- the tokens in hand are those which have been matched
  exact .iterate_of hstep (fun _ _ _ _ => keywordStep_inert) (machine n).fuel (s := ([], letters)) (by simp)

theorem keyword_deals (word : String) : Deals Spent [] (keyword (machine n) word) fun _ => [] :=
  keywordFrom_deals n hinert word.toList

theorem fileName_deals : Deals Spent [] (fileName (machine n)) fun _ => [] := by
  refine (nonBlank_deals n hinert).lift.bind fun x => ?_
  cases x with
  | none => exact .pure rfl
  | some first =>
    refine .iterate (I := fun s : String × Token => [s.2]) (fun (name, t) => ?_) (machine n).fuel ("", first)
    refine .ite (fun _ => (pushBack_deals [] t).bind fun _ => .pure rfl) (fun hname => ?_)
    have ht : t.IsInert := by
      simp only [belongsToName, Bool.not_eq_true', Bool.not_eq_false, Bool.and_eq_true] at hname
      exact hname.1.1
    refine .ite (fun _ => Deals.drop (.pure rfl) (hinert t ht)) (fun _ => ?_)
    refine Deals.drop (((nextExpanded_deals n).giving _).bind fun x => ?_) (hinert t ht)
    cases x with
    | none => exact .pure rfl
    | some t => exact .pure rfl

end Inert

/-! ## Numbers -/

/-- What is left in hand of a token which is used if there is a value. -/
def heldUnless (t : Token) : Option α → List Token
  | some _ => []
  | none => [t]

section Numbers

variable {n : Nat} {t : Token}

theorem inert_deals {us : α → List Token} {p : Proc β α} (h : Deals Token.IsExpendable [] p us) (ht : t.IsInert) :
    Deals Token.IsExpendable [t] p us := h.drop (isExpendable_of_isInert t ht)

theorem signs_deals : Deals Token.IsExpendable [] (signs (machine n)) fun x => x.2.toList := by
  refine .iterate (I := fun _ : Bool => []) (fun negative => ?_) (machine n).fuel false
  refine (nonBlank_deals n isExpendable_of_isInert).lift.bind fun x => ?_
  cases x with
  | none => exact .pure rfl
  | some t =>
    refine .ite (fun hminus => inert_deals (.pure rfl) (isInert_of_isOther hminus)) (fun _ => ?_)
    exact .ite (fun hplus => inert_deals (.pure rfl) (isInert_of_isOther hplus)) (fun _ => .pure rfl)

theorem isInert_of_digit {radix d : Nat} (h : digitOf? t radix = some d) : t.IsInert := by
  by_contra hcode
  simp [digitOf?, show t.isCode = true by simpa [Token.IsInert] using hcode] at h

/-- **After the digits only a space is dropped, or a control sequence without a name.** -/
theorem numeralDigits_deals (radix : Nat) (first : Token) :
    Deals Token.IsExpendable [first] (numeralDigits (machine n) radix first) fun _ => [] := by
  refine .iterate (I := fun s : Numeral × Token => [s.2]) (fun (v, t) => ?_) (machine n).fuel ({}, first)
  dsimp only [numeralStep]
  cases hdigit : digitOf? t radix with
  | none =>
    refine .ite (fun _ => (pushBack_deals [] t).bind fun _ => .pure rfl) (fun hdropped => ?_)
    refine Deals.drop (.pure rfl) fun hcode => ?_
    by_contra hname
    have hcat : t.cat ≠ .space := by
      intro hcat
      cases hcode.symm.trans (isInert_of_space hcat)
    exact hdropped (by simp [hname, hcat])
  | some d =>
    refine inert_deals ((nextExpanded_deals n).lift.bind fun x => ?_) (isInert_of_digit hdigit)
    cases x with
    | none => exact .pure rfl
    | some t => exact .pure rfl

theorem digits_some_deals (radix : Nat) (t : Token) :
    Deals Token.IsExpendable [t] (digits (machine n) radix (some t)) fun _ => [] := by
  refine (numeralDigits_deals radix t).lift.bind fun v => ?_
  refine .ite (fun _ => report_return_deals n _ (by decide) _) (fun _ => .ite (fun _ => ?_) (fun _ => .pure rfl))
  exact ((reportHere_deals n _ (by decide)).giving _).bind fun _ => .pure rfl

theorem digits_none_deals (radix : Nat) : Deals Token.IsExpendable [] (digits (machine n) radix none) fun _ => [] := by
  refine (nextExpanded_deals n).lift.bind fun x => ?_
  cases x with
  | none => exact report_return_deals n _ (by decide) _
  | some t => exact digits_some_deals radix t

theorem characterConstant_deals (hmark : t.isOther characterMark = true) :
    Deals Token.IsExpendable [t] (characterConstant (machine n)) fun _ => [] := by
  have hspace : ∀ v : Int64, Deals Token.IsExpendable [] (do
      Proc.giving (optionalSpace (machine n)) v
      return v : Proc Int64 Int64) fun _ => [] :=
    fun v => ((optionalSpace_deals n isExpendable_of_isInert).giving v).bind fun _ => .pure rfl
  have hexpendable := isExpendable_of_isInert t (isInert_of_isOther hmark)
  intro e hand front v e' h
  obtain ⟨x, e₁, hnext, h⟩ := Proc.bind_eq_ok h
  have hread := Proc.lift_eq_ok.1 hnext
  cases x with
  | none =>
    cases h
    exact ⟨.nothing, by simpa using ((Handles.refl _ _).spend hexpendable).finish (.inr hread)⟩
  | some u =>
    dsimp only at h
    split at h
    · -- the token is no constant, and is put back
      have hdeclined := ((Handles.refl ⟨hand ++ [t], front⟩ e).spend hexpendable).decline hread
      have hrest : Deals Token.IsExpendable [] (do
          reportHere (machine n) .missingNumber []
          Proc.giving (optionalSpace (machine n)) 0
          return 0 : Proc Int64 Int64) fun _ => [] := (reportHere_deals n _ (by decide)).lift.bind fun _ => hspace 0
      obtain ⟨front', h'⟩ := hrest (e₁.pushTokens [u]) hand _ v e' h
      exact ⟨front', (by simpa using hdeclined.trans (by simpa using h'))⟩
    · rename_i hsymbol
      have hconstant : u.isControlSequence = true → u.isControlSymbol = true := by simpa using hsymbol
      have hused : Handles Token.IsExpendable ⟨hand ++ [t], front⟩ e ⟨hand, front.read⟩ e₁ :=
        (Handles.refl _ _).constant hmark hread hconstant
      obtain ⟨front', h'⟩ := hspace (Int64.ofNat u.char.toNat) e₁ hand front.read v e' h
      exact ⟨front', hused.trans (by simpa using h')⟩

end Numbers

/-! ## Quantities -/

/-- The tokens which are read for the value of a quantity are all disposed of. -/
def Quantity.Deals : Quantity → Prop
  | count value => Compositor.Deals Token.IsExpendable [] value fun _ => []
  | dimen value => Compositor.Deals Token.IsExpendable [] value fun _ => []
  | glue value => Compositor.Deals Token.IsExpendable [] value fun _ => []
  | toks value => Compositor.Deals Token.IsExpendable [] value fun _ => []

section Quantities

variable {n : Nat} {t : Token} {q : Quantity}

theorem DealsAt.evaluate {value : Proc β α} (hq : e.context.Denotes (machine n) t q)
    (hvalue : ∀ v e', value e = .ok v e' → q.Evaluates e e') (h : Deals Token.IsExpendable [] value fun _ => []) :
    DealsAt Token.IsExpendable [t] value (fun _ => []) e := by
  intro hand front v e' hv
  obtain ⟨front', h'⟩ := h e hand front v e' hv
  simp only [List.append_nil] at h' ⊢
  exact ⟨front', (Handles.refl _ _).evaluate hq (hvalue v e' hv) h'⟩

/-- A token in hand is used as a glue, of which a part is taken. -/
theorem DealsAt.evaluate_glue {value : Proc Measure.Glue Measure.Glue} (hq : e.context.Denotes (machine n) t (.glue value))
    (h : Deals Token.IsExpendable [] value fun _ => []) (f : Measure.Glue → γ) :
    DealsAt Token.IsExpendable [t] (value.mapBoth f : Proc γ γ) (fun _ => []) e := by
  refine .evaluate hq (fun v e' hv => ?_) (h.mapBoth f)
  obtain ⟨g, hg, -⟩ := Proc.mapBoth_eq_ok hv
  exact ⟨g, hg⟩

theorem quantity?_deals {us : α → List Token} {f : Option Quantity → Proc β α}
    (hsome : ∀ q e, e.context.Denotes (machine n) t q → DealsAt Token.IsExpendable [t] (f (some q)) us e)
    (hnone : Deals Token.IsExpendable [t] (f none) us) : Deals Token.IsExpendable [t] (quantity? (machine n) t >>= f) us := by
  intro e hand front a e' h
  rw [quantity?, bind_assoc, meaningOf_bind] at h
  split at h
  · rename_i id name command hmeaning
    change f (quantityOf? (machine n) command) e = .ok a e' at h
    cases hq : quantityOf? (machine n) command with
    | none => exact hnone e hand front a e' (hq ▸ h)
    | some q => exact hsome q e ⟨id, name, command, hmeaning, hq⟩ hand front a e' (hq ▸ h)
  · exact hnone e hand front a e' h

variable (hnumber : Deals Token.IsExpendable [] (machine n).number fun _ => [])
include hnumber

theorem registerName_deals : Deals Token.IsExpendable [] (registerName (machine n)) fun _ => [] := by
  refine Deals.giving (hnumber.lift.bind fun v => ?_) "0"
  exact .ite (fun _ => (reportHere_deals n _ (by decide)).bind fun _ => .pure rfl) (fun _ => .pure rfl)

theorem locate_deals (fixed : Option String) : Deals Token.IsExpendable [] (locate (machine n) fixed) fun _ => [] := by
  cases fixed with
  | none => exact registerName_deals hnumber
  | some name => exact .pure rfl

theorem charCodePoint_deals : Deals Token.IsExpendable [] (charCodePoint (machine n)) fun _ => [] := by
  refine hnumber.lift.bind fun v => ?_
  exact .ite (fun _ => (reportHere_deals n _ (by decide)).bind fun _ => .pure rfl) (fun _ => .pure rfl)

theorem registerValue_deals (fixed : Option String) (value : Context → String → β) :
    Deals Token.IsExpendable [] (registerValue (machine n) fixed value) fun _ => [] := by
  intro e hand front v e' h
  unfold registerValue at h
  cases hlocate : locate (machine n) fixed e with
  | ok name e₁ =>
    rw [hlocate] at h
    cases h
    exact locate_deals hnumber fixed e hand front name e' hlocate
  | error i e₁ =>
    rw [hlocate] at h
    cases h

theorem quantityOf?_deals {command : Command} (hq : quantityOf? (machine n) command = some q) : q.Deals := by
  cases command with
  | register kind fixed =>
    cases kind <;> exact Option.some.inj hq ▸ registerValue_deals hnumber fixed _
  | magnification => exact Option.some.inj hq ▸ Deals.context_bind fun e => DealsAt.pure rfl
  | charCode table =>
    have hcode : ∀ value : Context → Nat → Int64, Deals Token.IsExpendable [] (do
        let code ← charCodePoint (machine n)
        return value (← context) code : Proc Int64 Int64) fun _ => [] :=
      fun value => (charCodePoint_deals hnumber).lift.bind fun _ => .context_bind fun e => DealsAt.pure rfl
    cases table with
    | categories => exact Option.some.inj hq ▸ hcode fun c code => Int64.ofNat (c.catcode code).code
    | codes table => exact Option.some.inj hq ▸ hcode fun c code => c.charcode table code
  | _ => cases hq

theorem Context.Denotes.deals (h : e.context.Denotes (machine n) t q) : q.Deals := by
  obtain ⟨-, -, command, -, hq⟩ := h
  exact quantityOf?_deals hnumber hq

theorem internalInteger?_deals (t : Token) :
    Deals Token.IsExpendable [t] (internalInteger? (machine n) t) (heldUnless t) := by
  refine quantity?_deals (fun q e hq => ?_) (.pure rfl)
  have hdeals := hq.deals hnumber
  cases q with
  | count value => exact (DealsAt.evaluate hq (fun v e' h => ⟨v, h⟩) hdeals).bind fun _ => .pure rfl
  | dimen value => exact (DealsAt.evaluate hq (fun v e' h => ⟨v, h⟩) hdeals).bind fun _ => .pure rfl
  | glue value => exact (DealsAt.evaluate_glue hq hdeals _).bind fun _ => .pure rfl
  | toks value => exact .pure rfl

theorem internalDimen?_deals (t : Token) :
    Deals Token.IsExpendable [t] (internalDimen? (machine n) t) (heldUnless t) := by
  refine quantity?_deals (fun q e hq => ?_) (.pure rfl)
  have hdeals := hq.deals hnumber
  cases q with
  | dimen value => exact (DealsAt.evaluate hq (fun v e' h => ⟨v, h⟩) hdeals).bind fun _ => .pure rfl
  | glue value => exact (DealsAt.evaluate_glue hq hdeals _).bind fun _ => .pure rfl
  | count | toks => exact .pure rfl

theorem unsignedNumber_deals (t : Token) : Deals Token.IsExpendable [t] (unsignedNumber (machine n) t) fun _ => [] := by
  refine (internalInteger?_deals hnumber t).bind fun x => ?_
  cases x with
  | some v => exact .pure rfl
  | none =>
    refine .ite (fun hmark => characterConstant_deals hmark) (fun _ => ?_)
    refine .ite (fun hmark => inert_deals (digits_none_deals 8) (isInert_of_isOther hmark)) (fun _ => ?_)
    refine .ite (fun hmark => inert_deals (digits_none_deals 16) (isInert_of_isOther hmark)) (fun _ => ?_)
    refine .ite (fun _ => digits_some_deals 10 t) (fun _ => ?_)
    exact (pushBack_deals [] t).bind fun _ => report_return_deals n _ (by decide) _

theorem number_deals_of : Deals Token.IsExpendable [] (number (machine n)) fun _ => [] := by
  refine signs_deals.lift.bind fun (negative, first) => ?_
  cases first with
  | none => exact report_return_deals n _ (by decide) _
  | some t => exact (unsignedNumber_deals hnumber t).mapBoth _

end Quantities

/-- The procedure for integers of a machine is the scanner with less fuel. -/
theorem machine_number_deals (n : Nat) : Deals Token.IsExpendable [] (machine n).number fun _ => [] := by
  induction n with
  | zero => exact fun e hand front v e' h => nomatch h
  | succ n ih => exact number_deals_of ih

theorem number_deals (n : Nat) : Deals Token.IsExpendable [] (number (machine n)) fun _ => [] :=
  number_deals_of (machine_number_deals n)

/-! ## Dimensions and glue -/

section Dimensions

variable {n : Nat}

theorem spaceless_deals : Deals Token.IsExpendable [] (optionalSpace (machine n)) fun _ => [] :=
  optionalSpace_deals n isExpendable_of_isInert

theorem word_deals (word : String) : Deals Token.IsExpendable [] (keyword (machine n) word) fun _ => [] :=
  keyword_deals n isExpendable_of_isInert word

theorem isInert_of_decimalPoint {t : Token} (h : isDecimalPoint t = true) : t.IsInert := by
  rcases Bool.or_eq_true_iff.1 h with h | h <;> exact isInert_of_isOther h

theorem fraction_deals : Deals Token.IsExpendable [] (fraction (machine n)) fun _ => [] := by
  refine .iterate (I := fun _ : List Nat => []) (fun read => ?_) (machine n).fuel []
  refine (nextExpanded_deals n).lift.bind fun x => ?_
  cases x with
  | none => exact .pure rfl
  | some t =>
    refine .ite (fun hdigit => inert_deals (.pure rfl) ?_) (fun _ => ?_)
    · have hcat : t.cat = .other := of_decide_eq_true (Bool.and_eq_true_iff.1 (Bool.and_eq_true_iff.1 hdigit).1).1
      exact Token.isCode_of_other hcat
    · refine .ite (fun _ => (pushBack_deals [] t).bind fun _ => .pure rfl) (fun hspace => ?_)
      exact inert_deals (.pure rfl) (isInert_of_space (not_not.1 hspace))

theorem orderFrom_deals (k : Nat) (order : Measure.Order) :
    Deals Token.IsExpendable [] (orderFrom (machine n) k order) fun _ => [] := by
  induction k generalizing order with
  | zero => exact .pure rfl
  | succ k ih => exact (word_deals "l").lift.bind fun found => .ite (fun _ => ih order.next) (fun _ => .pure rfl)

theorem physicalUnit_deals (names : List String) :
    Deals Token.IsExpendable [] (physicalUnit (machine n) names) fun _ => [] := by
  induction names with
  | nil => exact .pure rfl
  | cons name rest ih => exact (word_deals name).lift.bind fun found => .ite (fun _ => .pure rfl) (fun _ => ih)

theorem physicalLength_deals (whole part magnification : Int64) :
    Deals Token.IsExpendable [] (physicalLength (machine n) whole part magnification) fun _ => [] := by
  refine (physicalUnit_deals unitKeywords).bind fun x => ?_
  cases x with
  | none => exact (reportHere_deals n _ (by decide)).bind fun _ => .pure rfl
  | some u => exact spaceless_deals.bind fun _ => .pure rfl

theorem absoluteUnit_deals (whole part : Int64) :
    Deals Token.IsExpendable [] (absoluteUnit (machine n) whole part) fun _ => [] := by
  refine (word_deals "true").lift.bind fun found => .ite (fun _ => ?_) (fun _ => physicalLength_deals _ _ _)
  refine .context_bind fun e => ?_
  cases hset : e.context.setMagnification e.context.magnification true with
  | ok locked =>
    intro hand front d e' h
    obtain ⟨front', h'⟩ := physicalLength_deals whole part e.context.magnification { e with context := locked } hand front d e' h
    exact ⟨front', ((Handles.refl _ _).lock hset).trans h'⟩
  | error fault =>
    have hreport : Deals Token.IsExpendable [] (reportMagnification (machine n) fault e.context.magnification) fun _ => [] :=
      .get_bind fun e => by cases fault <;> exact reportHere_deals n _ (by decide) e
    exact (hreport.bind fun _ => .pure rfl) e

theorem finiteUnit_deals (whole part : Int64) :
    Deals Token.IsExpendable [] (finiteUnit (machine n) whole part) fun _ => [] := by
  have hfont : Deals Token.IsExpendable [] (do
      let font := (← context).style.font
      if ← keyword (machine n) "em" then
        optionalSpace (machine n)
        return timesUnit whole part font.size
      if ← keyword (machine n) "ex" then
        optionalSpace (machine n)
        return timesUnit whole part (font.metrics 0x78).height
      absoluteUnit (machine n) whole part : Action Measure.Dimen) fun _ => [] := by
    refine .context_bind fun e => (word_deals "em").lift.bind (fun found => ?_) e
    refine .ite (fun _ => spaceless_deals.bind fun _ => .pure rfl) (fun _ => ?_)
    refine (word_deals "ex").lift.bind fun found => ?_
    exact .ite (fun _ => spaceless_deals.bind fun _ => .pure rfl) (fun _ => absoluteUnit_deals _ _)
  refine (nonBlank_deals n isExpendable_of_isInert).lift.bind fun first => ?_
  cases first with
  | none => exact hfont
  | some t =>
    refine (internalDimen?_deals (machine_number_deals n) t).lift.bind fun unit? => ?_
    cases unit? with
    | some unit => exact .pure rfl
    | none => exact (pushBack_deals [] t).bind fun _ => hfont

theorem lengthUnit_deals (whole part : Int64) (infinite : Bool) :
    Deals Token.IsExpendable [] (lengthUnit (machine n) whole part infinite) fun _ => [] := by
  have hfinite : Deals Token.IsExpendable [] (do return ⟨← finiteUnit (machine n) whole part, .finite⟩ : Action Measure.Flex)
      fun _ => [] := (finiteUnit_deals whole part).bind fun _ => .pure rfl
  refine .ite (fun _ => ?_) (fun _ => hfinite)
  refine (word_deals "fil").lift.bind fun found => .ite (fun _ => ?_) (fun _ => hfinite)
  exact (orderFrom_deals 2 .fil).bind fun order => spaceless_deals.bind fun _ => .pure rfl

theorem factor_deals (t : Token) : Deals Token.IsExpendable [t] (factor (machine n) t) fun _ => [] := by
  refine .ite (fun _ => ?_) (fun _ => .ite (fun hpoint => ?_) (fun _ => ?_))
  · refine (internalInteger?_deals (machine_number_deals n) t).lift.bind fun x => ?_
    cases x with
    | some v => exact .pure rfl
    | none => exact (pushBack_deals [] t).bind fun _ => (reportHere_deals n _ (by decide)).bind fun _ => .pure rfl
  · exact inert_deals (fraction_deals.bind fun _ => .pure rfl) (isInert_of_decimalPoint hpoint)
  · refine (unsignedNumber_deals (machine_number_deals n) t).lift.bind fun whole => .ite (fun _ => ?_) (fun _ => .pure rfl)
    refine (nextExpanded_deals n).lift.bind fun x => ?_
    cases x with
    | none => exact .pure rfl
    | some u =>
      refine .ite (fun hpoint => ?_) (fun _ => (pushBack_deals [] u).bind fun _ => .pure rfl)
      exact inert_deals (fraction_deals.bind fun _ => .pure rfl) (isInert_of_decimalPoint hpoint)

theorem boundedLength_deals (negative : Bool) (whole part : Int64) (infinite : Bool) :
    Deals Token.IsExpendable [] (boundedLength (machine n) negative whole part infinite) fun _ => [] := by
  unfold boundedLength
  generalize (if whole < 0 then (!negative, -whole) else (negative, whole)) = sign
  refine (lengthUnit_deals _ _ _).lift.bind fun length => .ite (fun _ => ?_) (fun _ => .pure rfl)
  exact ((reportHere_deals n _ (by decide)).giving _).bind fun _ => .pure rfl

theorem lengthFrom_deals (negative : Bool) (t : Token) (infinite : Bool) :
    Deals Token.IsExpendable [t] (lengthFrom (machine n) negative t infinite) fun _ => [] := by
  refine ((internalDimen?_deals (machine_number_deals n) t).leaving _).bind fun x => ?_
  cases x with
  | some d => exact .pure rfl
  | none => exact (factor_deals t).lift.bind fun (whole, part) => boundedLength_deals negative whole part infinite

theorem dimension_deals (n : Nat) : Deals Token.IsExpendable [] (dimension (machine n)) fun _ => [] := by
  refine signs_deals.lift.bind fun (negative, first) => ?_
  cases first with
  | none => exact report_return_deals n _ (by decide) _
  | some t => exact (lengthFrom_deals negative t false).mapBoth _

theorem flexSpec_deals : Deals Token.IsExpendable [] (flexSpec (machine n)) fun _ => [] := by
  refine signs_deals.lift.bind fun (negative, first) => ?_
  cases first with
  | none => exact report_return_deals n _ (by decide) _
  | some t => exact lengthFrom_deals negative t true

theorem glueFrom_deals (natural : Measure.Dimen) : Deals Token.IsExpendable [] (glueFrom (machine n) natural) fun _ => [] := by
  have hminus : ∀ g : Measure.Glue, Deals Token.IsExpendable [] (do
      let mut g := g
      if ← Proc.giving (keyword (machine n) "minus") g then
        let before := g
        let shrink ← Proc.leaving (flexSpec (machine n)) fun f => { before with shrink := f }
        g := { g with shrink }
      return g : Proc Measure.Glue Measure.Glue) fun _ => [] := by
    intro g
    refine ((word_deals "minus").giving g).bind fun found => .ite (fun _ => ?_) (fun _ => .pure rfl)
    exact (flexSpec_deals.leaving _).bind fun shrink => .pure rfl
  refine ((word_deals "plus").giving _).bind fun found => .ite (fun _ => ?_) (fun _ => hminus _)
  exact (flexSpec_deals.leaving _).bind fun stretch => hminus _

theorem glueSpec_deals (n : Nat) : Deals Token.IsExpendable [] (glueSpec (machine n)) fun _ => [] := by
  refine signs_deals.lift.bind fun (negative, first) => ?_
  cases first with
  | none => exact report_return_deals n _ (by decide) _
  | some t =>
    have hlength : Deals Token.IsExpendable [t] (do
        let length ← Proc.leaving (lengthFrom (machine n) negative t false) fun f => Measure.Glue.rigid f.value
        glueFrom (machine n) length.value : Proc Measure.Glue Measure.Glue) fun _ => [] :=
      ((lengthFrom_deals negative t false).leaving _).bind fun length => glueFrom_deals _
    refine quantity?_deals (fun q e hq => ?_) hlength
    cases q with
    | glue value => exact .evaluate_glue hq (hq.deals (machine_number_deals n)) _
    | count | dimen | toks => exact hlength e

theorem isInert_of_relation {t : Token} {r : Relation} (h : Relation.ofToken? t = some r) : t.IsInert := by
  unfold Relation.ofToken? at h
  split_ifs at h <;> exact isInert_of_isOther ‹_›

/-- Where a relation should be, a control sequence without a name is dropped. -/
theorem relation_deals (n : Nat) : Deals Token.IsExpendable [] (relation (machine n)) fun _ => [] := by
  have hmissing : Deals Token.IsExpendable [] (do
      reportHere (machine n) .missingToken ["="]
      return .equal : Action Relation) fun _ => [] := (reportHere_deals n _ (by decide)).bind fun _ => .pure rfl
  refine (nonBlank_deals n isExpendable_of_isInert).lift.bind fun first => ?_
  cases first with
  | none => exact hmissing
  | some t =>
    dsimp only [Option.bind_some, Option.toList_some]
    cases hrelation : Relation.ofToken? t with
    | some r => exact inert_deals (.pure rfl) (isInert_of_relation hrelation)
    | none =>
      refine .ite (fun _ => (pushBack_deals [] t).bind fun _ => hmissing) (fun hname => ?_)
      exact Deals.drop hmissing fun _ => by simpa using hname

end Dimensions

/-! ## All scanners -/

/-- On the way from one state to another everything which was read has been put back, spent or used. What has been put back
and not been read again is next, after what handlers have inserted. -/
def LosesOnly (Spent : Token → Prop) (e e' : Engine) : Prop :=
  ∃ front : Front, Handles Spent ⟨[], .nothing⟩ e ⟨[], front⟩ e' ∧ (∀ t ∈ front.tokens, e'.context.Unexpandable t) ∧
    ∃ below, e'.input = front.cover ++ below ∧ ∀ lexicon, ∃ rest, Input.Delivers lexicon below front.tokens rest

theorem Deals.losesOnly {p : Proc β α} {a : α} {e' : Engine} (h : Deals Spent [] p fun _ => []) (hp : p e = .ok a e') :
    LosesOnly Spent e e' := by
  obtain ⟨front, hhandles⟩ := h e [] .nothing a e' hp
  have hempty : Desk.Sound ⟨[], .nothing⟩ e := ⟨Front.isAhead_nothing e.input, fun t ht => by simp [Front.nothing] at ht⟩
  have hsound := hhandles.sound hempty
  obtain ⟨below, hbelow, hahead⟩ := hsound.isAhead
  exact ⟨front, hhandles, fun t ht => hsound.unexpandable t (.inr ht), below, hbelow, Input.delivers_of_ahead hahead⟩

/-- **Control sequences are spared**, unless they have no name: what a scanner has read and not used is next when the scanner
comes to its end, behind what handlers of errors have inserted. Keywords and file names spare those without a name, too. -/
theorem control_sequences_spared (n : Nat) (e e' : Engine) :
    (∀ v, number (machine n) e = .ok v e' → LosesOnly Token.IsExpendable e e') ∧
      (∀ d, dimension (machine n) e = .ok d e' → LosesOnly Token.IsExpendable e e') ∧
      (∀ g, glueSpec (machine n) e = .ok g e' → LosesOnly Token.IsExpendable e e') ∧
      (∀ r, relation (machine n) e = .ok r e' → LosesOnly Token.IsExpendable e e') ∧
      (∀ word found, keyword (machine n) word e = .ok found e' → LosesOnly Token.IsInert e e') ∧
      ∀ name, fileName (machine n) e = .ok name e' → LosesOnly Token.IsInert e e' :=
  ⟨fun _ h => (number_deals n).losesOnly h, fun _ h => (dimension_deals n).losesOnly h, fun _ h => (glueSpec_deals n).losesOnly h,
    fun _ h => (relation_deals n).losesOnly h, fun word _ h => (keyword_deals n (fun _ ht => ht) word).losesOnly h,
    fun _ h => (fileName_deals n fun _ ht => ht).losesOnly h⟩

/-- A control sequence follows each of these: digits, the place of a unit, a glue and a relation. One without a name follows
the beginning of a keyword and a file name. -/
theorem control_sequences_spared_sample :
    let facing : List Token → Engine := fun ts => (Engine.new default {}).pushTokens ts
    let stop : Token := .controlSequence "x" ""
    let nameless : Token := .controlSequence "" ""
    (∃ e', number (machine 20) (facing [.other '1', stop]) = .ok 1 e' ∧
        LosesOnly Token.IsExpendable (facing [.other '1', stop]) e') ∧
      (∃ e', dimension (machine 20) (facing [.other '1', stop]) = .ok 65536 e' ∧
        LosesOnly Token.IsExpendable (facing [.other '1', stop]) e') ∧
      (∃ e', glueSpec (machine 20) (facing [stop]) = .ok (.rigid 0) e' ∧ LosesOnly Token.IsExpendable (facing [stop]) e') ∧
      (∃ e', relation (machine 20) (facing [stop]) = .ok .equal e' ∧ LosesOnly Token.IsExpendable (facing [stop]) e') ∧
      (∃ e', keyword (machine 20) "to" (facing [.letter 't', nameless]) = .ok false e' ∧
        LosesOnly Token.IsInert (facing [.letter 't', nameless]) e') ∧
      ∃ e', fileName (machine 20) (facing [.letter 'a', nameless]) = .ok "a" e' ∧
        LosesOnly Token.IsInert (facing [.letter 'a', nameless]) e' := by
  intro facing stop nameless
  have hnumber := eq_ok_of_valueOf (show valueOf (number (machine 20) (facing [.other '1', stop])) = some 1 by decide +kernel)
  have hdimension := eq_ok_of_valueOf
    (show valueOf (dimension (machine 20) (facing [.other '1', stop])) = some 65536 by decide +kernel)
  have hglue := eq_ok_of_valueOf (show valueOf (glueSpec (machine 20) (facing [stop])) = some (.rigid 0) by decide +kernel)
  have hrelation := eq_ok_of_valueOf (show valueOf (relation (machine 20) (facing [stop])) = some .equal by decide +kernel)
  have hkeyword := eq_ok_of_valueOf
    (show valueOf (keyword (machine 20) "to" (facing [.letter 't', nameless])) = some false by decide +kernel)
  have hname := eq_ok_of_valueOf
    (show valueOf (fileName (machine 20) (facing [.letter 'a', nameless])) = some "a" by decide +kernel)
  exact ⟨⟨_, hnumber, (control_sequences_spared 20 _ _).1 _ hnumber⟩,
    ⟨_, hdimension, (control_sequences_spared 20 _ _).2.1 _ hdimension⟩,
    ⟨_, hglue, (control_sequences_spared 20 _ _).2.2.1 _ hglue⟩,
    ⟨_, hrelation, (control_sequences_spared 20 _ _).2.2.2.1 _ hrelation⟩,
    ⟨_, hkeyword, (control_sequences_spared 20 _ _).2.2.2.2.1 _ _ hkeyword⟩,
    ⟨_, hname, (control_sequences_spared 20 _ _).2.2.2.2.2 _ hname⟩⟩

/-- An engine in which control sequences can be made of a name, in front of a text. -/
def Engine.naming (text : String) : Engine :=
  let e := (Engine.new default {}).bind "csname" fun id => .primitive id "csname" (.expansion .controlSequenceName)
  (e.bind "endcsname" fun id => .primitive id "endcsname" (.command .endName)).pushText text ""

/-- A control sequence without a name follows the digit, and is neither expanded nor a quantity. The number which is scanned
there ends with the digit, but the letter is next. The same happens where a relation should be. -/
theorem nameless_control_sequence_dropped :
    let e := Engine.naming "1\\csname\\endcsname x"
    let e₁ := finalState ((machine 20).nextExpanded e)
    let e₂ := finalState ((machine 20).nextExpanded e₁)
    let nameless : Token := .controlSequence "" ""
    let atNumber := number (machine 20) e
    let atRelation := relation (machine 20) e₁
    (valueOf ((machine 20).nextExpanded e) = some (some (.other '1')) ∧
        valueOf ((machine 20).nextExpanded e₁) = some (some nameless)) ∧
      (e₂.context.Unexpandable nameless ∧ ∀ m q, ¬ e₂.context.Denotes m nameless q) ∧
      (valueOf atNumber = some 1 ∧ valueOf ((machine 20).nextExpanded (finalState atNumber)) = some (some (.letter 'x'))) ∧
      valueOf atRelation = some .equal ∧
      valueOf ((machine 20).nextExpanded (finalState atRelation)) = some (some (.letter 'x')) := by
  intro e e₁ e₂ nameless atNumber atRelation
  have hrelax : e₂.context.meaning? nameless = some (.primitive 3 "relax" (.command .relax)) := by decide +kernel
  refine ⟨by decide +kernel, ⟨?_, ?_⟩, by decide +kernel, by decide +kernel⟩
  · rw [Context.Unexpandable, hrelax]
    rfl
  · rintro m q ⟨id, name, command, hmeaning, hq⟩
    cases hrelax.symm.trans hmeaning
    cases hq

end Compositor
