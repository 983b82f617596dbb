import Compositor.Proofs.Engine.Runs
import Compositor.Proofs.Engine.Steps

/-!
# The conduct of procedures

`Meets R p Q` says of a procedure that from every state it takes a course which the regime `R` allows, and that it
delivers a value with the property `Q`. A regime says whether the tokens of the state are known to be proper, whether
commands may be executed, and whether a recoverable problem may stop the procedure.

The lemmas here follow the ways in which procedures are made: `Meets.bind` for one after the other, `Meets.iterate` for
loops, `Meets.absorb` for the place where errors are reported. `Resolves` is about the handler of errors, who may refuse
to go on. `Machine.Sound` is the assumption about the procedures which may call themselves.
-/

namespace Compositor

variable {α β γ σ ρ : Type}

/-! ## Regimes -/

/-- What stops a procedure ends the run as well. -/
def Stop.IsFinal : Stop → Prop
  | diagnostic d => d.isFatal = true
  | outOfFuel => True

/-- What is known and allowed where a procedure is used. -/
structure Regime where
  /-- Tokens are known to be proper. -/
  strict : Prop
  level : Level
  /-- Nothing but what ends the run may stop the procedure. -/
  firm : Prop

namespace Regime

/-- The regime in which recoverable problems may stop a procedure. -/
abbrev loose (R : Regime) : Regime := { R with firm := False }

/-- The regime in which tokens are only read and expanded. -/
abbrev scanning (R : Regime) : Regime := { R with level := .scanning }

abbrev command (strict : Prop) : Regime := ⟨strict, .working, False⟩

/-- The token is proper, if that is known. -/
def Admits (R : Regime) (t : Token) : Prop := R.strict → t.Proper

def Reports (R : Regime) (k : Kind) : Prop := k ≠ .errorLimit ∧ k ≠ .aborted ∧ (R.strict → k ≠ .internal)

def Stops (R : Regime) (k : Kind) : Prop := R.Reports k ∧ (R.firm → k.isFatal = true)

variable {R : Regime} {k : Kind}

@[simp] theorem reports_iff : R.Reports k ↔ k ≠ .errorLimit ∧ k ≠ .aborted ∧ (R.strict → k ≠ .internal) :=
  Iff.rfl

@[simp] theorem stops_iff : R.Stops k ↔ R.Reports k ∧ (R.firm → k.isFatal = true) := Iff.rfl

end Regime

/-! ## Procedures -/

/-- The state in which a procedure ends, be it stopped or not. -/
def finalState : EStateM.Result (Interrupted β) Engine α → Engine
  | .ok _ e => e
  | .error _ e => e

/-- The value which a procedure delivers, if nothing stops it. -/
def valueOf : EStateM.Result (Interrupted β) Engine α → Option α
  | .ok a _ => some a
  | .error _ _ => none

theorem eq_ok_of_valueOf {r : EStateM.Result (Interrupted β) Engine α} {a : α} (h : valueOf r = some a) :
    r = .ok a (finalState r) := by
  cases r with
  | ok a' e =>
    obtain rfl := Option.some.inj h
    rfl
  | error i e => cases h

theorem exists_of_valueOf {r : EStateM.Result (Interrupted β) Engine α} {a : α} (h : valueOf r = some a) :
    ∃ e, r = .ok a e := ⟨_, eq_ok_of_valueOf h⟩

/-- From the state `e` on, the course up to this result is one which the regime allows. -/
def Attains (R : Regime) (Q : α → Prop) (e : Engine) : EStateM.Result (Interrupted β) Engine α → Prop
  | .ok a e' => Course R.strict R.level none e e' ∧ Q a
  | .error i e' => Course R.strict R.level (some i.cause) e e' ∧ (R.firm → i.cause.IsFinal)

/-- From this state the procedure does what the regime allows, and delivers a value with the property. -/
def MeetsAt (R : Regime) (p : Proc β α) (Q : α → Prop) (e : Engine) : Prop := Attains R Q e (p e)

/-- From every state the procedure does what the regime allows, and delivers a value with the property. -/
def Meets (R : Regime) (p : Proc β α) (Q : α → Prop) : Prop := ∀ e, (R.strict → e.Proper) → MeetsAt R p Q e

/-- A loop goes on with a state which has a property, or ends with a result which has another one. -/
def Turn.Keeps (I : σ → Prop) (P : ρ → Prop) : Turn σ ρ → Prop
  | again s => I s
  | done r => P r

section Procedures

variable {R : Regime} {Q : α → Prop} {Q' : γ → Prop} {e e₁ e' : Engine}

theorem Course.proper_of (h : Course R.strict R.level none e e') (he : R.strict → e.Proper) : R.strict → e'.Proper :=
  fun hs => h.proper hs (he hs)

theorem MeetsAt.of_ok {p : Proc β α} {a : α} (h : p e = .ok a e') (hR : Course R.strict R.level none e e') (ha : Q a) :
    MeetsAt R p Q e := by
  rw [MeetsAt, h]
  exact ⟨hR, ha⟩

theorem MeetsAt.of_error {p : Proc β α} {i : Interrupted β} (h : p e = .error i e')
    (hR : Course R.strict R.level (some i.cause) e e') (hi : R.firm → i.cause.IsFinal) : MeetsAt R p Q e := by
  rw [MeetsAt, h]
  exact ⟨hR, hi⟩

theorem MeetsAt.ok {p : Proc β α} {a : α} (h : MeetsAt R p Q e) (hp : p e = .ok a e') :
    Course R.strict R.level none e e' ∧ Q a := by
  rw [MeetsAt, hp] at h
  exact h

theorem MeetsAt.error {p : Proc β α} {i : Interrupted β} (h : MeetsAt R p Q e) (hp : p e = .error i e') :
    Course R.strict R.level (some i.cause) e e' ∧ (R.firm → i.cause.IsFinal) := by
  rw [MeetsAt, hp] at h
  exact h

/-- A procedure which works as another one in this state. -/
theorem MeetsAt.congr {p q : Proc β α} (h : MeetsAt R q Q e) (hpq : p e = q e) : MeetsAt R p Q e := by
  rw [MeetsAt, hpq]
  exact h

theorem Attains.after {r : EStateM.Result (Interrupted β) Engine α} (h : Attains R Q e' r)
    (hR : Course R.strict R.level none e e') : Attains R Q e r := by
  cases r with
  | ok a e'' => exact ⟨hR.trans h.1, h.2⟩
  | error i e'' => exact ⟨hR.trans h.1, h.2⟩

theorem Attains.course {r : EStateM.Result (Interrupted β) Engine α} (h : Attains R Q e r) :
    ∃ o, Course R.strict R.level o e (finalState r) := by
  cases r with
  | ok a e' => exact ⟨none, h.1⟩
  | error i e' => exact ⟨some i.cause, h.1⟩

/-- A procedure which changes the state first, and then works as another one. -/
theorem MeetsAt.after {p q : Proc β α} (h : MeetsAt R q Q e') (hR : Course R.strict R.level none e e')
    (hpq : p e = q e') : MeetsAt R p Q e := by
  rw [MeetsAt, hpq]
  exact Attains.after h hR

theorem MeetsAt.map {p : Proc β α} (h : MeetsAt R p Q e) (f : α → γ) : MeetsAt R (f <$> p) (fun _ => True) e := by
  cases hp : p e with
  | ok a e' => exact .of_ok (a := f a) (by simp only [Functor.map, EStateM.map, hp]) (h.ok hp).1 trivial
  | error i e' => exact .of_error (i := i) (by simp only [Functor.map, EStateM.map, hp]) (h.error hp).1 (h.error hp).2

/-- One procedure after the other. The first one may be held to a stricter regime, which the second one then relies
on. -/
theorem MeetsAt.bind {S : Regime} {x : Proc β α} {f : α → Proc β γ} (hx : MeetsAt S x Q e)
    (hS : ∀ {o e'}, Course S.strict S.level o e e' → Course R.strict R.level o e e') (hfirm : R.firm → S.firm)
    (hf : ∀ a e', Course S.strict S.level none e e' → Q a → MeetsAt R (f a) Q' e') : MeetsAt R (x >>= f) Q' e := by
  cases h : x e with
  | error i e' =>
    obtain ⟨hstrict, hi⟩ := hx.error h
    exact .of_error (Proc.bind_error h) (hS hstrict) fun hR => hi (hfirm hR)
  | ok a e' =>
    obtain ⟨hstrict, ha⟩ := hx.ok h
    exact (hf a e' hstrict ha).after (hS hstrict) (Proc.bind_ok h)

namespace Meets

theorem mono {p : Proc β α} {P : α → Prop} (h : Meets R p Q) (hQ : ∀ a, Q a → P a) : Meets R p P := by
  intro e he
  cases hp : p e with
  | ok a e' => exact .of_ok hp ((h e he).ok hp).1 (hQ a ((h e he).ok hp).2)
  | error i e' => exact .of_error hp ((h e he).error hp).1 ((h e he).error hp).2

theorem anyway {p : Proc β α} (h : Meets R p Q) : Meets R p fun _ => True := h.mono fun _ _ => trivial

theorem leaving {p : Proc γ α} (h : Meets R p Q) (f : γ → β) : Meets R (p.leaving f) Q := by
  intro e he
  cases hp : p e with
  | ok a e' => exact .of_ok (by simp only [Proc.leaving, hp]) ((h e he).ok hp).1 ((h e he).ok hp).2
  | error i e' =>
    exact .of_error (i := ⟨i.cause, f i.sofar⟩) (by simp only [Proc.leaving, hp]) ((h e he).error hp).1
      ((h e he).error hp).2

theorem giving {p : Proc γ α} (h : Meets R p Q) (b : β) : Meets R (p.giving b) Q := h.leaving _

theorem lift [Inhabited β] {p : Proc γ α} (h : Meets R p Q) : Meets R (monadLift p : Proc β α) Q := h.giving default

theorem mapBoth {p : Proc α α} (h : Meets R p Q) (f : α → γ) : Meets R (p.mapBoth f) fun _ => True := by
  intro e he
  cases hp : p e with
  | ok a e' => exact .of_ok (a := f a) (by simp only [Proc.mapBoth, hp]) ((h e he).ok hp).1 trivial
  | error i e' =>
    exact .of_error (i := ⟨i.cause, f i.sofar⟩) (by simp only [Proc.mapBoth, hp]) ((h e he).error hp).1
      ((h e he).error hp).2

theorem map {p : Proc β α} (h : Meets R p Q) (f : α → γ) : Meets R (f <$> p) fun _ => True :=
  fun e he => (h e he).map f

theorem discard {p : Proc β α} (h : Meets R p Q) : Meets R (discard p) fun _ => True := h.map _

theorem modify {f : Engine → Engine} (hf : ∀ e, (R.strict → e.Proper) → Course R.strict R.level none e (f e)) :
    Meets R (modify f : Proc β PUnit) fun _ => True :=
  fun e he => .of_ok rfl (hf e he) trivial

/-- What is read from the state is known in it. -/
theorem get_bind {f : Engine → Proc β γ} (hf : ∀ e, (R.strict → e.Proper) → MeetsAt R (f e) Q' e) :
    Meets R (get >>= f) Q' :=
  fun e he => (hf e he).congr rfl

theorem context_bind {f : Context → Proc β γ} (hf : ∀ e, (R.strict → e.Proper) → MeetsAt R (f e.context) Q' e) :
    Meets R (context >>= f) Q' :=
  fun e he => (hf e he).congr rfl

theorem ite {c : Prop} [Decidable c] {p q : Proc β α} (hp : c → Meets R p Q) (hq : ¬ c → Meets R q Q) :
    Meets R (if c then p else q) Q := by
  split
  · exact hp ‹_›
  · exact hq ‹_›

theorem bind {x : Proc β α} {f : α → Proc β γ} (hx : Meets R x Q) (hf : ∀ a, Q a → Meets R (f a) Q') :
    Meets R (x >>= f) Q' :=
  fun e he => (hx e he).bind id id fun a e' hR ha => hf a ha e' (hR.proper_of he)

theorem pure {a : α} (ha : Q a) : Meets R (pure a : Proc β α) Q :=
  fun e _ => .of_ok rfl (.refl e) ha

theorem onStop {p : Proc β α} {ts : List Token} (h : Meets R p Q) (hts : ∀ t ∈ ts, R.Admits t) :
    Meets R (p.onStop (·.pushTokens ts)) Q := by
  intro e he
  cases hp : p e with
  | ok a e' => exact .of_ok (by simp only [Proc.onStop, hp]) ((h e he).ok hp).1 ((h e he).ok hp).2
  | error i e' =>
    obtain ⟨hR, hi⟩ := (h e he).error hp
    exact .of_error (by simp only [Proc.onStop, hp]) (.restore hR fun hs t ht => hts t ht hs) hi

theorem exhausted (b : β) : Meets R (throw ⟨.outOfFuel, b⟩ : Proc β α) Q :=
  fun e _ => .of_error rfl (.exhausted (.refl e)) fun _ => trivial

theorem iterate [Inhabited β] {step : σ → Proc β (Turn σ ρ)} {I : σ → Prop} {P : ρ → Prop}
    (hstep : ∀ s, I s → Meets R (step s) (Turn.Keeps I P)) (fuel : Nat) {s : σ} (hs : I s) :
    Meets R (iterate step fuel s) P := by
  induction fuel generalizing s with
  | zero => exact exhausted default
  | succ fuel ih =>
    rw [Compositor.iterate]
    refine bind (hstep s hs) fun turn hturn => ?_
    cases turn with
    | again s' => exact ih hturn
    | done r => exact pure hturn

end Meets

/-- What stops a loop is what may stop one of its steps, unless there is no fuel left. -/
theorem iterate_stops [Inhabited β] {step : σ → Proc β (Turn σ ρ)} {P : Stop → Prop} (hfuel : P .outOfFuel)
    (hstep : ∀ s e i e', step s e = .error i e' → P i.cause) {fuel : Nat} {s : σ} {i : Interrupted β}
    (h : iterate step fuel s e = .error i e') : P i.cause := by
  induction fuel generalizing s e with
  | zero =>
    cases h
    exact hfuel
  | succ fuel ih =>
    rw [iterate] at h
    cases hturn : step s e with
    | error j e₁ =>
      rw [Proc.bind_error hturn] at h
      cases h
      exact hstep s e _ _ hturn
    | ok turn e₁ =>
      rw [Proc.bind_ok hturn] at h
      cases turn with
      | again s' => exact ih h
      | done r => cases h

/-! ## Elementary procedures -/

theorem Course.of_scan (h : ScanStep R.strict e e') : Course R.strict R.level none e e' := .scan (.refl e) h

theorem meets_modify {f : Engine → Engine} (hf : ∀ e, ScanStep R.strict e (f e)) :
    Meets R (modify f : Proc β PUnit) fun _ => True :=
  .modify fun e _ => .of_scan (hf e)

theorem meets_locator : Meets R (locator : Proc β Locator) fun _ => True :=
  fun e _ => .of_ok rfl (.refl e) trivial

theorem meets_context : Meets R (context : Proc β Context) fun c => R.strict → c.Proper :=
  fun e he => .of_ok rfl (.refl e) fun hs => (he hs).context

theorem meets_get : Meets R (get : Proc β Engine) fun e => R.strict → e.Proper :=
  fun e he => .of_ok rfl (.refl e) he

theorem meets_meaningOf (t : Token) :
    Meets R (meaningOf t : Proc β (Option Meaning)) fun x => ∀ m ∈ x, R.strict → m.Proper := by
  unfold meaningOf
  refine .ite (fun _ => ?_) (fun _ => .pure fun m hm => by cases hm)
  exact meets_context.bind fun c hc => .pure fun m hm hs => (hc hs).meaning t m hm

theorem meets_pushTokens {ts : List Token} (h : ∀ t ∈ ts, R.Admits t) :
    Meets R (pushTokens ts : Proc β Unit) fun _ => True :=
  meets_modify fun _ => .pushTokens fun hs t ht => h t ht hs

theorem meets_pushBack {t : Token} (h : R.Admits t) : Meets R (pushBack t : Proc β Unit) fun _ => True :=
  meets_pushTokens (by simpa using h)

theorem meets_freshId : Meets R (freshId : Proc β Nat) fun _ => True :=
  fun _ _ => .of_ok rfl (.of_scan .freshId) trivial

theorem meets_diagnosticHere (kind : Kind) (arguments : List Argument) :
    Meets R (diagnosticHere kind arguments : Proc β Diagnostic) fun d => d.kind = kind :=
  meets_locator.bind fun _ _ => .pure rfl

theorem meets_stopWith {d : Diagnostic} (hd : R.Stops d.kind) : Meets R (stopWith d : Action α) Q := by
  intro e _
  exact .of_error (i := ⟨.diagnostic d, ()⟩) rfl (.stop (.refl e) hd.1) hd.2

theorem meets_complain {kind : Kind} (arguments : List Argument) (h : R.Stops kind) :
    Meets R (complain kind arguments : Action α) Q :=
  (meets_diagnosticHere kind arguments).bind fun _ hd => meets_stopWith (hd ▸ h)

theorem meets_complain_bind {kind : Kind} (arguments : List Argument) {f : α → Action γ} (h : R.Stops kind) :
    Meets R (complain kind arguments >>= f) Q' := by
  have hstop : Meets R (complain kind arguments : Action α) fun _ => False := meets_complain arguments h
  exact hstop.bind fun _ h => h.elim

/-! ## Handlers of errors -/

/-- From the state `e` on, there has been this decision of a handler: the run goes on, or a diagnostic ends it. -/
def Resolves (R : Regime) (e : Engine) : EStateM.Result (Interrupted Unit) Engine Bool → Prop
  | .ok goesOn e' =>
    (goesOn = true → Course R.strict R.level none e e') ∧
      (goesOn = false → ∀ x : Diagnostic, x.kind = .aborted →
        Course R.strict R.level (some (.diagnostic x)) e (e'.record (.stopped x)))
  | .error i e' => Course R.strict R.level (some i.cause) e e' ∧ (R.firm → i.cause.IsFinal)

theorem Resolves.after {r : EStateM.Result (Interrupted Unit) Engine Bool} (h : Resolves R e₁ r)
    (hR : Course R.strict R.level none e e₁) : Resolves R e r := by
  cases r with
  | ok goesOn e' => exact ⟨fun hb => hR.trans (h.1 hb), fun hb x hx => hR.trans (h.2 hb x hx)⟩
  | error i e' => exact ⟨hR.trans h.1, h.2⟩

theorem MeetsAt.resolves {p : Action Bool} (h : MeetsAt R p (fun goesOn => goesOn = true) e) : Resolves R e (p e) := by
  cases hp : p e with
  | ok goesOn e' =>
    obtain ⟨hcourse, rfl⟩ := h.ok hp
    exact ⟨fun _ => hcourse, nofun⟩
  | error i e' => exact h.error hp

theorem Course.resolves (h : Course R.strict R.level none e e₁) (goesOn : Bool) :
    Resolves R e (.ok goesOn (e₁.record (.decided goesOn))) := by
  refine ⟨?_, ?_⟩
  · rintro rfl
    exact .consent h
  · rintro rfl x hx
    exact .decline h hx

/-- The run is stopped if the handler does not want it to go on. -/
theorem Resolves.attains {p : Action Bool} (h : Resolves R e (p e)) {x : Diagnostic} (hx : x.kind = .aborted) :
    MeetsAt R (do unless ← p do stopWith x : Action Unit) (fun _ => True) e := by
  cases hp : p e with
  | ok goesOn e' =>
    rw [hp] at h
    cases goesOn with
    | true => exact .of_ok (Proc.bind_ok hp) (h.1 rfl) trivial
    | false =>
      have hfinal : Stop.IsFinal (.diagnostic x) := by
        simp [Stop.IsFinal, Diagnostic.isFatal, hx, Kind.isFatal, Kind.number]
      exact .of_error (Proc.bind_ok hp) (h.2 rfl x hx) fun _ => hfinal
  | error i e' =>
    rw [hp] at h
    exact .of_error (Proc.bind_error hp) h.1 h.2

theorem meets_write (s : String) : Meets R (modify (·.write s) : Action PUnit) fun _ => True :=
  meets_modify fun _ => .console rfl

theorem meets_true : Meets R (return true : Action Bool) fun goesOn => goesOn = true := .pure rfl

theorem meets_help (c : Prop) [Decidable c] (s : String) : Meets R (do
    if c then modify (·.write s)
    return true : Action Bool) fun goesOn => goesOn = true :=
  .ite (fun _ => (meets_write s).bind fun _ _ => meets_true) fun _ => meets_true

theorem meets_print (c₁ c₂ : Prop) [Decidable c₁] [Decidable c₂] (s₁ s₂ : String) : Meets R (do
    if c₁ then
      modify (·.write s₁)
      if c₂ then modify (·.write s₂)
    return true : Action Bool) fun goesOn => goesOn = true :=
  .ite (fun _ => (meets_write s₁).bind fun _ _ => meets_help c₂ s₂) fun _ => meets_true

theorem Course.intervene {i : Intervention} (hi : ∀ p, e.handler.Avoids p → p i = false) :
    Course R.strict R.level none e (e.intervene i) := by
  cases i with
  | insertText text source => exact .of_scan (.pushText text source)
  | insertTokens tokens =>
    -- the inserted tokens are proper, since a handler has to say so
    refine .of_scan (.pushTokens fun _ t ht => ?_)
    obtain ⟨u, -, rfl⟩ := List.mem_map.1 ht
    exact u.2
  | setInteraction mode => exact .of_scan (.setInteraction mode)
  | say s => exact .say (.refl e) (.inr fun havoids => nomatch hi _ havoids) s
  | halt => exact .of_scan (.halt fun havoids => nomatch hi _ havoids)

theorem Course.interventions {is : List Intervention} (his : ∀ i ∈ is, ∀ p, e.handler.Avoids p → p i = false) :
    Course R.strict R.level none e (is.foldl Engine.intervene e) := by
  induction is generalizing e with
  | nil => exact .refl e
  | cons i is ih =>
    have hstep : Course R.strict R.level none e (e.intervene i) := .intervene (his i List.mem_cons_self)
    refine hstep.trans (ih fun j hj => ?_)
    rw [hstep.sameTerms.handler]
    exact his j (List.mem_cons_of_mem i hj)

theorem resolves_note (abortAt : Nat) (d : Diagnostic) : Resolves R e (note abortAt d e) :=
  have hnoted : Course R.strict R.level none e { e with console.noted := d :: e.console.noted } :=
    .of_scan (.console rfl)
  hnoted.resolves _

/-- A handler of one's own does what it likes, and decides. -/
theorem resolves_consultCustom {answer : List Diagnostic → Context → Reply} (d : Diagnostic)
    (hhandler : e.handler = .custom answer) : Resolves R e (consultCustom answer d e) := by
  have hnoted : Course R.strict R.level none e { e with console.noted := d :: e.console.noted } :=
    .of_scan (.console rfl)
  refine (hnoted.trans (.interventions fun i hi p havoids => ?_)).resolves _
  have havoids : e.handler.Avoids p := havoids
  rw [hhandler] at havoids
  exact havoids _ _ i hi

/-! ## Machines -/

/-- The procedures which may call themselves do what they should: they read and expand tokens, or execute commands, and
only what ends the run stops them. -/
structure Machine.Sound (m : Machine) : Prop where
  next {R : Regime} : Meets R m.next fun x => ∀ t ∈ x, R.Admits t
  /-- Nothing but a refusal or an error too many stops the reading of a token. -/
  next_stops {e e' : Engine} {d : Diagnostic} (h : m.next e = .error ⟨.diagnostic d, ()⟩ e') :
    d.kind = .aborted ∨ d.kind = .errorLimit
  nextExpanded {R : Regime} : Meets R m.nextExpanded fun x => ∀ t ∈ x, R.Admits t
  number {R : Regime} : Meets R m.number fun _ => True
  expandOnce {R : Regime} {t : Token} (ht : R.Admits t) : Meets R (m.expandOnce t) fun _ => True
  execute {R : Regime} (hR : R.level = .working) (least : Nat) : Meets R (m.execute least) fun _ => True

theorem Machine.sound_stuck : Machine.stuck.Sound where
  next := .exhausted _
  next_stops := nofun
  nextExpanded := .exhausted _
  number := .exhausted _
  expandOnce _ := .exhausted _
  execute _ _ := .exhausted _

section Reports

variable {m : Machine} (hm : m.Sound)

include hm

theorem attains_deleteTokens {line : String} {script : List String} {n : Nat} (he : R.strict → e.Proper)
    (hhandler : e.handler = .prompter) (hscript : line :: script = e.console.script)
    (hanswer : Answer.ofLine line = .delete n) (k : Nat)
    (h : Course R.strict R.level none (e.hear (.delete n) script) e₁) :
    Attains R (fun _ => True) e (deleteTokens m k e₁) := by
  have hheard : Course R.strict R.level none e (e.hear (.delete n) script) :=
    .answer (.refl e) (hscript ▸ List.suffix_cons line script) rfl
  induction k generalizing e₁ with
  | zero => exact ⟨hheard.trans h, trivial⟩
  | succ k ih =>
    have hnext : MeetsAt R m.next (fun x => ∀ t ∈ x, R.Admits t) e₁ := hm.next e₁ ((hheard.trans h).proper_of he)
    cases hread : m.next e₁ with
    | ok x e₂ =>
      have hcourse := h.trans (hnext.ok hread).1
      simp only [deleteTokens, hread]
      cases x with
      | none => exact ⟨hheard.trans hcourse, trivial⟩
      | some t => exact ih hcourse
    | error i e₂ =>
      have hcourse := h.trans (hnext.error hread).1
      obtain ⟨cause, sofar⟩ := i
      simp only [deleteTokens, hread]
      cases cause with
      | diagnostic d => exact ⟨.forgive (.refl e) hhandler hscript hanswer hcourse (hm.next_stops hread), trivial⟩
      | outOfFuel => exact ⟨hheard.trans hcourse, fun _ => trivial⟩

theorem resolves_converse (d : Diagnostic) {script : List String} (hscript : e.console.script = script)
    (he : R.strict → e.Proper) (hhandler : e.handler = .prompter) : Resolves R e (converse m d script e) := by
  induction script generalizing e with
  | nil => exact ⟨nofun, fun _ x hx => .dismiss (.refl e) List.nil_suffix rfl hx⟩
  | cons line script ih =>
    rw [converse, Proc.modify_bind]
    generalize hanswer : Answer.ofLine line = a
    -- the answer is given in the state in which the line has been taken from the script
    let e₁ : Engine := e.hear a script
    have hsuffix : script <:+ e.console.script := hscript ▸ List.suffix_cons line script
    have hrefused : a.isRefusal = true → Resolves R e (.ok false e₁) :=
      fun hrefusal => ⟨nofun, fun _ x hx => .dismiss (.refl e) hsuffix hrefusal hx⟩
    have hread : a.isRefusal = false → Course R.strict R.level none e e₁ :=
      fun hrefusal => .answer (.refl e) hsuffix hrefusal
    have hrest : ∀ s, Course R.strict R.level none e e₁ → Resolves R e (converse m d script (e₁.write s)) := by
      intro s hread
      have hwrite : Course R.strict R.level none e (e₁.write s) := .scan hread (.console rfl)
      exact (ih (e := e₁.write s) rfl (hwrite.proper_of he) hhandler).after hwrite
    cases a with
    | unreadable | quit => exact hrefused rfl
    | proceed => exact ⟨fun _ => hread rfl, nofun⟩
    | help | unknown => exact hrest _ (hread rfl)
    | insert text =>
      have hpush : Meets R (modify (·.pushText text "insert") : Action PUnit) fun _ => True :=
        meets_modify fun _ => .pushText text "insert"
      have hinsert : Meets R (do
          if text != "" then modify (·.pushText text "insert")
          return true : Action Bool) fun goesOn => goesOn = true :=
        .ite (fun _ => hpush.bind fun _ _ => .pure rfl) (fun _ => .pure rfl)
      exact (hinsert e₁ ((hread rfl).proper_of he)).resolves.after (hread rfl)
    | delete n =>
      have hdelete := attains_deleteTokens hm he hhandler hscript.symm hanswer n (.refl _)
      show Resolves R e ((do deleteTokens m n; return true : Action Bool) e₁)
      cases hdeleted : deleteTokens m n e₁ with
      | ok u e₂ =>
        rw [hdeleted] at hdelete
        simp only [Proc.bind_ok hdeleted]
        exact ⟨fun _ => hdelete.1, nofun⟩
      | error i e₂ =>
        rw [hdeleted] at hdelete
        simp only [Proc.bind_error hdeleted]
        exact hdelete
    | change mode => exact ⟨fun _ => .scan (hread rfl) (.setInteraction mode), nofun⟩

theorem resolves_consult (d : Diagnostic) (he : R.strict → e.Proper) : Resolves R e (consult m d e) := by
  have hwrite : Course R.strict R.level none e (e.write d.logEntry) := .of_scan (.console rfl)
  unfold consult
  rw [Proc.get_bind]
  cases hhandler : e.handler with
  | carryOn => exact (meets_true e he).resolves
  | recorder abortAt => exact resolves_note abortAt d
  | custom answer => exact resolves_consultCustom d hhandler
  | printer | noTerminal => exact (meets_print _ _ _ _ e he).resolves
  | prompter =>
    dsimp only
    split
    · exact (meets_true e he).resolves
    · split
      · exact (resolves_converse hm d rfl (hwrite.proper_of he) hhandler).after hwrite
      · exact (meets_help _ _ _ (hwrite.proper_of he)).resolves.after hwrite

omit hm in
theorem report_of_fatal {d : Diagnostic} (hd : d.isFatal = true) (e : Engine) :
    report m d e = .error ⟨.diagnostic (e.phrase d), ()⟩ (e.refuse (e.phrase d)) := by
  have hfatal : (e.phrase d).isFatal = true := hd
  unfold Engine.phrase at hfatal
  simp only [report, Proc.get_bind, record, Proc.modify_bind, hfatal, if_true]
  rfl

omit hm in
theorem report_of_excess {d : Diagnostic} (hd : d.isFatal = false)
    (hcount : e.settings.maxErrors < (e.errorCount + 1 : Nat)) :
    report m d e = .error ⟨.diagnostic (e.limit (e.phrase d)), ()⟩ (e.exceed (e.phrase d)) := by
  have hfatal : (e.phrase d).isFatal = false := hd
  unfold Engine.phrase at hfatal
  simp only [report, Proc.get_bind, record, Proc.modify_bind, hfatal, Bool.false_eq_true, if_false]
  split
  · rfl
  · exact absurd hcount ‹_›

/-- The diagnostic which ends the run when the handler says so. -/
def Engine.abortion (e : Engine) (d : Diagnostic) : Diagnostic :=
  { kind := .aborted, place := d.place, language := e.settings.language, cause := some d.asCause }

omit hm in
theorem report_of_recoverable {d : Diagnostic} (hd : d.isFatal = false)
    (hcount : (e.errorCount + 1 : Nat) ≤ e.settings.maxErrors) :
    report m d e = (do unless ← consult m (e.phrase d) do stopWith (e.abortion (e.phrase d)) : Action Unit)
      ((e.countError (e.phrase d)).record (.consulted (e.phrase d))) := by
  have hfatal : (e.phrase d).isFatal = false := hd
  unfold Engine.phrase at hfatal
  simp only [report, Proc.get_bind, record, Proc.modify_bind, hfatal, Bool.false_eq_true, if_false]
  split
  · exact absurd ‹_› (Int.not_lt.2 hcount)
  · rfl

omit hm in
theorem deleteTokens_stops {k : Nat} {d : Diagnostic} : deleteTokens m k e ≠ .error ⟨.diagnostic d, ()⟩ e' := by
  induction k generalizing e with
  | zero => exact nofun
  | succ k ih =>
    simp only [deleteTokens]
    split
    · exact ih
    · exact nofun
    · exact nofun
    · exact nofun

omit hm in
theorem converse_stops {d x : Diagnostic} {script : List String} :
    converse m d script e ≠ .error ⟨.diagnostic x, ()⟩ e' := by
  induction script generalizing e with
  | nil => exact nofun
  | cons line script ih =>
    rw [converse, Proc.modify_bind]
    cases Answer.ofLine line with
    | unreadable | quit | proceed | change mode => exact nofun
    | help | unknown => exact ih
    | insert text =>
      dsimp only
      split <;> exact nofun
    | delete n =>
      dsimp only
      cases hdelete : deleteTokens m n (e.hear (.delete n) script) with
      | ok u e₁ =>
        rw [Proc.bind_ok hdelete]
        exact nofun
      | error i e₁ =>
        rw [Proc.bind_error hdelete]
        rintro heq
        obtain ⟨rfl, rfl⟩ := EStateM.Result.error.inj heq
        exact deleteTokens_stops hdelete

omit hm in
/-- A handler decides. No diagnostic keeps it from doing so. -/
theorem consult_stops {d x : Diagnostic} : consult m d e ≠ .error ⟨.diagnostic x, ()⟩ e' := by
  unfold consult
  rw [Proc.get_bind]
  cases e.handler with
  | carryOn | recorder | custom => exact nofun
  | printer | noTerminal =>
    dsimp only
    split
    · rw [Proc.modify_bind]
      split <;> exact nofun
    · exact nofun
  | prompter =>
    dsimp only
    split
    · exact nofun
    · rw [Proc.modify_bind]
      split
      · exact converse_stops
      · split <;> exact nofun

omit hm in
/-- What stops the report of a recoverable problem is a refusal or an error too many. -/
theorem report_stops {d x : Diagnostic} (hd : d.isFatal = false) (h : report m d e = .error ⟨.diagnostic x, ()⟩ e') :
    x.kind = .aborted ∨ x.kind = .errorLimit := by
  rcases Int.lt_or_le e.settings.maxErrors (e.errorCount + 1 : Nat) with hcount | hcount
  · rw [report_of_excess hd hcount] at h
    cases h
    exact .inr rfl
  · rw [report_of_recoverable hd hcount] at h
    generalize hasked : (e.countError (e.phrase d)).record (.consulted (e.phrase d)) = asked at h
    cases hconsult : consult m (e.phrase d) asked with
    | ok goesOn e₁ =>
      rw [Proc.bind_ok hconsult] at h
      cases goesOn with
      | true => cases h
      | false =>
        cases h
        exact .inl rfl
    | error i e₁ =>
      rw [Proc.bind_error hconsult] at h
      cases h
      exact (consult_stops hconsult).elim

/-- What is left of a report when the handler is asked. -/
theorem attains_consulted {d : Diagnostic} (hd : d.isFatal = false)
    (hcount : (e₁.errorCount + 1 : Nat) ≤ e₁.settings.maxErrors) (he : R.strict → e₁.Proper) :
    Attains R (fun _ => True) ((e₁.countError (e₁.phrase d)).record (.consulted (e₁.phrase d))) (report m d e₁) := by
  let asked : Engine := (e₁.countError (e₁.phrase d)).record (.consulted (e₁.phrase d))
  have hasked : R.strict → asked.Proper := fun hs => (he hs).of_eq rfl rfl
  have hkind : (e₁.abortion (e₁.phrase d)).kind = .aborted := rfl
  rw [report_of_recoverable hd hcount]
  exact (resolves_consult hm (e₁.phrase d) hasked).attains hkind

/-- A problem is reported, be it a new one or what has just stopped a procedure. Only what ends the run stops the
report. -/
theorem attains_report {o : Option Stop} {d : Diagnostic} (h : Course R.strict R.level o e e₁) (hd : Raises R.strict d o)
    (he : R.strict → e.Proper) : Attains R (fun _ => True) e (report m d e₁) := by
  by_cases hfatal : d.isFatal = true
  · rw [report_of_fatal hfatal]
    exact ⟨.refuse h hd hfatal, fun _ => hfatal⟩
  · have hrecoverable : d.isFatal = false := by simpa using hfatal
    rcases Int.lt_or_le e₁.settings.maxErrors (e₁.errorCount + 1 : Nat) with hcount | hcount
    · rw [report_of_excess hrecoverable hcount]
      exact ⟨.exceed h hd hrecoverable hcount, fun _ => rfl⟩
    · have hcourse := Course.consult h hd hrecoverable hcount
      have he₁ : R.strict → e₁.Proper := fun hs => h.proper hs (he hs)
      exact Attains.after (attains_consulted hm hrecoverable hcount he₁) hcourse

theorem meets_report {d : Diagnostic} (hd : R.Reports d.kind) : Meets R (report m d) fun _ => True :=
  fun e he => attains_report hm (.refl e) hd he

theorem meets_reportHere {kind : Kind} (arguments : List Argument) (h : R.Reports kind) :
    Meets R (reportHere m kind arguments) fun _ => True :=
  (meets_diagnosticHere kind arguments).bind fun _ hd => meets_report hm (hd ▸ h)

/-- The place where errors are reported: whatever stops the procedure, only what ends the run comes out of it. -/
theorem attains_absorb {x : Proc α α} (hx : Attains R.loose Q e (x e₁))
    (hleft : ∀ i e', x e₁ = .error i e' → Q i.sofar) (he : R.strict → e.Proper) : Attains R Q e (absorb m x e₁) := by
  cases h : x e₁ with
  | ok a e' =>
    rw [h] at hx
    rw [absorb, h]
    exact hx
  | error i e' =>
    rw [h] at hx
    have hsofar := hleft i e' h
    obtain ⟨cause, sofar⟩ := i
    rw [absorb, h]
    cases cause with
    | outOfFuel => exact ⟨hx.1, fun _ => trivial⟩
    | diagnostic d =>
      have hreport : Attains R (fun _ => True) e (report m d e') := attains_report hm hx.1 rfl he
      cases hr : report m d e' with
      | ok u e'' =>
        rw [hr] at hreport
        simp only [Proc.bind_ok hr]
        exact ⟨hreport.1, hsofar⟩
      | error j e'' =>
        rw [hr] at hreport
        simp only [Proc.bind_error hr]
        exact hreport

theorem Meets.absorb_with {x : Proc α α} (hx : Meets R.loose x Q) (hleft : ∀ e i e', x e = .error i e' → Q i.sofar) :
    Meets R (absorb m x) Q :=
  fun e he => attains_absorb hm (hx e he) (hleft e) he

theorem Meets.absorb {x : Proc α α} (hx : Meets R.loose x Q) : Meets R (absorb m x) fun _ => True :=
  hx.anyway.absorb_with hm fun _ _ _ _ => trivial

theorem Meets.absorb_giving {x : Proc β α} {a : α} (hx : Meets R.loose x Q) (ha : Q a) :
    Meets R (Compositor.absorb m (x.giving a)) Q := by
  refine (hx.giving a).absorb_with hm fun e i e' h => ?_
  simp only [Proc.giving, Proc.leaving] at h
  split at h
  · cases h
  · cases h
    exact ha

end Reports

end Procedures

end Compositor
