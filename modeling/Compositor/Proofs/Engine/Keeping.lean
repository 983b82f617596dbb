import Compositor.Proofs.Engine.Conduct

/-!
# What a procedure keeps

A procedure may leave alone some part of the state, whatever else it does. `Keeps view p` says so of what `view` shows of a
state, and it also holds when the procedure is stopped.

* `finalState_bind` and the lemmas beside it say what is known of a state in which a procedure ends or is stopped;
* the lemmas about `Keeps` follow the ways in which procedures are made;
* `IgnoresReports` are the views which do not show what becomes of a report. All they can show of a report is its own entry in
  the trace (`view_report`), and all they can show of reading tokens is that an invalid character is reported (`keeps_next`).
-/

namespace Compositor

variable {α β γ σ ρ ν : Type}

/-! ## Final states -/

section FinalState

variable {p : Proc β α} {q : α → Proc β γ} {S P : Engine → Prop} {e : Engine}

theorem finalState_leaving (p : Proc β α) (g : β → γ) (e : Engine) : finalState (p.leaving g e) = finalState (p e) := by
  unfold Proc.leaving
  cases p e <;> rfl

theorem finalState_lift [Inhabited γ] (p : Proc β α) (e : Engine) :
    finalState ((monadLift p : Proc γ α) e) = finalState (p e) :=
  finalState_leaving p (fun _ => default) e

theorem finalState_map (p : Proc β α) (g : α → γ) (e : Engine) : finalState ((g <$> p) e) = finalState (p e) := by
  simp only [Functor.map, EStateM.map]
  cases p e <;> rfl

/-- What is known of the first procedure also holds when it is stopped, or else where the second one begins. -/
theorem finalState_bind (hp : S (finalState (p e))) (hstop : ∀ e₁, S e₁ → P e₁)
    (hq : ∀ a e₁, S e₁ → P (finalState (q a e₁))) : P (finalState ((p >>= q) e)) := by
  cases h : p e with
  | ok a e₁ =>
    rw [h] at hp
    rw [Proc.bind_ok h]
    exact hq a e₁ hp
  | error i e₁ =>
    rw [h] at hp
    rw [Proc.bind_error h]
    exact hstop e₁ hp

theorem finalState_absorb {m : Machine} {x : Proc β β} (hx : P (finalState (x e)))
    (hreport : ∀ d e₁, P e₁ → P (finalState (report m d e₁))) : P (finalState (absorb m x e)) := by
  unfold absorb
  cases h : x e with
  | ok a e₁ => rwa [h] at hx
  | error i e₁ =>
    rw [h] at hx
    obtain ⟨cause, b⟩ := i
    cases cause with
    | outOfFuel => exact hx
    | diagnostic d => exact finalState_bind (hreport d e₁ hx) (fun _ h => h) fun _ _ h => h

end FinalState

/-! ## Views which are kept -/

/-- What is seen of the state is the same in the end, be the procedure stopped or not. -/
def Keeps (view : Engine → ν) (p : Proc β α) : Prop := ∀ e, view (finalState (p e)) = view e

namespace Keeps

variable {view : Engine → ν} {p : Proc β α} {q : α → Proc β γ}

theorem pure (a : α) : Keeps view (pure a : Proc β α) := fun _ => rfl

theorem throw (i : Interrupted β) : Keeps view (throw i : Proc β α) := fun _ => rfl

theorem get : Keeps view (get : Proc β Engine) := fun _ => rfl

theorem context : Keeps view (context : Proc β Context) := fun _ => rfl

theorem bind (hp : Keeps view p) (hq : ∀ a, Keeps view (q a)) : Keeps view (p >>= q) := fun e =>
  finalState_bind (P := fun e' => view e' = view e) (hp e) (fun _ h => h) fun a e₁ h => (hq a e₁).trans h

theorem leaving (hp : Keeps view p) (g : β → γ) : Keeps view (p.leaving g) := by
  intro e
  rw [finalState_leaving]
  exact hp e

theorem giving (hp : Keeps view p) (c : γ) : Keeps view (p.giving c) := hp.leaving fun _ => c

theorem lift [Inhabited γ] (hp : Keeps view p) : Keeps view (monadLift p : Proc γ α) := hp.leaving fun _ => default

theorem map (hp : Keeps view p) (g : α → γ) : Keeps view (g <$> p) := by
  intro e
  rw [finalState_map]
  exact hp e

theorem discard (hp : Keeps view p) : Keeps view (discard p) := hp.map _

theorem ite {c : Prop} [Decidable c] {q : Proc β α} (hp : Keeps view p) (hq : Keeps view q) :
    Keeps view (if c then p else q) := by
  split
  · exact hp
  · exact hq

theorem iterate [Inhabited β] {step : σ → Proc β (Turn σ ρ)} (hstep : ∀ s, Keeps view (step s)) (fuel : Nat) (s : σ) :
    Keeps view (iterate step fuel s) := by
  induction fuel generalizing s with
  | zero => exact .throw _
  | succ fuel ih =>
    rw [Compositor.iterate]
    refine (hstep s).bind fun turn => ?_
    cases turn with
    | again s' => exact ih s'
    | done r => exact .pure r

theorem modify {g : Engine → Engine} (hg : ∀ e, view (g e) = view e) : Keeps view (modify g : Proc β PUnit) := hg

end Keeps

theorem keeps_meaningOf (view : Engine → ν) (t : Token) : Keeps view (meaningOf t : Proc β (Option Meaning)) :=
  .ite (Keeps.context.bind fun _ => .pure _) (.pure _)

/-! ## Reports -/

/-- The view shows nothing of what becomes of a report: of the entries about that in the trace, of the counter and the
transcript, of the talk with the user, and of all that a handler may do before it answers. -/
structure IgnoresReports (view : Engine → ν) : Prop where
  stopped : ∀ e d, view (e.record (.stopped d)) = view e
  consulted : ∀ e d, view (e.record (.consulted d)) = view e
  answered : ∀ e a, view (e.record (.answered a)) = view e
  decided : ∀ e goesOn, view (e.record (.decided goesOn)) = view e
  forgiven : ∀ e d, view (e.record (.forgiven d)) = view e
  messaged : ∀ e s, view (e.record (.messaged s)) = view e
  aside : ∀ (e : Engine) input console transcript terminal errorCount halted,
    view { e with input, console, transcript, terminal, errorCount, halted } = view e
  mode : ∀ e mode, view (e.modifyContext (·.setInteraction mode true)) = view e

section Reports

variable {view : Engine → ν} (hview : IgnoresReports view)

include hview

namespace IgnoresReports

theorem input (e : Engine) (input : Input) : view { e with input } = view e := hview.aside e input _ _ _ _ _

theorem console (e : Engine) (console : Console) : view { e with console } = view e := hview.aside e _ console _ _ _ _

theorem pushText (e : Engine) (text source : String) : view (e.pushText text source) = view e := by
  obtain ⟨input, heq⟩ := e.pushText_eq text source
  rw [heq, hview.input]

theorem intervene (e : Engine) (i : Intervention) : view (e.intervene i) = view e := by
  cases i with
  | insertText text source => exact hview.pushText e text source
  | insertTokens tokens => exact hview.input e _
  | setInteraction mode => exact hview.mode e mode
  | say s =>
    let said : Engine := { e with transcript := (e.message s).transcript, terminal := (e.message s).terminal }
    exact (hview.messaged said s).trans (hview.aside e _ _ _ _ _ _)
  | halt => exact hview.aside e _ _ _ _ _ true

theorem interventions (e : Engine) (is : List Intervention) : view (is.foldl Engine.intervene e) = view e := by
  induction is generalizing e with
  | nil => rfl
  | cons i is ih => exact (ih (e.intervene i)).trans (hview.intervene e i)

theorem hear (e : Engine) (a : Answer) (script : List String) : view (e.hear a script) = view e := by
  let asked : Console := { e.console with written := e.console.written ++ "? ", prompts := e.console.prompts + 1, script }
  have heq : e.hear a script = ({ e with console := asked } : Engine).record (.answered a) := rfl
  rw [heq, hview.answered, hview.console]

end IgnoresReports

theorem keeps_write (s : String) : Keeps view (modify (·.write s) : Action PUnit) := .modify fun e => hview.console e _

theorem keeps_stopWith (d : Diagnostic) : Keeps view (stopWith d : Action α) :=
  (Keeps.modify fun e => hview.stopped e d).bind fun _ => .throw _

theorem keeps_complain (kind : Kind) (arguments : List Argument) : Keeps view (complain kind arguments : Action α) :=
  fun e => keeps_stopWith hview { kind, place := e.locator, arguments } e

theorem keeps_pushTokens (ts : List Token) : Keeps view (pushTokens ts : Proc β Unit) := .modify fun e => hview.input e _

theorem keeps_pushBack (t : Token) : Keeps view (pushBack t : Proc β Unit) := keeps_pushTokens hview [t]

variable {m : Machine} (hnext : Keeps view m.next)

include hnext

theorem keeps_deleteTokens (k : Nat) : Keeps view (deleteTokens m k) := by
  induction k with
  | zero => exact .pure ()
  | succ k ih =>
    intro e
    have hread := hnext e
    simp only [deleteTokens]
    cases h : m.next e with
    | ok x e₁ =>
      rw [h] at hread
      cases x with
      | none => exact hread
      | some t => exact (ih e₁).trans hread
    | error i e₁ =>
      rw [h] at hread
      obtain ⟨cause, sofar⟩ := i
      cases cause with
      | outOfFuel => exact hread
      | diagnostic d => exact (hview.forgiven e₁ d).trans hread

theorem keeps_converse (d : Diagnostic) (script : List String) : Keeps view (converse m d script) := by
  have hhear : ∀ a rest, Keeps view (modify (·.hear a rest) : Action PUnit) :=
    fun a rest => .modify fun e => hview.hear e a rest
  induction script with
  | nil => exact (hhear _ _).bind fun _ => .pure false
  | cons line script ih =>
    refine (hhear _ _).bind fun _ => ?_
    cases Answer.ofLine line with
    | unreadable | proceed | quit => exact .pure _
    | help | unknown => exact (keeps_write hview _).bind fun _ => ih
    | insert text =>
      have hpush : Keeps view (modify (·.pushText text "insert") : Action PUnit) :=
        .modify fun e => hview.pushText e text "insert"
      exact .ite (hpush.bind fun _ => .pure true) (.pure true)
    | delete n => exact (keeps_deleteTokens hview hnext n).bind fun _ => .pure true
    | change mode =>
      have hmode : Keeps view (modifyContext (·.setInteraction mode true) : Action Unit) := .modify fun e => hview.mode e mode
      exact hmode.bind fun _ => .pure true

theorem keeps_consult (d : Diagnostic) : Keeps view (consult m d) := by
  have hwrite := keeps_write hview
  have hprint : ∀ (c₁ c₂ : Prop) [Decidable c₁] [Decidable c₂], Keeps view (do
      if c₁ then
        modify (·.write d.logEntry)
        if c₂ then modify (·.write (d.help ++ "\n"))
      return true : Action Bool) := by
    intro c₁ c₂ _ _
    refine .ite ((hwrite _).bind fun _ => ?_) (.pure true)
    exact .ite ((hwrite _).bind fun _ => .pure true) (.pure true)
  refine Keeps.get.bind fun e => ?_
  cases e.handler with
  | carryOn => exact .pure true
  | recorder abortAt => exact fun e => (hview.decided _ _).trans (hview.console e _)
  | custom answer =>
    exact fun e => (hview.decided _ _).trans ((hview.interventions _ _).trans (hview.console e _))
  | printer => exact hprint _ _
  | noTerminal => exact hprint _ _
  | prompter =>
    refine .ite (.pure true) ((hwrite _).bind fun _ => .ite (keeps_converse hview hnext d _) ?_)
    exact .ite ((hwrite _).bind fun _ => .pure true) (.pure true)

/-- **All that is seen of a report is its own entry**, whatever becomes of it. -/
theorem view_report (d : Diagnostic) (e : Engine) :
    view (finalState (report m d e)) = view (e.record (.reported (e.phrase d))) := by
  let reported : Engine := e.record (.reported (e.phrase d))
  rcases hfatal : d.isFatal with _ | _
  · rcases Int.lt_or_le e.settings.maxErrors (e.errorCount + 1 : Nat) with hcount | hcount
    · rw [report_of_excess hfatal hcount]
      exact (hview.stopped _ _).trans (hview.aside reported _ _ _ _ _ _)
    · have hdecide : Keeps view (do unless ← consult m (e.phrase d) do stopWith (e.abortion (e.phrase d)) : Action Unit) := by
        refine (keeps_consult hview hnext _).bind fun goesOn => ?_
        exact .ite (.pure ()) (keeps_stopWith hview _)
      rw [report_of_recoverable hfatal hcount]
      exact (hdecide _).trans ((hview.consulted _ _).trans (hview.aside reported _ _ _ _ _ _))
  · rw [report_of_fatal hfatal]
    exact (hview.stopped _ _).trans (hview.aside reported _ _ _ _ _ _)

/-- A report of which not even its entry is seen. -/
theorem keeps_report {d : Diagnostic} (hd : ∀ e language, view (e.record (.reported { d with language })) = view e) :
    Keeps view (report m d) :=
  fun e => (view_report hview hnext d e).trans (hd e _)

theorem keeps_reportHere {kind : Kind} (hkind : ∀ e d, d.kind = kind → view (e.record (.reported d)) = view e)
    (arguments : List Argument) : Keeps view (reportHere m kind arguments) :=
  fun e => keeps_report hview hnext (d := { kind, place := e.locator, arguments }) (fun e _ => hkind e _ rfl) e

theorem keeps_readToken (hinvalid : ∀ e d, d.kind = .invalidCharacter → view (e.record (.reported d)) = view e) :
    Keeps view (readToken m) := by
  refine .iterate (fun _ e => ?_) m.fuel ()
  rw [Proc.get_bind]
  obtain ⟨pulled, input⟩ := e.input.pull e.context.lexicon
  cases pulled with
  | token | exhausted => exact hview.input e input
  | invalid c place =>
    have hreport : Keeps view (do
        report m { kind := .invalidCharacter, place, arguments := [.code c.toNat] }
        return .again () : Action (Turn Unit (Option Token))) :=
      (keeps_report hview hnext fun e _ => hinvalid e _ rfl).bind fun _ => .pure _
    exact (hreport { e with input }).trans (hview.input e input)

omit hnext in
/-- **Nothing is seen of reading a token** but that invalid characters are reported. -/
theorem keeps_next (hinvalid : ∀ e d, d.kind = .invalidCharacter → view (e.record (.reported d)) = view e) (n : Nat) :
    Keeps view (machine n).next := by
  induction n with
  | zero => exact .throw _
  | succ n ih => exact keeps_readToken hview ih hinvalid

end Reports

end Compositor
