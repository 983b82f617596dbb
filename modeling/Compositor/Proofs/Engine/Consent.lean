import Compositor.Proofs.Engine.Conduct

/-!
# What handlers decide

`Engine.consents` is what the handler of errors says about a diagnostic, whatever it does besides: a recorder refuses to go
on at one error, a handler of one's own as it likes, and a user in error-stop mode with the first answer which decides.

Reports obey it (`report_protocol`): a recoverable problem is passed over if the handler consents, and ends the run if it
does not. Fatal problems and errors too many end the run, and nobody is asked.
-/

namespace Compositor

/-! ## Decisions -/

/-- The first answer on these lines which decides lets the run go on. -/
def consenting : List String → Bool
  | [] => false
  | line :: script =>
    match Answer.ofLine line with
    | .help | .unknown => consenting script
    | a => !a.isRefusal

namespace Engine

/-- The handler lets the run go on after this diagnostic. -/
def consents (e : Engine) (d : Diagnostic) : Bool :=
  match e.handler with
  | .carryOn | .printer | .noTerminal => true
  | .recorder abortAt => abortAt = 0 || e.console.noted.length + 1 ≠ abortAt
  | .custom answer => (answer (d :: e.console.noted) e.context).goesOn
  | .prompter => e.context.interaction ≠ .errorStop || consenting e.console.script

/-- The handler takes no tokens from the input: it is not a user, or it is one who never has tokens deleted. -/
def SparesInput (e : Engine) : Prop :=
  e.handler = .prompter → ∀ line ∈ e.console.script, ∀ n, Answer.ofLine line ≠ .delete n

/-- No error has been counted, and the trace has only grown. -/
structure Confers (e e' : Engine) : Prop where
  errorCount : e'.errorCount = e.errorCount
  trace : e.trace <:+ e'.trace

variable {e e₁ e' : Engine}

namespace Confers

theorem of_eq (hcount : e'.errorCount = e.errorCount) (htrace : e'.trace = e.trace) : e.Confers e' :=
  ⟨hcount, htrace ▸ List.suffix_rfl⟩

theorem trans (h : e.Confers e₁) (h' : e₁.Confers e') : e.Confers e' :=
  ⟨h'.errorCount.trans h.errorCount, h.trace.trans h'.trace⟩

theorem record (e : Engine) (entry : TraceEntry) : e.Confers (e.record entry) := ⟨rfl, List.suffix_cons entry e.trace⟩

theorem hear (e : Engine) (a : Answer) (script : List String) : e.Confers (e.hear a script) :=
  ⟨rfl, List.suffix_cons _ e.trace⟩

theorem pushText (e : Engine) (text source : String) : e.Confers (e.pushText text source) := by
  obtain ⟨input, heq⟩ := e.pushText_eq text source
  rw [heq]
  exact .of_eq rfl rfl

theorem intervene (e : Engine) (i : Intervention) : e.Confers (e.intervene i) := by
  cases i with
  | insertText text source => exact pushText e text source
  | insertTokens | setInteraction | halt => exact .of_eq rfl rfl
  | say s => exact ⟨rfl, List.suffix_cons _ e.trace⟩

theorem interventions (e : Engine) (is : List Intervention) : e.Confers (is.foldl Engine.intervene e) := by
  induction is generalizing e with
  | nil => exact .of_eq rfl rfl
  | cons i is ih => exact (intervene e i).trans (ih (e.intervene i))

end Confers

end Engine

/-! ## Answers -/

section Answers

variable (m : Machine) {d : Diagnostic} {e e₁ : Engine}

/-- The procedure decides like this, and does nothing but to confer with the user. -/
def Answers (goesOn : Bool) (e : Engine) (r : EStateM.Result (Interrupted Unit) Engine Bool) : Prop :=
  ∃ e', r = .ok goesOn e' ∧ e.Confers e'

theorem Answers.after {goesOn : Bool} {r : EStateM.Result (Interrupted Unit) Engine Bool} (h : Answers goesOn e₁ r)
    (he : e.Confers e₁) : Answers goesOn e r := by
  obtain ⟨e', hr, hconfers⟩ := h
  exact ⟨e', hr, he.trans hconfers⟩

theorem answers_converse {script : List String} (hscript : ∀ line ∈ script, ∀ n, Answer.ofLine line ≠ .delete n) :
    Answers (consenting script) e (converse m d script e) := by
  induction script generalizing e with
  | nil => exact ⟨_, rfl, .hear e _ _⟩
  | cons line script ih =>
    have hheard := Engine.Confers.hear e (Answer.ofLine line) script
    have hdelete := hscript line List.mem_cons_self
    have hrest : ∀ e₁, Answers (consenting script) e₁ (converse m d script e₁) :=
      fun e₁ => ih fun line hline => hscript line (List.mem_cons_of_mem _ hline)
    rw [converse, Proc.modify_bind, consenting]
    generalize Answer.ofLine line = a at hheard hdelete
    cases a with
    | unreadable | quit | proceed => exact ⟨_, rfl, hheard⟩
    | help | unknown => exact (hrest _).after (hheard.trans (.of_eq rfl rfl))
    | insert text =>
      dsimp only
      split
      · exact ⟨_, rfl, hheard.trans (.pushText _ _ _)⟩
      · exact ⟨_, rfl, hheard⟩
    | delete n => exact (hdelete n rfl).elim
    | change mode => exact ⟨_, rfl, hheard.trans (.of_eq rfl rfl)⟩

omit m in
theorem answers_note (abortAt : Nat) (d : Diagnostic) :
    Answers (abortAt = 0 || e.console.noted.length + 1 ≠ abortAt) e (note abortAt d e) := by
  let noted : Engine := { e with console.noted := d :: e.console.noted }
  have hnoted : e.Confers noted := .of_eq rfl rfl
  have hgoesOn : (abortAt = 0 || e.console.noted.length + 1 ≠ abortAt : Bool) =
      !(abortAt > 0 && (d :: e.console.noted).length == abortAt) := by
    rw [List.length_cons, Bool.eq_iff_iff]
    simp only [Bool.or_eq_true, decide_eq_true_eq, Bool.not_eq_true', Bool.and_eq_false_iff, decide_eq_false_iff_not,
      beq_eq_false_iff_ne]
    omega
  rw [hgoesOn]
  exact ⟨_, rfl, hnoted.trans (.record _ _)⟩

omit m in
theorem Answers.ite {goesOn : Bool} {c : Prop} [Decidable c] {p q : Action Bool} (hp : c → Answers goesOn e (p e))
    (hq : ¬ c → Answers goesOn e (q e)) : Answers goesOn e ((if c then p else q) e) := by
  split
  · exact hp ‹_›
  · exact hq ‹_›

omit m in
theorem answers_true (e : Engine) : Answers true e ((return true : Action Bool) e) := ⟨e, rfl, .of_eq rfl rfl⟩

omit m in
theorem answers_help (c : Prop) [Decidable c] (s : String) (e : Engine) : Answers true e ((do
    if c then modify (·.write s)
    return true : Action Bool) e) :=
  .ite (fun _ => (answers_true (e.write s)).after (.of_eq rfl rfl)) fun _ => answers_true e

omit m in
theorem answers_print (c₁ c₂ : Prop) [Decidable c₁] [Decidable c₂] (s₁ s₂ : String) (e : Engine) : Answers true e ((do
    if c₁ then
      modify (·.write s₁)
      if c₂ then modify (·.write s₂)
    return true : Action Bool) e) :=
  .ite (fun _ => (answers_help c₂ s₂ (e.write s₁)).after (.of_eq rfl rfl)) fun _ => answers_true e

/-- **The handler decides as it says.** -/
theorem answers_consult (d : Diagnostic) (he : e.SparesInput) : Answers (e.consents d) e (consult m d e) := by
  unfold consult Engine.consents
  rw [Proc.get_bind]
  cases hhandler : e.handler with
  | carryOn => exact answers_true e
  | recorder abortAt => exact answers_note abortAt d
  | custom answer =>
    let noted : Engine := { e with console.noted := d :: e.console.noted }
    have hnoted : e.Confers noted := .of_eq rfl rfl
    exact ⟨_, rfl, (hnoted.trans (.interventions noted _)).trans (.record _ _)⟩
  | printer | noTerminal => exact answers_print _ _ _ _ e
  | prompter =>
    have hwritten : e.Confers (e.write d.logEntry) := .of_eq rfl rfl
    by_cases hasks : e.context.interaction = .errorStop
    · have hscript := he hhandler
      simp only [hasks, ne_eq, not_true_eq_false, decide_false, Bool.false_or]
      exact (answers_converse m (e := e.write d.logEntry) hscript).after hwritten
    · simp only [hasks, ne_eq, not_false_eq_true, decide_true, Bool.true_or, if_false]
      exact .ite (fun _ => answers_true e) fun _ => (answers_help _ _ (e.write d.logEntry)).after hwritten

end Answers

/-! ## Reports -/

/-- What the report of a problem does, with a handler which takes no tokens from the input. -/
structure ReportProtocol (m : Machine) (d : Diagnostic) (e : Engine) : Prop where
  fatal : d.isFatal = true → report m d e = .error ⟨.diagnostic (e.phrase d), ()⟩ (e.refuse (e.phrase d))
  excess : d.isFatal = false → e.settings.maxErrors < (e.errorCount + 1 : Nat) →
    report m d e = .error ⟨.diagnostic (e.limit (e.phrase d)), ()⟩ (e.exceed (e.phrase d))
  /-- The handler is asked, and decides if the run goes on. -/
  asked : d.isFatal = false → (e.errorCount + 1 : Nat) ≤ e.settings.maxErrors →
    ∃ e', ((e.countError (e.phrase d)).record (.consulted (e.phrase d))).Confers e' ∧
      report m d e = if e.consents (e.phrase d) then .ok () e'
        else .error ⟨.diagnostic (e.abortion (e.phrase d)), ()⟩ (e'.record (.stopped (e.abortion (e.phrase d))))

/-- **Reports obey the handler.** -/
theorem report_protocol {e : Engine} (he : e.SparesInput) (m : Machine) (d : Diagnostic) : ReportProtocol m d e where
  fatal hd := report_of_fatal hd e
  excess hd hcount := report_of_excess hd hcount
  asked hd hcount := by
    let asked : Engine := (e.countError (e.phrase d)).record (.consulted (e.phrase d))
    obtain ⟨e', hconsult, hconfers⟩ := answers_consult m (e := asked) (e.phrase d) he
    refine ⟨e', hconfers, ?_⟩
    have hconsents : asked.consents (e.phrase d) = e.consents (e.phrase d) := rfl
    rw [hconsents] at hconsult
    rw [report_of_recoverable hd hcount]
    cases hgoesOn : e.consents (e.phrase d) with
    | true =>
      rw [hgoesOn] at hconsult
      exact Proc.bind_ok hconsult
    | false =>
      rw [hgoesOn] at hconsult
      exact Proc.bind_ok hconsult

end Compositor
