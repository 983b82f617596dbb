import Compositor.Proofs.Engine.Conduct
import Compositor.Proofs.Engine.Parsing

/-!
# Scanners which go on after an error

A scanner reports a problem and goes on with a default, if the handler of errors lets it and there have not been too many
errors (`Engine.Bears`). The report changes nothing but the records of errors: `Engine.Reported` says how an engine comes
out of reports about problems of some kinds, one after the other.

`Recovers e p ts mid a ks us rest` is what `Parses` is for scanners without errors, in two respects more general: problems of the
kinds `ks` are reported, and what comes after the tokens is not arbitrary, so that it may be the end of all input.
`Proceeds e e₁ p ts mid a ks us rest` says the same of a scanner which changes the engine `e` into `e₁` besides.
-/

namespace Compositor

variable {α β γ ρ : Type}

/-! ## Reports -/

namespace Engine

/-- The engine after an error has been reported and the user has been told, with the records which that leaves. -/
def noted (e : Engine) (d : Diagnostic) (console : Console) (trace : List TraceEntry) : Engine :=
  { e.countError d with console, trace }

/-- When the handler is asked about an error, it lets the run go on. It has only dealt with the user. -/
def PassesOver (e : Engine) (d : Diagnostic) (console : Console) (trace : List TraceEntry) : Prop :=
  ∀ m input, consult m d (((e.withInput input).countError d).record (.consulted d)) =
    .ok true ((e.noted d console trace).withInput input)

/-- Problems of these kinds have been reported and passed over, one after the other, and nothing else has been done. -/
inductive Reported : List Kind → Engine → Engine → Prop where
  | nil (e : Engine) : Reported [] e e
  | cons {ks : List Kind} {e e' : Engine} {d : Diagnostic} {console : Console} {trace : List TraceEntry}
      (hpass : e.PassesOver d console trace) (h : Reported ks (e.noted d console trace) e') : Reported (d.kind :: ks) e e'

/-- The engine passes over the next `n` errors, whatever they are: they are not too many, and the handler lets the run go
on after each of them. -/
def Bears : Engine → Nat → Prop
  | _, 0 => True
  | e, n + 1 => (e.errorCount + 1 : Nat) ≤ e.settings.maxErrors ∧
      ∀ d, (∃ console trace, e.PassesOver d console trace) ∧
        ∀ console trace, e.PassesOver d console trace → Bears (e.noted d console trace) n

variable {e e₁ e' : Engine} {ks ks' : List Kind}

namespace Reported

theorem append (h : Reported ks e e₁) (h' : Reported ks' e₁ e') : Reported (ks ++ ks') e e' := by
  induction h with
  | nil => exact h'
  | cons hpass _ ih => exact .cons hpass (ih h')

theorem context (h : Reported ks e e') : e'.context = e.context := by
  induction h with
  | nil => rfl
  | cons _ _ ih => exact ih

theorem input (h : Reported ks e e') : e'.input = e.input := by
  induction h with
  | nil => rfl
  | cons _ _ ih => exact ih

theorem halted (h : Reported ks e e') : e'.halted = e.halted := by
  induction h with
  | nil => rfl
  | cons _ _ ih => exact ih

theorem modifiers (h : Reported ks e e') : e'.modifiers = e.modifiers := by
  induction h with
  | nil => rfl
  | cons _ _ ih => exact ih

theorem bears {n : Nat} (h : Reported ks e e') (he : e.Bears (ks.length + n)) : e'.Bears n := by
  induction h with
  | nil => simpa using he
  | @cons ks e e' d console trace hpass _ ih =>
    rw [List.length_cons, Nat.add_right_comm] at he
    exact ih ((he.2 d).2 console trace hpass)

end Reported

theorem Bears.mono {m n : Nat} (h : e.Bears n) (hle : m ≤ n) : e.Bears m := by
  induction m generalizing n e with
  | zero => trivial
  | succ m ih =>
    obtain ⟨n, rfl⟩ : ∃ k, n = k + 1 := ⟨n - 1, by omega⟩
    obtain ⟨hlimit, hnext⟩ := h
    refine ⟨hlimit, fun d => ⟨(hnext d).1, fun console trace hpass => ?_⟩⟩
    exact ih ((hnext d).2 console trace hpass) (by omega)

/-- **A report about a recoverable problem is passed over.** -/
theorem Bears.report (h : e.Bears 1) {d : Diagnostic} (hd : d.isFatal = false) (input : Input) :
    ∃ e', Reported [d.kind] e e' ∧ ∀ m, Compositor.report m d (e.withInput input) = .ok () (e'.withInput input) := by
  obtain ⟨hlimit, hnext⟩ := h
  obtain ⟨⟨console, trace, hpass⟩, -⟩ := hnext (e.phrase d)
  refine ⟨e.noted (e.phrase d) console trace, .cons (d := e.phrase d) hpass (.nil _), fun m => ?_⟩
  have hcount : ((e.withInput input).errorCount + 1 : Nat) ≤ (e.withInput input).settings.maxErrors := hlimit
  exact (report_of_recoverable hd hcount).trans (Proc.bind_ok (hpass m input))

end Engine

/-! ## Handlers -/

/-- In this context the handler lets the run go on after every error, and does nothing but to tell the user. -/
def Handler.GoesOn (c : Context) : Handler → Prop
  | carryOn | printer | noTerminal => True
  | recorder abortAt => abortAt = 0
  | prompter => c.interaction ≠ .errorStop
  | custom answer => ∀ noted, answer noted c = {}

section Handlers

variable {e : Engine}

/-- The engine with another side of the user, and another trace. -/
def Engine.withRecords (e : Engine) (console : Console) (trace : List TraceEntry) : Engine := { e with console, trace }

/-- The user is told about an error, perhaps with some help. -/
theorem tell_apply (entry help : String) (b : Prop) [Decidable b] (e : Engine) :
    ∃ console, ∀ input, (modify (·.write entry) >>= fun _ =>
      if b then modify (·.write help) >>= fun _ => pure true else pure true : Action Bool) (e.withInput input) =
        .ok true ((e.withRecords console e.trace).withInput input) := by
  by_cases hb : b
  · simp only [hb, if_true]
    exact ⟨((e.write entry).write help).console, fun _ => rfl⟩
  · simp only [hb, if_false]
    exact ⟨(e.write entry).console, fun _ => rfl⟩

theorem tell_unless_batch (entry help : String) (b : Prop) [Decidable b] (e : Engine) :
    ∃ console, ∀ input, (if e.context.interaction ≠ .batch then modify (·.write entry) >>= fun _ =>
      if b then modify (·.write help) >>= fun _ => pure true else pure true else pure true : Action Bool) (e.withInput input) =
        .ok true ((e.withRecords console e.trace).withInput input) := by
  by_cases hbatch : e.context.interaction = .batch
  · simp only [hbatch, ne_eq, not_true_eq_false, if_false]
    exact ⟨e.console, fun _ => rfl⟩
  · simp only [ne_eq, hbatch, not_false_eq_true, if_true]
    exact tell_apply entry help b e

theorem consultCustom_of_empty {answer : List Diagnostic → Context → Reply} {d : Diagnostic}
    (h : answer (d :: e.console.noted) e.context = {}) :
    consultCustom answer d e =
      .ok true (e.withRecords { e.console with noted := d :: e.console.noted } (.decided true :: e.trace)) := by
  let reply := answer (d :: e.console.noted) e.context
  show EStateM.Result.ok reply.goesOn (Engine.record (reply.interventions.foldl _ _) (.decided reply.goesOn)) = _
  rw [show reply = {} from h]
  rfl

theorem Handler.GoesOn.consult (h : e.handler.GoesOn e.context) (d : Diagnostic) :
    ∃ console trace, ∀ m input,
      consult m d (e.withInput input) = .ok true ((e.withRecords console trace).withInput input) := by
  have hsame : ∀ input, (e.withInput input).handler = e.handler := fun _ => rfl
  unfold Compositor.consult
  simp only [Proc.get_bind, hsame]
  cases hhandler : e.handler with
  | carryOn => exact ⟨e.console, e.trace, fun _ _ => rfl⟩
  | recorder abortAt =>
    rw [hhandler] at h
    obtain rfl : abortAt = 0 := h
    exact ⟨{ e.console with noted := d :: e.console.noted }, .decided true :: e.trace, fun _ _ => rfl⟩
  | custom answer =>
    rw [hhandler] at h
    refine ⟨{ e.console with noted := d :: e.console.noted }, .decided true :: e.trace, fun m input => ?_⟩
    exact consultCustom_of_empty (e := e.withInput input) (h _)
  | printer =>
    obtain ⟨console, hconsole⟩ := tell_unless_batch d.logEntry (d.help ++ "\n")
      ((e.context.interaction.showsHelp && d.help != "") = true) e
    exact ⟨console, e.trace, fun _ input => hconsole input⟩
  | noTerminal =>
    obtain ⟨console, hconsole⟩ := tell_unless_batch d.logEntry (d.help ++ "\n") (e.context.interaction = .scroll) e
    exact ⟨console, e.trace, fun _ input => hconsole input⟩
  | prompter =>
    rw [hhandler] at h
    by_cases hbatch : e.context.interaction = .batch
    · refine ⟨e.console, e.trace, fun m input => ?_⟩
      have hbatch : (e.withInput input).context.interaction = .batch := hbatch
      simp only [hbatch, if_true]
      rfl
    · obtain ⟨console, hconsole⟩ := tell_apply d.logEntry (d.help ++ "\n") (e.context.interaction = .scroll) e
      refine ⟨console, e.trace, fun m input => ?_⟩
      have hbatch : (e.withInput input).context.interaction ≠ .batch := hbatch
      have hask : (e.withInput input).context.interaction ≠ .errorStop := h
      simp only [hbatch, hask, if_false]
      exact hconsole input

theorem Handler.GoesOn.bears {n : Nat} (h : e.handler.GoesOn e.context)
    (hlimit : (e.errorCount + n : Nat) ≤ e.settings.maxErrors) : e.Bears n := by
  induction n generalizing e with
  | zero => trivial
  | succ n ih =>
    refine ⟨by omega, fun d => ⟨?_, fun console trace _ => ih (e := e.noted d console trace) h ?_⟩⟩
    · have hasked : ((e.countError d).record (.consulted d)).handler.GoesOn
          ((e.countError d).record (.consulted d)).context := h
      exact hasked.consult d
    · have hcount : (e.noted d console trace).errorCount = e.errorCount + 1 := rfl
      have hsettings : (e.noted d console trace).settings = e.settings := rfl
      rw [hcount, hsettings]
      omega

end Handlers

/-! ## Scanners -/

/-- From an input which delivers `ts` and then is `mid`, the scanner gets `a`. It makes the engine `e` into `e₁`, where problems
of the kinds `ks` have been reported, and leaves an input which delivers `us` and then is `rest`. -/
def Proceeds (e e₁ : Engine) (p : Machine → Proc β α) (ts : List Token) (mid : Input) (a : α) (ks : List Kind)
    (us : List Token) (rest : Input) : Prop :=
  ∀ input, input.Delivers e.context.lexicon ts mid →
    ∃ e' input', Runs p (e.withInput input) a (e'.withInput input') ∧ Engine.Reported ks e₁ e' ∧
      input'.Delivers e₁.context.lexicon us rest

abbrev Recovers (e : Engine) (p : Machine → Proc β α) (ts : List Token) (mid : Input) (a : α) (ks : List Kind)
    (us : List Token) (rest : Input) : Prop := Proceeds e e p ts mid a ks us rest

variable {e e₁ : Engine} {ts us vs : List Token} {mid mid' rest : Input} {ks ks' : List Kind}

theorem Parses.recovers {p : Machine → Proc β α} {a : α} (h : Parses e p ts a us) (mid : Input) :
    Recovers e p ts mid a [] us mid := by
  intro input hinput
  obtain ⟨input', hruns, hleft⟩ := h input mid hinput
  exact ⟨e, input', hruns, .nil e, hleft⟩

/-- A scanner which reports nothing, and does not touch what follows. -/
theorem Parses.of_recovers {p : Machine → Proc β α} {a : α} (h : ∀ mid, Recovers e p ts mid a [] us mid) :
    Parses e p ts a us := by
  intro input rest hinput
  obtain ⟨e', input', hruns, hreported, hleft⟩ := h rest input hinput
  cases hreported
  exact ⟨input', hruns, hleft⟩

namespace Proceeds

variable {p : Machine → Proc β α} {a : α}

theorem of_runs (h : Runs p (e.withInput mid) a e₁) : Proceeds e e₁ p [] mid a [] [] e₁.input := by
  rintro input rfl
  exact ⟨e₁, e₁.input, h, .nil e₁, rfl⟩

/-- One scanner after the other. The second one starts where errors may have been reported. -/
theorem bind {q : Machine → α → Proc β γ} {c : γ} (hp : Proceeds e e₁ p ts mid a ks us mid')
    (hq : ∀ e₂, Engine.Reported ks e₁ e₂ → Recovers e₂ (fun m => q m a) us mid' c ks' vs rest) :
    Proceeds e e₁ (fun m => p m >>= q m) ts mid c (ks ++ ks') vs rest := by
  intro input hinput
  obtain ⟨e₂, input₂, hruns, hreported, hleft⟩ := hp input hinput
  obtain ⟨e₃, input₃, hruns', hreported', hleft'⟩ := hq e₂ hreported input₂ (by rwa [hreported.context])
  rw [hreported.context] at hleft'
  exact ⟨e₃, input₃, hruns.bind hruns', hreported.append hreported', hleft'⟩

theorem congr {q : Machine → Proc β α} (h : Proceeds e e₁ q ts mid a ks us rest)
    (hpq : ∀ m input, p m (e.withInput input) = q m (e.withInput input)) : Proceeds e e₁ p ts mid a ks us rest := by
  intro input hinput
  obtain ⟨e', input', hruns, hreported, hleft⟩ := h input hinput
  exact ⟨e', input', hruns.congr fun m => hpq m input, hreported, hleft⟩

theorem context_bind {q : Machine → Context → Proc β γ} {c : γ}
    (hq : Proceeds e e₁ (fun m => q m e.context) ts mid c ks us rest) :
    Proceeds e e₁ (fun m => context >>= q m) ts mid c ks us rest :=
  hq.congr fun _ _ => rfl

theorem map {p' : Machine → Proc γ ρ} {b : ρ} (h : Proceeds e e₁ p ts mid a ks us rest)
    (hruns : ∀ {e₁ e₂}, Runs p e₁ a e₂ → Runs p' e₁ b e₂) : Proceeds e e₁ p' ts mid b ks us rest := by
  intro input hinput
  obtain ⟨e', input', hrun, hreported, hleft⟩ := h input hinput
  exact ⟨e', input', hruns hrun, hreported, hleft⟩

theorem giving (h : Proceeds e e₁ p ts mid a ks us rest) (c : γ) :
    Proceeds e e₁ (fun m => (p m).giving c) ts mid a ks us rest :=
  h.map fun hrun => hrun.giving c

theorem lift [Inhabited γ] (h : Proceeds e e₁ p ts mid a ks us rest) :
    Proceeds e e₁ (fun m => (monadLift (p m) : Proc γ α)) ts mid a ks us rest :=
  h.map fun hrun => hrun.lift

theorem mapBoth {p : Machine → Proc α α} (h : Proceeds e e₁ p ts mid a ks us rest) (f : α → γ) :
    Proceeds e e₁ (fun m => (p m).mapBoth f) ts mid (f a) ks us rest :=
  h.map fun hrun => hrun.mapBoth f

end Proceeds

theorem Parses.bind_proceeds {p : Machine → Proc β α} {q : Machine → α → Proc β γ} {a : α} {c : γ} (hp : Parses e p ts a us)
    (hq : Proceeds e e₁ (fun m => q m a) us mid c ks vs rest) : Proceeds e e₁ (fun m => p m >>= q m) ts mid c ks vs rest := by
  intro input hinput
  obtain ⟨input', hruns, hleft⟩ := hp input mid hinput
  obtain ⟨e', input'', hruns', hreported, hleft'⟩ := hq input' hleft
  exact ⟨e', input'', hruns.bind hruns', hreported, hleft'⟩

/-- **A problem is reported.** -/
theorem reportHere_recovers (he : e.Bears 1) {kind : Kind} (hkind : kind.isFatal = false) (arguments : List Argument) :
    Recovers e (fun m => reportHere m kind arguments) ts mid () [kind] ts mid := by
  intro input hinput
  let d : Diagnostic := { kind, place := (e.withInput input).locator, arguments }
  have hd : d.isFatal = false := hkind
  obtain ⟨e', hreported, hreport⟩ := he.report hd input
  exact ⟨e', input, .of_eq hreport, hreported, hinput⟩

end Compositor
