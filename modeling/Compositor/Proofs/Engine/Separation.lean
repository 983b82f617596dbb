import Compositor.Declaration.Builtin
import Compositor.Proofs.Engine.Protocol

/-!
# What a run leaves behind

An engine can run several texts, one after the other. Between two runs it keeps its groups, its registers and its material,
but a run should not find what belonged to the one before: tokens which were not read, conditionals which were not ended,
and words such as `global` which were gathered for an assignment.

* The input is empty after every run, unless a handler inserts something when it is asked about open groups
  (`Engine.Drained`);
* the conditionals are dropped where nothing stops the run;
* gathered words are left where the last command of the run was such a word (`Gathered.pending`). They are never dropped.

`runs_separated` is the statement about runs.
-/

namespace Compositor

/-! ## Gathered words -/

/-- A token is executed which has to do with the words gathered before it. Spaces may stand between them. -/
def TraceEntry.IsCommand : TraceEntry → Prop
  | dispatched t _ => t.cat ≠ .space
  | _ => False

/-- What has become of the words gathered before, while these entries came to the trace. -/
inductive Gathered (before : Modifiers) : Modifiers → List TraceEntry → Prop where
  /-- A command has used the words. -/
  | used {new : List TraceEntry} : Gathered before .none new
  /-- A word has been executed, and no other command after it. -/
  | pending {after : Modifiers} (later : List TraceEntry) {word : Modifiers} {earlier : List TraceEntry}
      (h : ∀ entry ∈ later, ¬ entry.IsCommand) : Gathered before after (later ++ .gathered word :: earlier)
  /-- There was no command. -/
  | untouched {new : List TraceEntry} (h : ∀ entry ∈ new, ¬ entry.IsCommand) : Gathered before before new

theorem Gathered.trans {before between after : Modifiers} {new new' : List TraceEntry} (h : Gathered before between new)
    (h' : Gathered between after new') : Gathered before after (new' ++ new) := by
  cases h' with
  | used => exact .used
  | @pending _ later word earlier hlater =>
    rw [List.append_assoc, List.cons_append]
    exact .pending later hlater
  | untouched hnew' =>
    cases h with
    | used => exact .used
    | @pending _ later word earlier hlater =>
      rw [← List.append_assoc]
      exact .pending (new' ++ later) (List.forall_mem_append.2 ⟨hnew', hlater⟩)
    | untouched hnew => exact .untouched (List.forall_mem_append.2 ⟨hnew', hnew⟩)

/-- Between two states, words have been gathered or used. -/
def Engine.Gathers (e e' : Engine) : Prop := ∃ new, e'.trace = new ++ e.trace ∧ Gathered e.modifiers e'.modifiers new

section Courses

variable {strict : Prop} {l : Level} {o : Option Stop} {e e₁ e' : Engine}

namespace Engine.Gathers

theorem of_eq (htrace : e'.trace = e.trace) (hmodifiers : e'.modifiers = e.modifiers) : e.Gathers e' := by
  refine ⟨[], htrace, ?_⟩
  rw [hmodifiers]
  exact .untouched (by simp)

theorem of_append (new : List TraceEntry) (htrace : e'.trace = new ++ e.trace) (hmodifiers : e'.modifiers = e.modifiers)
    (hnew : ∀ entry ∈ new, ¬ entry.IsCommand) : e.Gathers e' := by
  refine ⟨new, htrace, ?_⟩
  rw [hmodifiers]
  exact .untouched hnew

theorem trans (h : e.Gathers e₁) (h' : e₁.Gathers e') : e.Gathers e' := by
  obtain ⟨new, htrace, hnew⟩ := h
  obtain ⟨new', htrace', hnew'⟩ := h'
  exact ⟨new' ++ new, by rw [htrace', htrace, List.append_assoc], hnew.trans hnew'⟩

end Engine.Gathers

theorem WorkStep.gathers (h : WorkStep strict e e') : e.Gathers e' := by
  cases h with
  | pushText text source =>
    obtain ⟨input, heq⟩ := e.pushText_eq text source
    rw [heq]
    exact .of_eq rfl rfl
  | @dispatch t => exact ⟨[_], rfl, .used⟩
  | dispatchSpace _ ht => exact .of_append [_] rfl rfl (by simp [TraceEntry.IsCommand, ht])
  | gather _ word => exact ⟨[_, _], rfl, .pending [] (by simp)⟩
  | executeGroup | openGroup | closeGroup | setMagnification | keepFont | storeBox | deliverBox | toggled | closed =>
    exact .of_append [_] rfl rfl (by simp [TraceEntry.IsCommand])
  | _ => exact .of_eq rfl rfl

/-- **Gathered words are used by the next command.** -/
theorem Course.gathers (h : Course strict l o e e') : e.Gathers e' := by
  induction h with
  | refl => exact .of_eq rfl rfl
  | scan _ hstep ih => exact ih.trans (.of_eq hstep.trace_eq hstep.sameWork.modifiers)
  | work _ _ hstep ih => exact ih.trans hstep.gathers
  | exhausted _ ih | restore _ _ ih => exact ih
  | stop _ _ ih | answer _ _ _ ih | say _ _ _ ih | consent _ ih =>
    exact ih.trans (.of_append [_] rfl rfl (by simp [TraceEntry.IsCommand]))
  | refuse _ _ _ ih | exceed _ _ _ _ ih | consult _ _ _ _ ih | dismiss _ _ _ _ ih | decline _ _ ih =>
    exact ih.trans (.of_append [_, _] rfl rfl (by simp [TraceEntry.IsCommand]))
  | @forgive l e e₁ e₂ d line script n _ _ _ _ _ _ ih ih' =>
    have hanswered : e₁.Gathers (e₁.hear (.delete n) script) :=
      .of_append [_] rfl rfl (by simp [TraceEntry.IsCommand])
    have hforgiven : e₂.Gathers (e₂.record (.forgiven d)) :=
      .of_append [_] rfl rfl (by simp [TraceEntry.IsCommand])
    exact ((ih.trans hanswered).trans ih').trans hforgiven
  | decide _ _ _ ih ih' => exact ih.trans ih'
  | branch _ _ _ _ ih ih' => exact ih.trans ih'
  | box _ _ _ _ _ ih ih' => exact ih.trans ih'

end Courses

/-! ## The start of a run -/

/-- The diagnostic for an end mark which belongs to no conditional. -/
def EndMark.extraKind : EndMark → Kind
  | orMark => .extraOr
  | elseMark => .extraElse
  | fiMark => .extraFi

namespace Engine

/-- The next token is executed as if there were no words in front of it. -/
def Unprefixed (m : Machine) (e : Engine) : Prop :=
  ∀ t meaning, t.isCode = true → e.context.meaning t = some meaning →
    (∀ id name word, meaning ≠ .primitive id name (.modifier word)) →
    dispatch m t e = executeModified m t meaning .none (e.dispatching t)

variable {e : Engine}

theorem unprefixed_of_modifiers (h : e.modifiers = .none) (m : Machine) : e.Unprefixed m := by
  intro t meaning hcode hmeaning hne
  rw [dispatch_of_no_word hcode hmeaning hne, h]

/-- The first token of the next run is read with what has been gathered before. -/
theorem modifiers_of_nextExpanded {n : Nat} {t : Token} {text source : String} {e₁ : Engine}
    (h : (machine n).nextExpanded (e.pushText text source).begin = .ok (some t) e₁) : e₁.modifiers = e.modifiers := by
  let R : Regime := ⟨False, .scanning, True⟩
  have hread : Meets R (machine n).nextExpanded fun x => ∀ t ∈ x, R.Admits t := (machine_sound n).nextExpanded
  have hcourse : Course R.strict R.level none (e.pushText text source).begin e₁ := ((hread _ False.elim).ok h).1
  obtain ⟨input, hpushed⟩ := e.pushText_eq text source
  rw [(hcourse.sameWork rfl).modifiers, hpushed]
  rfl

theorem endBranch_of_conditionals (h : e.context.conditionals = []) (m : Machine) (t : Token) (mark : EndMark) :
    endBranch m t mark e = reportHere m mark.extraKind [] e := by
  unfold endBranch
  rw [Proc.context_bind, h]
  cases mark <;> rfl

end Engine

/-! ## Runs -/

theorem Outcome.gathers {strict : Prop} {e : Engine} {r : EStateM.Result (Interrupted Unit) Engine Unit}
    (h : Outcome strict e r) : e.Gathers (finalState r) := by
  cases h with
  | unprepared => exact .of_append [_] rfl rfl (by simp [TraceEntry.IsCommand])
  | stopped h => exact h.gathers
  | unclosed h hreport => exact h.gathers.trans hreport.gathers
  | ended h hreport => exact h.gathers.trans hreport.gathers

theorem Outcome.drained {strict : Prop} {e : Engine} {r : EStateM.Result (Interrupted Unit) Engine Unit}
    (h : Outcome strict e r) (he : e.Ready) : e.Drained (finalState r) := by
  have hlater : ∀ e₁ e₂ : Engine, e.trace <:+ e₁.trace → e₁.Drained e₂ → e.Drained e₂ := by
    rintro e₁ e₂ ⟨earlier, htrace⟩ (hinput | ⟨d, new, hd, htrace', hmem⟩)
    · exact .inl hinput
    · refine .inr ⟨d, new ++ earlier, hd, ?_, List.mem_append_left earlier hmem⟩
      rw [htrace', ← htrace, List.append_assoc]
  cases h with
  | unprepared hready => exact (hready he).elim
  | stopped => exact .inl rfl
  | unclosed h _ _ hinput => exact hlater _ _ h.trace_suffix hinput
  | ended h _ hinput => exact hlater _ _ h.trace_suffix hinput

/-- **What a run leaves to the next one.** After every run the input is empty, unless the handler was asked about open
groups, since it can insert something then. If nothing has stopped the run, no conditional is left. Words which were
gathered for an assignment are left only if the last command of the run was such a word, or if they were there before and
the run had no command. Where no conditional is left, an end mark without a conditional is reported, and where no word is
left, the first command of the next run is executed as one without a word in front of it. -/
theorem runs_separated (n : Nat) {e : Engine} (he : e.Ready) :
    ∃ new, (finalState (run (machine n) e)).trace = new ++ e.trace ∧
      e.Drained (finalState (run (machine n) e)) ∧
      (stopOf (run (machine n) e) = none → (finalState (run (machine n) e)).context.conditionals = []) ∧
      Gathered e.modifiers (finalState (run (machine n) e)).modifiers new ∧
      ((finalState (run (machine n) e)).context.conditionals = [] → ∀ m t mark,
        endBranch m t mark (finalState (run (machine n) e)) =
          reportHere m mark.extraKind [] (finalState (run (machine n) e))) ∧
      ((finalState (run (machine n) e)).modifiers = .none → ∀ k text source t e₁,
        (machine k).nextExpanded ((finalState (run (machine n) e)).pushText text source).begin = .ok (some t) e₁ →
          e₁.Unprefixed (machine k)) := by
  have houtcome : Outcome False e (run (machine n) e) := run_outcome n False.elim
  obtain ⟨new, htrace, hnew⟩ := houtcome.gathers
  refine ⟨new, htrace, houtcome.drained he, ?_, hnew, fun h => Engine.endBranch_of_conditionals h, ?_⟩
  · intro hstop
    cases hrun : run (machine n) e with
    | error i e' =>
      rw [hrun] at hstop
      cases hstop
    | ok u e' =>
      rw [hrun] at houtcome
      cases houtcome
      rfl
  · intro hmodifiers k text source t e₁ hread
    exact Engine.unprefixed_of_modifiers ((Engine.modifiers_of_nextExpanded hread).trans hmodifiers) (machine k)

/-- A conditional which is not ended is dropped. -/
theorem runs_separated_open_branch :
    let opened : Engine := (Engine.new default {}).bind "open" fun id => .primitive id "open" (.condition (.constant true))
    let e := opened.pushText "\\open a" ""
    e.Ready ∧ (finalState (run (machine 8) e)).context.conditionals = [] := by
  intro opened e
  have hready : e.Ready := by
    unfold Engine.Ready
    decide +kernel
  have hstop : (stopOf (run (machine 8) e)).isNone = true := by decide +kernel
  obtain ⟨new, -, -, hconditionals, -⟩ := runs_separated 8 hready
  exact ⟨hready, hconditionals (Option.isNone_iff_eq_none.1 hstop)⟩

/-- Where the end of the input stops a run, a conditional and a word are left. In the next run they are used: the end mark
ends the conditional instead of being reported, and the first command is reported because of the word. -/
theorem runs_leak_after_stop :
    let declared := Declaration.builtin.filter fun d => d.name ∈ ["global", "iftrue", "iffalse", "relax", "fi"]
    let e : Engine := ((Engine.new default {}).install declared).toOption.getD default
    let e₁ := finalState (runText (machine 8) "\\global\\iftrue\\iffalse" "" e)
    let e₂ := finalState (runText (machine 8) "\\relax\\fi" "" e₁)
    e₁.context.conditionals.length = 1 ∧ e₁.modifiers = { isGlobal := true } ∧ e₂.errorCount = 1 ∧
      e₂.trace.findSome? (fun | .consulted d => some d.kind | _ => none) = some .cantUseModifier := by
  decide +kernel

end Compositor
