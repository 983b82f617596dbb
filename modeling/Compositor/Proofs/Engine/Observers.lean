import Compositor.Proofs.Engine.Deeds
import Mathlib.Data.List.Destutter

/-!
# Observers of the interaction mode

Observers are told about a new interaction mode. The mode changes with assignments, local and global ones, and with the end
of a group in which it had another value. An engine is an observer as well: it has to know whether messages are to be
written to the terminal.

* `Context.Tells` says of a change that the observers are told about it, if there is something to tell, and not otherwise;
  `Context.tells_undergo` says that of every deed;
* `Context.heard` is what one observer is told, `Context.modes` are the modes there were;
* `observers_told_changes` is the main statement.
-/

namespace Compositor

/-! ## What one deed tells -/

def Notice.mode? : Notice → Option Interaction
  | .interaction mode => some mode
  | _ => none

namespace Context

def observers (c : Context) : Nat := c.watches.count .interaction

/-- Nothing is told about the interaction mode. -/
def Hushed (c c' : Context) : Prop :=
  c'.muted = c.muted ∧ ∃ new, c'.notices = new ++ c.notices ∧ new.filterMap Notice.mode? = []

/-- Every observer is told about the interaction mode if there is a new one, and nobody otherwise. -/
structure Tells (c c' : Context) : Prop where
  muted : c'.muted = if c'.interaction = c.interaction then c.muted else Decidable.decide (c'.interaction = .batch)
  notices : ∃ new, c'.notices = new ++ c.notices ∧
    new.filterMap Notice.mode? = if c'.interaction = c.interaction then [] else .replicate c.observers c'.interaction

variable {c c₁ c' : Context}

namespace Hushed

theorem of_eq (hmuted : c'.muted = c.muted) (hnotices : c'.notices = c.notices) : c.Hushed c' :=
  ⟨hmuted, [], hnotices, rfl⟩

theorem trans (h : c.Hushed c₁) (h' : c₁.Hushed c') : c.Hushed c' := by
  obtain ⟨hmuted, new, hnotices, hnew⟩ := h
  obtain ⟨hmuted', new', hnotices', hnew'⟩ := h'
  refine ⟨hmuted'.trans hmuted, new' ++ new, by rw [hnotices', hnotices, List.append_assoc], ?_⟩
  rw [List.filterMap_append, hnew, hnew', List.append_nil]

theorem modifyCurrent (c : Context) (f : Group → Group) : c.Hushed (c.modifyCurrent f) := by
  unfold Context.modifyCurrent
  split <;> exact of_eq rfl rfl

theorem set (c : Context) (k : Key) (v : k.Value) (globally : Bool) : c.Hushed (c.set k v globally) := by
  unfold Context.set
  split
  · exact of_eq rfl rfl
  · exact modifyCurrent c _

theorem notify (c : Context) (w : Watch) {n : Notice} (hn : n.mode? = none) : c.Hushed (c.notify w n) :=
  ⟨rfl, _, rfl, by simp [hn]⟩

theorem setCount (c : Context) (name : String) (v : Int64) (globally : Bool) : c.Hushed (c.setCount name v globally) :=
  (set c _ _ globally).trans (notify _ _ rfl)

theorem setMeaning (c : Context) (t : Token) (m : Option Meaning) (globally : Bool) :
    c.Hushed (c.setMeaning t m globally) :=
  (set c _ _ globally).trans (notify _ _ rfl)

/-- Nothing is told about the interaction mode where something else is assigned. -/
theorem assign (c : Context) {s : Slot} (hs : s ≠ .interaction) (v : s.Value) (globally : Bool) :
    c.Hushed (c.assign s v globally) := by
  match s with
  | .key k =>
    have hset := set c k v globally
    cases k with
    | count name => exact setCount c name v globally
    | meaning t => exact setMeaning c t v globally
    | _ => exact hset
  | .style | .space =>
    cases globally
    · exact modifyCurrent c _
    · exact of_eq rfl rfl
  | .interaction => exact (hs rfl).elim

end Hushed

namespace Tells

theorem of_hushed (h : c.Hushed c') (hmode : c'.interaction = c.interaction) : c.Tells c' := by
  obtain ⟨hmuted, new, hnotices, hnew⟩ := h
  exact ⟨by rw [if_pos hmode, hmuted], new, hnotices, by rw [if_pos hmode, hnew]⟩

theorem of_eq (hgroups : c'.current = c.current) (hmuted : c'.muted = c.muted) (hnotices : c'.notices = c.notices) :
    c.Tells c' :=
  of_hushed (.of_eq hmuted hnotices) (congrArg Group.interaction hgroups)

/-- The observers are told about a mode which is a new one. -/
theorem of_notifyInteraction (h : c.Hushed c₁) (hwatches : c₁.watches = c.watches) {mode : Interaction}
    (hmode : c₁.interaction = mode) (hne : mode ≠ c.interaction) : c.Tells (c₁.notifyInteraction mode) := by
  obtain ⟨-, new, hnotices, hnew⟩ := h
  have hnew' : ¬ (c₁.notifyInteraction mode).interaction = c.interaction := fun heq => hne (hmode.symm.trans heq)
  refine ⟨?_, .replicate (c₁.watches.count .interaction) (.interaction mode) ++ new, ?_, ?_⟩
  · rw [if_neg hnew']
    exact congrArg (fun m => Decidable.decide (m = .batch)) hmode.symm
  · show _ ++ c₁.notices = _
    rw [hnotices, List.append_assoc]
  · rw [if_neg hnew', List.filterMap_append, hnew, List.append_nil, List.filterMap_replicate, hwatches]
    exact congrArg (List.replicate _) hmode.symm

theorem andHushed (h : c.Tells c₁) (h' : c₁.Hushed c') (hmode : c'.interaction = c₁.interaction) : c.Tells c' := by
  obtain ⟨hmuted, new, hnotices, hnew⟩ := h
  obtain ⟨hmuted', new', hnotices', hnew'⟩ := h'
  refine ⟨by rw [hmuted', hmuted, hmode], new' ++ new, by rw [hnotices', hnotices, List.append_assoc], ?_⟩
  rw [List.filterMap_append, hnew', hnew, hmode, List.nil_append]

theorem setInteraction (c : Context) (mode : Interaction) (globally : Bool) : c.Tells (c.setInteraction mode globally) := by
  have hmode : (c.setInteraction mode globally).interaction = mode := by
    have hread := congrFun (c.read_assign .interaction mode globally) .interaction
    rwa [Function.update_self] at hread
  unfold Context.setInteraction at hmode ⊢
  generalize hchanged : (if globally then c.modifyAll fun g => { g with interaction := mode }
    else c.modifyCurrent fun g => { g with interaction := mode }) = changed at hmode ⊢
  have hhushed : c.Hushed changed ∧ changed.watches = c.watches := by
    rw [← hchanged]
    split
    · exact ⟨.of_eq rfl rfl, rfl⟩
    · exact ⟨.modifyCurrent c _, (c.regroups_modifyCurrent _).watches⟩
  by_cases hsame : c.interaction = mode
  · simp only [if_neg (not_not.2 hsame)] at hmode ⊢
    exact of_hushed hhushed.1 (hmode.trans hsame.symm)
  · simp only [if_pos hsame] at hmode ⊢
    exact of_notifyInteraction hhushed.1 hhushed.2 hmode (Ne.symm hsame)

/-- The end of a group brings back the mode outside of it. -/
theorem closeGroup {kind : GroupKind} {ts : List Token} (h : c.closeGroup kind = .ok (ts, c')) : c.Tells c' := by
  unfold Context.closeGroup at h
  split at h
  · cases h
  · rename_i g rest hinner
    split at h
    · cases h
    · simp only [Except.ok.injEq, Prod.mk.injEq] at h
      obtain ⟨-, rfl⟩ := h
      let closed : Context := { c with inner := rest }
      have hmode : c.interaction = g.interaction := by simp [interaction, current, hinner]
      have hdeferred : ∀ (c₁ : Context) (depth : Nat), c₁.Hushed
          { c₁ with notices := (deferredNotices g.after depth).reverse ++ c₁.notices } := by
        intro c₁ depth
        refine ⟨rfl, _, rfl, List.filterMap_eq_nil_iff.2 fun n hn => ?_⟩
        simp only [List.mem_reverse, deferredNotices, List.mem_filterMap] at hn
        obtain ⟨action, -, haction⟩ := hn
        cases action with
        | token t => cases haction
        | notice label =>
          cases haction
          rfl
      have htold : c.Tells
          (if g.interaction ≠ closed.current.interaction then closed.notifyInteraction closed.current.interaction
          else closed) := by
        split
        · rename_i hne
          have hclosed : c.Hushed closed := .of_eq rfl rfl
          exact of_notifyInteraction hclosed rfl rfl (hmode ▸ Ne.symm hne)
        · rename_i heq
          exact of_hushed (.of_eq rfl rfl) ((not_not.1 heq).symm.trans hmode.symm)
      exact htold.andHushed (hdeferred _ _) rfl

theorem set (c : Context) (k : Key) (v : k.Value) (globally : Bool) : c.Tells (c.set k v globally) := by
  refine of_hushed (.set c k v globally) ?_
  unfold Context.set interaction current modifyCurrent
  cases globally <;> cases c.inner <;> simp [Group.bind]
  split <;> rfl

theorem assign (c : Context) (s : Slot) (v : s.Value) (globally : Bool) : c.Tells (c.assign s v globally) := by
  by_cases hs : s = .interaction
  · subst hs
    exact setInteraction c v globally
  · refine of_hushed (.assign c hs v globally) ?_
    have hread := congrFun (c.read_assign s v globally) .interaction
    rwa [Function.update_of_ne (Ne.symm hs)] at hread

end Tells

/-- **Every deed tells what there is to tell about the mode.** -/
theorem tells_undergo (c : Context) (d : Deed) : c.Tells (c.undergo d) := by
  cases d with
  | operate op =>
    cases op with
    | openGroup kind place => exact .of_hushed (.of_eq rfl rfl) rfl
    | closeGroup kind =>
      simp only [undergo, apply]
      split
      · exact .closeGroup ‹_›
      · exact .of_eq rfl rfl rfl
    | assign s v globally => exact .assign c s v globally
  | set k v globally => exact .set c k v globally
  | afterGroupToken t =>
    simp only [undergo, afterGroupToken]
    split
    · exact .of_eq rfl rfl rfl
    · refine .of_hushed (.of_eq rfl rfl) ?_
      simp [interaction, current, *]
  | afterGroupNotice label =>
    refine .of_hushed (.modifyCurrent c _) ?_
    unfold undergo afterGroupNotice modifyCurrent interaction current
    cases c.inner <;> rfl
  | setMaxMagnification max =>
    simp only [undergo, setMaxMagnification]
    split <;> exact .of_eq rfl rfl rfl
  | setMagnification v lock =>
    simp only [undergo]
    cases hset : c.setMagnification v lock with
    | ok c' =>
      rw [setMagnification_eq hset]
      exact .of_eq rfl rfl rfl
    | error fault => exact .of_eq rfl rfl rfl
  | setCalendar m =>
    have hcount : ∀ (c : Context) name v, (c.setCount name v true).interaction = c.interaction :=
      fun c name v => congrFun (c.read_assign (.key (.count name)) v true) .interaction
    refine .of_hushed ?_ (by simp only [undergo, setCalendar, hcount])
    exact (((Hushed.setCount c _ _ true).trans (.setCount _ _ _ true)).trans (.setCount _ _ _ true)).trans
      (.setCount _ _ _ true)
  | _ => exact .of_eq rfl rfl rfl

/-! ## What an observer is told -/

/-- The modes which the observers are told about at a deed, each observer after the one which was there before it. -/
def round (c : Context) (d : Deed) : List Interaction :=
  let notices := (c.undergo d).notices
  (notices.take (notices.length - c.notices.length)).reverse.filterMap Notice.mode?

/-- The modes which the observer with number `i` is told about, counted from zero in the order of registration. -/
def heard (c : Context) (i : Nat) : List Deed → List Interaction
  | [] => []
  | d :: ds => (c.round d)[i]?.toList ++ (c.undergo d).heard i ds

/-- The modes before the first deed and after each of them. -/
def modes (c : Context) : List Deed → List Interaction
  | [] => [c.interaction]
  | d :: ds => c.interaction :: (c.undergo d).modes ds

theorem round_eq (c : Context) (d : Deed) :
    c.round d = if (c.undergo d).interaction = c.interaction then []
      else .replicate c.observers (c.undergo d).interaction := by
  obtain ⟨new, hnotices, hnew⟩ := (c.tells_undergo d).notices
  unfold round
  simp only [hnotices, List.length_append, Nat.add_sub_cancel, List.take_left, List.filterMap_reverse, hnew]
  split
  · rfl
  · exact List.reverse_replicate

theorem observers_le (c : Context) (d : Deed) : c.observers ≤ (c.undergo d).observers :=
  (c.watches_undergo d).sublist.count_le _

theorem head?_modes (c : Context) (ds : List Deed) : ∃ rest, c.modes ds = c.interaction :: rest := by
  cases ds <;> exact ⟨_, rfl⟩

theorem exists_destutter'_eq_cons (mode : Interaction) (ms : List Interaction) :
    ∃ later, ms.destutter' (· ≠ ·) mode = mode :: later := by
  induction ms with
  | nil => exact ⟨[], rfl⟩
  | cons m ms ih =>
    rw [List.destutter'_cons]
    split
    · exact ⟨_, rfl⟩
    · exact ih

/-- **An observer is told about the changes of the mode, in their order.** -/
theorem heard_eq {i : Nat} (hi : i < c.observers) (ds : List Deed) :
    c.heard i ds = ((c.modes ds).destutter (· ≠ ·)).tail := by
  induction ds generalizing c with
  | nil => rfl
  | cons d ds ih =>
    have htail := ih (hi.trans_le (c.observers_le d))
    obtain ⟨rest, hmodes⟩ := (c.undergo d).head?_modes ds
    rw [hmodes, List.destutter_cons'] at htail
    rw [heard, htail, round_eq, modes, hmodes]
    by_cases hsame : (c.undergo d).interaction = c.interaction
    · rw [if_pos hsame, List.destutter_cons_cons, hsame, if_neg (not_not.2 rfl)]
      rfl
    · obtain ⟨later, hlater⟩ := exists_destutter'_eq_cons (c.undergo d).interaction rest
      rw [if_neg hsame, List.destutter_cons_cons, if_pos (Ne.symm hsame), hlater]
      simp [hi]

/-! ## The flag of an engine -/

/-- Terminal output is suppressed in batch mode, and in no other. -/
def InStep (c : Context) : Prop := c.muted = true ↔ c.interaction = .batch

theorem InStep.undergo (h : c.InStep) (d : Deed) : (c.undergo d).InStep := by
  have hmuted := (c.tells_undergo d).muted
  unfold InStep
  rw [hmuted]
  split
  · rename_i hsame
    rw [hsame]
    exact h
  · exact decide_eq_true_iff

theorem Undergoes.inStep (h : c.Undergoes c') (hc : c.InStep) : c'.InStep := by
  obtain ⟨ds, rfl⟩ := h
  induction ds generalizing c with
  | nil => exact hc
  | cons d ds ih => exact ih (hc.undergo d)

end Context

theorem Engine.new_inStep (c : Context) (settings : Settings) : (Engine.new c settings).context.InStep := by
  have hmode : (Engine.new c settings).context.interaction = settings.interaction :=
    congrFun (Context.read_assign _ .interaction settings.interaction true) .interaction
  unfold Context.InStep
  rw [hmode]
  exact decide_eq_true_iff

/-! ## Messages -/

section Messages

variable {strict : Prop} {l : Level} {o : Option Stop} {e e' : Engine}

theorem Course.terminal_eq (h : Course strict l o e e') (hl : l = .scanning)
    (hsilent : e.handler.Avoids Intervention.isSpeech) : e'.terminal = e.terminal := by
  induction h with
  | refl => rfl
  | scan _ hstep ih =>
    refine Eq.trans ?_ (ih hl hsilent)
    cases hstep with
    | pushText text source =>
      obtain ⟨input, heq⟩ := Engine.pushText_eq _ text source
      rw [heq]
    | _ => rfl
  | work hl' | box hl' => cases hl.symm.trans hl'
  | exhausted _ ih => exact ih hl hsilent
  | stop _ _ ih | restore _ _ ih | refuse _ _ _ ih | exceed _ _ _ _ ih | consult _ _ _ _ ih | answer _ _ _ ih
  | dismiss _ _ _ _ ih | consent _ ih | decline _ _ ih => exact ih hl hsilent
  | say h hspeaks =>
    have hspeaks := hspeaks.resolve_left (by simp [hl])
    rw [h.sameTerms.handler] at hspeaks
    exact (hspeaks hsilent).elim
  | forgive h _ _ _ _ _ ih ih' => exact (ih' hl (h.sameTerms.handler ▸ hsilent)).trans (ih hl hsilent)
  | decide h _ _ ih ih' => exact (ih' rfl (h.sameTerms.handler ▸ hsilent)).trans (ih hl hsilent)
  | branch h _ _ _ ih ih' => exact (ih' rfl (h.sameTerms.handler ▸ hsilent)).trans (ih hl hsilent)

/-- A message is written to the terminal unless the mode is batch mode. -/
theorem execute_message {n : Nat} {name : String} {modifiers : Modifiers} (he : e.context.InStep)
    (h : Command.execute (machine n) name modifiers .message e = .ok () e') :
    ∃ text e₁, balancedText (machine n) true e = .ok text e₁ ∧
      e'.trace = .messaged (Token.formatList text) :: e₁.trace ∧
      (e.handler.Avoids Intervention.isSpeech → e₁.terminal = e.terminal) ∧
      e'.terminal = if e'.context.interaction = .batch then e₁.terminal
        else e₁.terminal ++ Token.formatList text ++ "\n" := by
  simp only [Command.execute] at h
  obtain ⟨text, e₁, hscan, hrest⟩ := Proc.bind_eq_ok h
  cases hrest
  have hread := Proc.lift_eq_ok.1 hscan
  have htext : Meets ⟨False, .scanning, False⟩ (balancedText (machine n) true) _ := meets_balancedText (machine_sound n) true
  have hcourse := ((htext e False.elim).ok hread).1
  have hinStep : e₁.context.InStep := hcourse.undergoes.inStep he
  refine ⟨text, e₁, hread, rfl, hcourse.terminal_eq rfl, ?_⟩
  show (if e₁.context.muted = true then e₁.terminal else _) = _
  exact if_congr hinStep rfl rfl

end Messages

/-! ## The main statement -/

/-- **Observers are told about the changes of the interaction mode, and about nothing else.** Whatever is done to a context,
an observer which is registered already is told about the modes which the context comes to have, without repetitions and
without the one it had before. At a deed every observer is told once, or nobody is. What an engine does to its context is a
sequence of deeds as well. So in all states of an engine, those in the midst of a run among them, terminal output is
suppressed in batch mode and in no other, and the command which writes a message reads its text and writes it to the
terminal in all other modes. While the text is read, nothing comes to the terminal, unless a handler of errors has something
to say. The number `n` bounds how far the command is followed. -/
theorem observers_told_changes :
    (∀ (c : Context) ds i, i < c.observers → c.heard i ds = ((c.modes ds).destutter (· ≠ ·)).tail) ∧
    (∀ (c : Context) d, c.round d = [] ∨ (c.round d).length = c.observers) ∧
    (∀ e e', Engine.Later e e' → ∃ ds, e'.context = e.context.undergoAll ds) ∧
    ∀ c settings e, (Engine.new c settings).Later e →
      (e.context.muted = true ↔ e.context.interaction = .batch) ∧
      ∀ n name modifiers e', Command.execute (machine n) name modifiers .message e = .ok () e' →
        ∃ text e₁, balancedText (machine n) true e = .ok text e₁ ∧
          e'.trace = .messaged (Token.formatList text) :: e₁.trace ∧
          (e.handler.Avoids Intervention.isSpeech → e₁.terminal = e.terminal) ∧
          e'.terminal = if e'.context.interaction = .batch then e₁.terminal
            else e₁.terminal ++ Token.formatList text ++ "\n" := by
  refine ⟨fun c ds i hi => Context.heard_eq hi ds, fun c d => ?_, fun e e' hlater => hlater.undergoes,
    fun c settings e hlater => ?_⟩
  · rw [Context.round_eq]
    split
    · exact .inl rfl
    · exact .inr List.length_replicate
  · have hinStep : e.context.InStep := hlater.undergoes.inStep (Engine.new_inStep c settings)
    exact ⟨hinStep, fun n name modifiers e' h => execute_message hinStep h⟩

/-- A group in batch mode in which the mode is set twice. The second observer is told that it begins and that it ends. -/
theorem observers_told_changes_group :
    let c : Context := ((default : Context).watch .interaction).watch .interaction
    let batch : Deed := .operate (.assign .interaction .batch false)
    1 < c.observers ∧ c.heard 1 [.operate (.openGroup .simple {}), batch, batch, .operate (.closeGroup .simple)] =
      [.batch, .errorStop] := by
  intro c batch
  have hc : 1 < c.observers := by decide
  refine ⟨hc, ?_⟩
  rw [observers_told_changes.1 c _ 1 hc]
  decide

end Compositor
