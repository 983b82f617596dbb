import Compositor.Declaration.Builtin
import Compositor.Proofs.Engine.Branching
import Compositor.Proofs.Engine.Keeping
import Compositor.Proofs.Engine.Shelter

/-!
# End marks and their conditionals

An end mark which is executed ends the branch on top of the stack, and one which is met in skipped text ends the skipping.
Either is for the conditional whose branch has begun last, or whose branches are being looked for. That is the conditional
which was started last, unless a condition has started another one and has left it open: then the conditional of this
condition comes to lie above the other one, although it was started before.

* `Neutral` are the procedures which do not touch conditionals. Reading, reporting and skipping are of this kind;
* `endBranch_conditionals` says what an end mark does to the stack, `StartsOn` what the start of a conditional does to it;
* `Recounts` tells the history of the conditionals between two states. Whatever the engine does has one
  (`Course.recounted`), and in an orderly one the conditional which was started last ends first (`Orderly.ended`);
* `marks_end_last_branch` puts this together, `marks_end_outer_branch` is about conditions which leave a conditional open.
-/

namespace Compositor

variable {α β γ σ ρ : Type}

/-! ## What does not touch conditionals -/

/-- The procedure leaves the conditionals as they are, however it ends. -/
abbrev Neutral (p : Proc β α) : Prop := Keeps (fun e => e.context.conditionals) p

theorem ignoresReports_conditionals : IgnoresReports fun e => e.context.conditionals where
  stopped _ _ := rfl
  consulted _ _ := rfl
  answered _ _ := rfl
  decided _ _ := rfl
  forgiven _ _ := rfl
  messaged _ _ := rfl
  aside _ _ _ _ _ _ _ := rfl
  mode e mode := (e.context.regroups_setInteraction mode true).conditionals

section Reading

variable {m : Machine} (hnext : Neutral m.next)

include hnext

/-- Errors are reported without touching the conditionals, whatever the handler does. -/
theorem neutral_reportHere (kind : Kind) (arguments : List Argument) : Neutral (reportHere m kind arguments) :=
  keeps_reportHere ignoresReports_conditionals hnext (fun _ _ _ => rfl) arguments

theorem neutral_skip (k : Conditional) (atOr : Bool) : Neutral (skip m k atOr) := by
  refine .iterate (fun level => hnext.bind fun x => ?_) m.fuel 0
  cases x with
  | none => exact fun _ => rfl
  | some t => exact (keeps_meaningOf _ t).bind fun _ => .pure _

theorem neutral_skipToFi (k : Conditional) : Neutral (skipToFi m k) := by
  refine .iterate (fun _ => (neutral_skip hnext k false).bind fun mark => ?_) m.fuel ()
  cases mark <;> exact .pure _

end Reading

theorem neutral_next (n : Nat) : Neutral (machine n).next :=
  keeps_next ignoresReports_conditionals (fun _ _ _ => rfl) n

/-! ## End marks -/

/-- The mark ends the branch of the conditional which is being executed. -/
def Conditional.heeds (k : Conditional) : EndMark → Bool
  | .fiMark => true
  | .elseMark => k.value
  | .orMark => k.isSwitch && k.value

/-- What an end mark leaves of a stack. It is for the conditional on top, or for none. -/
def EndMark.leave (mark : EndMark) : List Conditional → List Conditional
  | [] => []
  | k :: below => if !k.evaluating && k.heeds mark then below else k :: below

section Marks

variable {m : Machine} (hnext : Neutral m.next)

include hnext

theorem leaveBranch_conditionals (k : Conditional) (e : Engine) :
    (finalState (leaveBranch m k e)).context.conditionals = e.context.conditionals.tail :=
  neutral_skipToFi hnext k (e.modifyContext Context.popConditional)

/-- **An executed end mark takes away the conditional on top of the stack, or none.** -/
theorem endBranch_conditionals (t : Token) (mark : EndMark) (e : Engine) :
    (finalState (endBranch m t mark e)).context.conditionals = mark.leave e.context.conditionals := by
  have hreport : ∀ kind, (finalState (reportHere m kind [] e)).context.conditionals = e.context.conditionals :=
    fun kind => neutral_reportHere hnext kind [] e
  unfold endBranch
  rw [Proc.context_bind]
  rcases hstack : e.context.conditionals with _ | ⟨k, below⟩
  · rw [hstack] at hreport
    cases mark <;> exact hreport _
  · rw [hstack] at hreport
    have hleave : (finalState (leaveBranch m k e)).context.conditionals = below := by
      rw [leaveBranch_conditionals hnext, hstack]
      rfl
    simp only [List.head?_cons, EndMark.leave]
    by_cases hk : k.evaluating = true
    · simp only [hk, if_true, Bool.not_true, Bool.false_and, Bool.false_eq_true, if_false]
      exact hstack
    · simp only [hk, Bool.not_false, Bool.true_and, Bool.false_eq_true, if_false]
      cases mark with
      | fiMark => exact congrArg List.tail hstack
      | elseMark =>
        simp only [Conditional.heeds]
        split
        · exact hleave.trans (if_pos ‹_›).symm
        · exact (hreport _).trans (if_neg ‹_›).symm
      | orMark =>
        simp only [Conditional.heeds]
        split
        · exact hleave.trans (if_pos ‹_›).symm
        · exact (hreport _).trans (if_neg ‹_›).symm

end Marks

/-- Where the branch of a conditional is not selected, the first end mark which belongs to no conditional after it is for
this one, whatever is open. -/
theorem startBranch_skips {e : Engine} {k : Conditional} {ts : List Token} {mark : EndMark} {rest : Input}
    (hvalue : k.value = false) (hcarries : Carries e.context false ts 0 0) (t : MarkToken e.context mark)
    (hmark : mark ≠ .orMark) (hinput : e.input.Delivers e.context.lexicon (ts ++ [t.token]) rest) :
    Runs (startBranch · k) e ()
      (e.reading rest (if mark = .elseMark then k :: e.context.conditionals else e.context.conditionals) e.serial) := by
  have hskip : Runs (skip · k false) e mark (e.reading rest e.context.conditionals e.serial) :=
    skip_mark (e := e) (s := e.serial) hcarries t (fun h => (hmark h).elim) hinput
  obtain ⟨fuel, hfuel⟩ := hskip
  refine ⟨fuel, fun n hn => ?_⟩
  simp only [startBranch, hvalue, Bool.false_eq_true, if_false]
  rw [Proc.bind_ok (hfuel n hn)]
  cases mark <;> rfl

/-! ## Starts of conditionals -/

/-- The procedure may begin a branch of a conditional with this number, and does nothing else to the conditionals. -/
def Begins (id : Nat) (p : Action Unit) : Prop :=
  ∀ e, (finalState (p e)).context.conditionals = e.context.conditionals ∨
    ∃ k, k.id = id ∧ k.evaluating = false ∧
      (finalState (p e)).context.conditionals = k :: e.context.conditionals

/-- The procedure starts a conditional. It comes to lie above the conditionals which its condition has started and left open,
or it is not open any more. -/
def StartsOn (p : Action Unit) (e : Engine) : Prop :=
  ∃ above, (∀ k ∈ above, k.evaluating = false ∧ e.serial < k.id) ∧
    ((finalState (p e)).context.conditionals = above ++ e.context.conditionals ∨
      ∃ k, k.id = e.serial ∧ k.evaluating = false ∧
        (finalState (p e)).context.conditionals = k :: (above ++ e.context.conditionals))

section Starts

variable {m : Machine} (hnext : Neutral m.next) {c : Conditional}

include hnext

theorem begins_startBranch (hc : c.evaluating = false) : Begins c.id (startBranch m c) := by
  intro e
  have hskip := neutral_skip hnext c false e
  unfold startBranch
  split
  · exact .inr ⟨c, rfl, hc, rfl⟩
  · cases h : skip m c false e with
    | error i e₁ =>
      rw [h] at hskip
      rw [Proc.bind_error h]
      exact .inl hskip
    | ok mark e₁ =>
      rw [h] at hskip
      rw [Proc.bind_ok h]
      cases mark with
      | elseMark => exact .inr ⟨c, rfl, hc, congrArg (c :: ·) hskip⟩
      | fiMark | orMark => exact .inl hskip

theorem begins_selectCase (hc : c.evaluating = false) : Begins c.id (selectCase m c) := by
  unfold selectCase
  generalize m.fuel = fuel
  generalize 0 = number
  -- by induction on the turns of the loop: until a branch begins, the conditionals are those from before the first turn
  induction fuel generalizing number with
  | zero => exact fun e => .inl rfl
  | succ fuel ih =>
    intro e
    rw [iterate]
    by_cases hnumber : number = c.branch.toInt
    · have hstep : selectStep m c number e = .ok (.done ()) (e.modifyContext (·.pushConditional c)) := by
        unfold selectStep
        rw [if_pos hnumber]
        rfl
      rw [Proc.bind_ok hstep]
      exact .inr ⟨c, rfl, hc, rfl⟩
    · have hskip := neutral_skip hnext c true e
      have hstep : selectStep m c number e = _ := congrFun (if_neg hnumber) e
      cases h : skip m c true e with
      | error i e₁ =>
        rw [h] at hskip
        rw [Proc.bind_error (hstep.trans (Proc.bind_error h))]
        exact .inl hskip
      | ok mark e₁ =>
        have hsame : e₁.context.conditionals = e.context.conditionals := by simpa only [h, finalState] using hskip
        have hturn := hstep.trans (Proc.bind_ok h)
        cases mark with
        | orMark =>
          rw [Proc.bind_ok hturn]
          have hrest := ih (number + 1) e₁
          rw [hsame] at hrest
          exact hrest
        | elseMark =>
          rw [Proc.bind_ok hturn]
          let c' : Conditional := { c with value := false }
          exact .inr ⟨c', rfl, hc, congrArg (c' :: ·) hsame⟩
        | fiMark =>
          rw [Proc.bind_ok hturn]
          exact .inl hsame

omit hnext in
theorem startsOn_decide {β : Type} {x : Proc β β} {Q : β → Prop} (hx : Meets .reading x Q) {f : β → Action Unit} {e : Engine}
    (hc : c.id = e.serial) (hf : ∀ b, Begins c.id (f b)) {p : Action Unit}
    (hp : p e = (decide m c x >>= f) { e with serial := e.serial + 1 }) : StartsOn p e := by
  let e₁ : Engine := { e with serial := e.serial + 1 }
  have hid : c.id < e₁.serial := by
    rw [hc]
    exact Nat.lt_succ_self e.serial
  obtain ⟨above, habove, -, hdecided⟩ := hx.leaves_open (m := m) hid
  refine ⟨above, habove, ?_⟩
  rw [hp]
  cases h : decide m c x e₁ with
  | error i e₂ =>
    rw [h] at hdecided
    rw [Proc.bind_error h]
    exact .inl hdecided
  | ok b e₂ =>
    rw [h] at hdecided
    rw [Proc.bind_ok h]
    rw [← hc]
    have hbegun := hf b e₂
    rw [show e₂.context.conditionals = above ++ e.context.conditionals from hdecided] at hbegun
    exact hbegun

theorem startsOn_conditional (hm : m.Sound) (name : String) (condition : Condition) (negated : Bool) (e : Engine) :
    StartsOn (startConditional m name condition negated) e := by
  let c : Conditional := { id := e.serial, place := e.locator, name, negated }
  have hbegins : ∀ value, Begins c.id (startBranch m { c with value := value != negated }) :=
    fun _ => begins_startBranch hnext rfl
  exact startsOn_decide (meets_evaluate hm condition) rfl hbegins rfl

theorem startsOn_switch (hm : m.Sound) (name : String) (e : Engine) : StartsOn (startSwitch m name) e := by
  let c : Conditional := { id := e.serial, place := e.locator, name, isSwitch := true }
  have hbegins : ∀ branch, Begins c.id (selectCase m { c with branch, value := true }) :=
    fun _ => begins_selectCase hnext rfl
  exact startsOn_decide hm.number rfl hbegins rfl

end Starts

/-! ## Histories -/

/-- What happens to the conditionals whose conditions have been decided. -/
inductive Happening where
  /-- A branch of a conditional begins. -/
  | begun (k : Conditional)
  /-- The branch of a conditional ends. -/
  | ended (k : Conditional)
  /-- A token is executed while these conditionals are open. -/
  | executed (ks : List Conditional)
  /-- The run is at its end. -/
  | dropped

namespace Happening

/-- The conditionals which are open afterwards, if this can happen while the given ones are open. Only the branch on top can
end. -/
def after (ks : List Conditional) : Happening → Option (List Conditional)
  | begun k => some (k :: ks)
  | ended k => if ks.head? = some k then some ks.tail else none
  | executed ks' => if ks' = ks then some ks else none
  | dropped => some []

/-- The conditional of which a branch begins. -/
def begun? : Happening → Option Conditional
  | begun k => some k
  | _ => none

/-- The conditionals in which a token is executed. -/
def executed? : Happening → Option (List Conditional)
  | executed ks => some ks
  | _ => none

end Happening

/-- The conditionals which are open after a history, if it is possible. -/
def replay (ks : List Conditional) (hs : List Happening) : Option (List Conditional) := hs.foldlM Happening.after ks

/-- Each conditional was started later than all those below it. -/
def InOrder (ks : List Conditional) : Prop := ks.Pairwise fun a b => b.id < a.id

/-- In this history no branch begins while a conditional is open which was started later than its own. -/
def Orderly (ks : List Conditional) (hs : List Happening) : Prop :=
  ∀ hs₁ k hs₂ js, hs = hs₁ ++ .begun k :: hs₂ → replay ks hs₁ = some js → ∀ j ∈ js, j.id < k.id

section Replay

variable {ks js : List Conditional} {h : Happening} {hs hs' : List Happening}

theorem replay_append (h : replay ks hs = some js) (hs' : List Happening) : replay ks (hs ++ hs') = replay js hs' := by
  unfold replay at h ⊢
  rw [List.foldlM_append, h]
  rfl

theorem replay_cons : replay ks (h :: hs) = (h.after ks).bind (replay · hs) := List.foldlM_cons

theorem orderly_nil (ks : List Conditional) : Orderly ks [] := by
  intro hs₁ k hs₂ js heq
  cases hs₁ <;> cases heq

theorem orderly_cons : Orderly ks (h :: hs) ↔
    (∀ k, h = .begun k → ∀ j ∈ ks, j.id < k.id) ∧ ∀ js, h.after ks = some js → Orderly js hs := by
  constructor
  · intro horderly
    refine ⟨fun k hk => horderly [] k hs ks (by rw [hk]; rfl) rfl, fun js hafter hs₁ k hs₂ js' heq hreplay => ?_⟩
    refine horderly (h :: hs₁) k hs₂ js' (by rw [heq]; rfl) ?_
    rw [replay_cons, hafter]
    exact hreplay
  · rintro ⟨hfirst, hrest⟩ hs₁ k hs₂ js heq hreplay
    cases hs₁ with
    | nil =>
      obtain ⟨rfl, rfl⟩ := List.cons.inj heq
      obtain rfl := Option.some.inj hreplay
      exact hfirst k rfl
    | cons h' hs₁ =>
      obtain ⟨rfl, rfl⟩ := List.cons.inj heq
      rw [replay_cons] at hreplay
      obtain ⟨ks₁, hafter, hreplay⟩ := Option.bind_eq_some_iff.1 hreplay
      exact hrest ks₁ hafter hs₁ k hs₂ js rfl hreplay

theorem Happening.after_inOrder (hks : InOrder ks) (horderly : Orderly ks (h :: hs)) (hafter : h.after ks = some js) :
    InOrder js := by
  cases h with
  | begun k =>
    obtain rfl := Option.some.inj hafter
    exact List.pairwise_cons.2 ⟨(orderly_cons.1 horderly).1 k rfl, hks⟩
  | ended k =>
    simp only [after, Option.ite_none_right_eq_some, Option.some.injEq] at hafter
    obtain ⟨-, rfl⟩ := hafter
    exact hks.tail
  | executed ks' =>
    simp only [after, Option.ite_none_right_eq_some, Option.some.injEq] at hafter
    obtain ⟨-, rfl⟩ := hafter
    exact hks
  | dropped =>
    obtain rfl := Option.some.inj hafter
    exact .nil

theorem Orderly.inOrder (horderly : Orderly ks hs) (hks : InOrder ks) (hreplay : replay ks hs = some js) : InOrder js := by
  induction hs generalizing ks with
  | nil =>
    obtain rfl := Option.some.inj hreplay
    exact hks
  | cons h hs ih =>
    rw [replay_cons] at hreplay
    obtain ⟨ks₁, hafter, hrest⟩ := Option.bind_eq_some_iff.1 hreplay
    exact ih ((orderly_cons.1 horderly).2 ks₁ hafter) (h.after_inOrder hks horderly hafter) hrest

theorem replay_split (h : replay ks (hs ++ hs') = some js) : ∃ ks₁, replay ks hs = some ks₁ ∧ replay ks₁ hs' = some js := by
  unfold replay at h ⊢
  rw [List.foldlM_append] at h
  exact Option.bind_eq_some_iff.1 h

theorem Orderly.init (horderly : Orderly ks (hs ++ hs')) : Orderly ks hs := by
  rintro hs₁ k hs₂ js rfl
  exact horderly hs₁ k (hs₂ ++ hs') js (by simp)

/-- In an orderly history the branch which ends is that of the conditional which was started last among those which are
open. -/
theorem Orderly.ended {k : Conditional} (horderly : Orderly ks (hs ++ .ended k :: hs')) (hks : InOrder ks)
    (hreplay : replay ks (hs ++ .ended k :: hs') = some js) :
    ∃ below, replay ks hs = some (k :: below) ∧ ∀ j ∈ below, j.id < k.id := by
  obtain ⟨ks₁, hbefore, hrest⟩ := replay_split hreplay
  have horder : InOrder ks₁ := horderly.init.inOrder hks hbefore
  rw [replay_cons] at hrest
  obtain ⟨ks₂, hended, -⟩ := Option.bind_eq_some_iff.1 hrest
  simp only [Happening.after, Option.ite_none_right_eq_some] at hended
  obtain ⟨below, rfl⟩ := List.head?_eq_some_iff.1 hended.1
  exact ⟨below, hbefore, (List.pairwise_cons.1 horder).1⟩

end Replay

/-! ## Courses -/

/-- The conditionals in which a token is executed. -/
def TraceEntry.stack? : TraceEntry → Option (List Conditional)
  | dispatched _ ks => some ks
  | _ => none

namespace Engine

def decided (e : Engine) : List Conditional := e.context.conditionals.filter fun k => !k.evaluating

/-- The conditionals in which tokens have been executed, the last ones first. -/
def executedIn (e : Engine) : List (List Conditional) := e.trace.filterMap TraceEntry.stack?

theorem Settled.decided_eq {e : Engine} (h : e.Settled) : e.decided = e.context.conditionals :=
  List.filter_eq_self.2 fun k hk => by rw [h k hk]; rfl

end Engine

/-- The history leads from one state to the other. Branches begin of conditionals which are started in between, at most one
of each, and tokens are executed where it says so. -/
structure Recounts (hs : List Happening) (e e' : Engine) : Prop where
  serial : e.serial ≤ e'.serial
  decided : replay e.decided hs = some e'.decided
  started : ∀ k ∈ hs.filterMap Happening.begun?, e.serial ≤ k.id ∧ k.id < e'.serial
  once : (hs.filterMap Happening.begun?).Pairwise fun a b => a.id ≠ b.id
  executedIn : e'.executedIn = (hs.filterMap Happening.executed?).reverse ++ e.executedIn

namespace Recounts

variable {e e₁ e' : Engine} {hs hs' : List Happening}

theorem nothing (hserial : e.serial ≤ e'.serial) (hdecided : e'.decided = e.decided) (hexecuted : e'.executedIn = e.executedIn) :
    Recounts [] e e' :=
  ⟨hserial, congrArg some hdecided.symm, by simp, .nil, hexecuted⟩

theorem trans (h : Recounts hs e e₁) (h' : Recounts hs' e₁ e') : Recounts (hs ++ hs') e e' where
  serial := h.serial.trans h'.serial
  decided := (replay_append h.decided hs').trans h'.decided
  started k hk := by
    rw [List.filterMap_append, List.mem_append] at hk
    rcases hk with hk | hk
    · exact ⟨(h.started k hk).1, Nat.lt_of_lt_of_le (h.started k hk).2 h'.serial⟩
    · exact ⟨h.serial.trans (h'.started k hk).1, (h'.started k hk).2⟩
  once := by
    rw [List.filterMap_append, List.pairwise_append]
    refine ⟨h.once, h'.once, fun a ha b hb => ?_⟩
    exact Nat.ne_of_lt (Nat.lt_of_lt_of_le (h.started a ha).2 (h'.started b hb).1)
  executedIn := by
    rw [h'.executedIn, h.executedIn, List.filterMap_append, List.reverse_append, List.append_assoc]

/-- A branch begins of the conditional which was started first. -/
theorem begun {k : Conditional} (h : Recounts hs { e with serial := e.serial + 1 } e₁) (hid : k.id = e.serial)
    (hk : k.evaluating = false) : Recounts (hs ++ [.begun k]) e (e₁.modifyContext (·.pushConditional k)) where
  serial := Nat.le_of_succ_le h.serial
  decided := by
    have hpushed : (e₁.modifyContext (·.pushConditional k)).decided = k :: e₁.decided :=
      List.filter_cons_of_pos (by rw [hk]; rfl)
    rw [hpushed]
    exact replay_append h.decided [.begun k]
  started j hj := by
    rw [List.filterMap_append, List.mem_append] at hj
    rcases hj with hj | hj
    · exact ⟨Nat.le_of_succ_le (h.started j hj).1, (h.started j hj).2⟩
    · obtain rfl := List.mem_singleton.1 hj
      exact ⟨hid.ge, hid ▸ h.serial⟩
  once := by
    rw [List.filterMap_append, List.pairwise_append]
    refine ⟨h.once, List.pairwise_singleton _ _, fun a ha b hb => ?_⟩
    obtain rfl := List.mem_singleton.1 hb
    rw [hid]
    exact Nat.ne_of_gt (h.started a ha).1
  executedIn := by
    rw [List.filterMap_append]
    exact h.executedIn.trans (by simp [Happening.executed?]; rfl)

end Recounts

/-- Some history leads from one state to the other. -/
def Engine.Recounted (e e' : Engine) : Prop := ∃ hs, Recounts hs e e'

namespace Engine.Recounted

variable {e e₁ e' : Engine}

theorem trans (h : e.Recounted e₁) (h' : e₁.Recounted e') : e.Recounted e' := by
  obtain ⟨hs, hs⟩ := h
  obtain ⟨hs', hs'⟩ := h'
  exact ⟨_, hs.trans hs'⟩

theorem of_eq (hserial : e'.serial = e.serial) (hconditionals : e'.context.conditionals = e.context.conditionals)
    (htrace : e'.executedIn = e.executedIn) : e.Recounted e' :=
  ⟨[], .nothing hserial.ge (by rw [decided, decided, hconditionals]) htrace⟩

end Engine.Recounted

section Courses

variable {strict : Prop} {l : Level} {o : Option Stop} {e e' : Engine}

theorem ScanStep.recounted (h : ScanStep strict e e') : e.Recounted e' := by
  have hexecuted : e'.executedIn = e.executedIn := congrArg (List.filterMap _) h.trace_eq
  cases h with
  | freshId => exact ⟨[], .nothing (Nat.le_succ e.serial) rfl rfl⟩
  | @endBranch k ks hstack hk =>
    refine ⟨[.ended k], Nat.le_refl _, ?_, nofun, .nil, rfl⟩
    simp [replay, Happening.after, Engine.decided, hstack, hk, Engine.modifyContext, Context.popConditional]
  | pushText text source =>
    obtain ⟨input, heq⟩ := e.pushText_eq text source
    rw [heq]
    exact .of_eq rfl rfl rfl
  | lockMagnification h => exact .of_eq rfl (Context.setMagnification_conditionals h) hexecuted
  | setInteraction mode => exact .of_eq rfl (e.context.regroups_setInteraction mode true).conditionals hexecuted
  | defineRelax => exact .of_eq rfl (e.context.regroups_setMeaning _ _ false).conditionals hexecuted
  | _ => exact .of_eq rfl rfl hexecuted

theorem Notes.executedIn {new : List TraceEntry} (h : Notes strict e new) :
    new.filterMap TraceEntry.stack? = [] ∨ new.filterMap TraceEntry.stack? = [e.context.conditionals] := by
  cases h with
  | dispatched | gathered => exact .inr rfl
  | _ => exact .inl rfl

theorem WorkStep.recounted (h : WorkStep strict e e') (he : e.Settled) : e.Recounted e' := by
  obtain ⟨new, hnotes, htrace⟩ := h.notes
  have hdecided : e'.decided = e.decided := by rw [Engine.decided, Engine.decided, h.conditionals_eq]
  have hexecuted : e'.executedIn = new.filterMap TraceEntry.stack? ++ e.executedIn := by
    rw [Engine.executedIn, htrace, List.filterMap_append]
    rfl
  rcases hnotes.executedIn with hnew | hnew
  · rw [hnew] at hexecuted
    exact ⟨[], .nothing h.serial_le hdecided hexecuted⟩
  · rw [hnew] at hexecuted
    refine ⟨[.executed e.context.conditionals], h.serial_le, ?_, nofun, .nil, hexecuted⟩
    simp [replay, Happening.after, hdecided, he.decided_eq]

/-- **Whatever the engine does, its history can be told.** -/
theorem Course.recounted (h : Course strict l o e e') (he : l = .working → e.Settled) : e.Recounted e' := by
  induction h with
  | refl e => exact .of_eq rfl rfl rfl
  | scan _ hstep ih => exact (ih he).trans hstep.recounted
  | work hl h hstep ih => exact (ih he).trans (hstep.recounted (h.sheltered.settled (he hl)))
  | exhausted _ ih => exact ih he
  | stop _ _ ih | restore _ _ ih | refuse _ _ _ ih | exceed _ _ _ _ ih | consult _ _ _ _ ih | answer _ _ _ ih
  | dismiss _ _ _ _ ih | say _ _ _ ih | consent _ ih | decline _ _ ih => exact (ih he).trans (.of_eq rfl rfl rfl)
  | @forgive l e e₁ e₂ d line script n h _ _ _ _ _ ih ih' =>
    have hheard : e.Recounted (e₁.hear (.delete n) script) := (ih he).trans (.of_eq rfl rfl rfl)
    have hdeleted := hheard.trans (ih' fun hl => h.sheltered.settled (he hl))
    exact hdeleted.trans (.of_eq rfl rfl rfl)
  | @decide l o e e₁ e₂ c _ hc hinner ih ih' =>
    -- the conditional is on the stack meanwhile, but it has not been decided
    let c' : Conditional := { c with evaluating := true }
    have hasked : (e₁.modifyContext (·.pushConditional c')).decided = e₁.decided := List.filter_cons_of_neg (by simp [c'])
    obtain ⟨begun, hstack, hbegun⟩ := hinner.sheltered.above (k := c') rfl rfl
    have hothers : ∀ a ∈ begun, a.id ≠ c.id := fun a ha => Nat.ne_of_gt (Nat.lt_of_lt_of_le hc (hbegun a ha).2)
    have hdropped : (e₂.modifyContext (·.dropConditional c.id)).decided = e₂.decided := by
      have hrest : dropConditional c.id e₂.context.conditionals = begun ++ e₁.context.conditionals := by
        rw [hstack]
        exact dropConditional_append hothers rfl
      show (dropConditional c.id e₂.context.conditionals).filter _ = e₂.context.conditionals.filter _
      rw [hrest, hstack]
      simp
    have hbefore : e₁.Recounted (e₁.modifyContext (·.pushConditional c')) := ⟨[], .nothing (Nat.le_refl _) hasked rfl⟩
    have hafter : e₂.Recounted (e₂.modifyContext (·.dropConditional c.id)) := ⟨[], .nothing (Nat.le_refl _) hdropped rfl⟩
    exact (ih he).trans ((hbefore.trans (ih' nofun)).trans hafter)
  | @branch l e e₁ e₂ c _ hid hc _ ih ih' =>
    obtain ⟨hs, hhistory⟩ := ih' nofun
    exact (ih he).trans ⟨_, hhistory.begun hid hc⟩
  | @box l e e₁ e₂ m nodes t _ h _ _ _ ih ih' =>
    have hopened : e₁.Recounted (e₁.modifyTypesetter (·.openList m)) := .of_eq rfl rfl rfl
    have hexecuted := hopened.trans (ih' fun hl => h.sheltered.settled (he hl))
    exact ((ih he).trans hexecuted).trans (.of_eq rfl rfl rfl)

theorem Outcome.recounted {r : EStateM.Result (Interrupted Unit) Engine Unit} (h : Outcome strict e r) (he : e.Settled) :
    e.Recounted (finalState r) := by
  have hbegin : e.Recounted e.begin := .of_eq rfl rfl rfl
  have hclear : ∀ e₁ : Engine, e₁.Recounted e₁.clearInput := fun _ => .of_eq rfl rfl rfl
  cases h with
  | unprepared => exact .of_eq rfl rfl rfl
  | stopped h => exact (hbegin.trans (h.recounted fun _ => he)).trans (hclear _)
  | @unclosed s e₁ e₂ h hreport =>
    have hsettled : e₁.clearInput.Settled := h.sheltered.settled he
    have hexecuted := (hbegin.trans (h.recounted fun _ => he)).trans (hclear e₁)
    exact hexecuted.trans (hreport.recounted fun _ => hsettled)
  | @ended e₁ e₂ h hreport =>
    have hsettled : e₁.clearInput.Settled := h.sheltered.settled he
    have hexecuted := (hbegin.trans (h.recounted fun _ => he)).trans (hclear e₁)
    have hconcluded : e₂.Recounted e₂.conclude := ⟨[.dropped], Nat.le_refl _, rfl, nofun, .nil, rfl⟩
    exact (hexecuted.trans (hreport.recounted fun _ => hsettled)).trans hconcluded

end Courses

/-! ## The main statement -/

/-- **An end mark is for the conditional whose branch has begun last.** An end mark which is executed ends the branch of the
conditional on top of the stack, or no branch. A conditional comes to lie above all conditionals which its condition has
started and left open, as if it had been started after them. Where its branch is not selected, the first end mark which
belongs to no conditional after it is for this conditional, even if its condition has left another one open. Nothing else
happens to conditionals in a run, and if no branch begins while a conditional is open which was started later, then the
branch which ends is always that of the conditional which was started last among those which are open. The number `n` bounds
how far the procedures are followed. -/
theorem marks_end_last_branch (n : Nat) :
    (∀ t mark e, (finalState (endBranch (machine n) t mark e)).context.conditionals =
      mark.leave e.context.conditionals) ∧
    (∀ name e, (∀ condition negated, StartsOn (startConditional (machine n) name condition negated) e) ∧
      StartsOn (startSwitch (machine n) name) e) ∧
    (∀ (e : Engine) (k : Conditional) (mark : EndMark) (t : MarkToken e.context mark) ts rest, k.value = false →
      mark ≠ .orMark → Carries e.context false ts 0 0 → e.input.Delivers e.context.lexicon (ts ++ [t.token]) rest →
      Runs (startBranch · k) e () (e.reading rest
        (if mark = .elseMark then k :: e.context.conditionals else e.context.conditionals) e.serial)) ∧
    (∀ e : Engine, e.Settled → ∃ hs, Recounts hs e (finalState (run (machine n) e))) ∧
    ∀ hs e e', Recounts hs e e' → InOrder e.decided → Orderly e.decided hs →
      ∀ hs₁ k hs₂, hs = hs₁ ++ .ended k :: hs₂ →
        ∃ below, replay e.decided hs₁ = some (k :: below) ∧ ∀ j ∈ below, j.id < k.id := by
  have hnext := neutral_next n
  have hm := machine_sound n
  refine ⟨endBranch_conditionals hnext, fun name e => ⟨?_, ?_⟩, ?_, fun e he => ?_, ?_⟩
  · exact fun condition negated => startsOn_conditional hnext hm name condition negated e
  · exact startsOn_switch hnext hm name e
  · exact fun e k mark t ts rest hvalue hmark hcarries hinput => startBranch_skips hvalue hcarries t hmark hinput
  · have houtcome : Outcome False e (run (machine n) e) := run_outcome n False.elim
    exact houtcome.recounted he
  · rintro hs e e' hhistory hinOrder horderly hs₁ k hs₂ rfl
    exact horderly.ended hinOrder hhistory.decided

/-- A condition which does not hold has left another conditional open. The end mark ends what is skipped, and the other
conditional stays open. In another history a branch begins and ends above this conditional. -/
theorem marks_end_last_branch_skipped :
    let inner : Conditional := { id := 1, value := true }
    let outer : Conditional := { id := 0 }
    let third : Conditional := { id := 2 }
    let ts : List Token := [.letter 'x']
    let fi : Token := .controlSequence "fi" ""
    let e : Engine :=
      { context := { Passage.sampleContext with conditionals := [inner] }, input := Input.pushTokens [] (ts ++ [fi])
        serial := 2 }
    Runs (startBranch · outer) e () (e.reading [] [inner] 2) ∧ (∃ hs, Recounts hs e (finalState (run (machine 9) e))) ∧
      ∃ below, replay e.decided [.begun third] = some (third :: below) ∧ ∀ j ∈ below, j.id < third.id := by
  intro inner outer third ts fi e
  obtain ⟨-, -, hskip, hhistory, hended⟩ := marks_end_last_branch 9
  have hsettled : e.Settled := fun k hk => List.mem_singleton.1 hk ▸ rfl
  have hcarries : Carries e.context false ts 0 0 := carries_text (by decide)
  let mark : MarkToken e.context .fiMark := ⟨fi, 1, "fi", by decide⟩
  have hrecounts : Recounts [.begun third, .ended third] e { e with serial := 3 } :=
    ⟨by decide, by decide, by decide, by decide, rfl⟩
  have horderly : Orderly e.decided [.begun third, .ended third] := by
    refine orderly_cons.2 ⟨?_, fun js _ => orderly_cons.2 ⟨nofun, fun js _ => orderly_nil js⟩⟩
    rintro k hk
    cases hk
    decide
  have hinOrder : InOrder e.decided := List.pairwise_singleton _ inner
  exact ⟨hskip e outer .fiMark mark ts [] rfl (by decide) hcarries (Input.delivers_pushTokens [] (ts ++ [fi])),
    hhistory e hsettled, hended _ e _ hrecounts hinOrder horderly [.begun third] third [] rfl⟩

/-- A condition starts a conditional and leaves it open. Where the condition holds, the mark which is to end a branch of the
inner conditional meets the outer one, which was started before, and is reported. Where it does not hold, the end mark of the
inner conditional ends what is skipped. -/
theorem marks_end_outer_branch :
    let declared := Declaration.builtin.filter fun d => d.name ∈ ["ifnum", "ifcase", "iftrue", "or", "fi"]
    let e : Engine := ((Engine.new default {}).install declared).toOption.getD default
    let e₁ := finalState (runText (machine 20) "\\ifnum 1<\\ifcase0 2 a\\or b\\fi c\\fi" "" e)
    let e₂ := finalState (runText (machine 20) "\\ifnum 3<\\iftrue 2 x\\fi y\\fi z" "" e)
    e₁.trace.findSome? (fun | .consulted d => some d.kind | _ => none) = some .extraOr ∧ e₁.errorCount = 1 ∧
      Node.textOf e₂.typesetter.main = "yz" ∧ e₂.errorCount = 0 := by
  decide +kernel

end Compositor
