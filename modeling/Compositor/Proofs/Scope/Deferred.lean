import Compositor.Proofs.Engine.Runs
import Mathlib.Data.List.Basic

/-!
# What is deferred to the end of a group

Tokens and callbacks are deferred to the end of the innermost group. When the group is closed, its callbacks are called and
its tokens are pushed to the input. The group is gone by then, so what the callbacks defer belongs to the group around it.
Groups of the same depth come and go, and to close a group as one of another kind is refused.

* `Proceedings` follows a program of calls on a context step by step, together with the calls which callbacks make;
* `deferredAt` goes back through the history and finds what has been deferred to the end of an open group, `due` is what
  has to be done at its end;
* `Proceedings.Sound` is what all steps keep: the open groups hold what has been deferred to them, and every closed group
  causes what is due, once and in order;
* `deferred_actions_run_once` is the main statement.
-/

namespace Compositor

/-! ## Proceedings -/

/-- What a caller asks of a context about its groups. -/
inductive GroupCall where
  | openGroup (kind : GroupKind) (place : Locator)
  | closeGroup (kind : GroupKind)
  | deferToken (t : Token)
  | deferCall (label : String)
deriving DecidableEq, Repr

/-- What is done at the end of a group. -/
inductive GroupAction where
  | callBack (label : String)
  | push (ts : List Token)
deriving DecidableEq, Repr

/-- What is still to be done: the calls of a caller, and the actions at the end of a closed group, with its number. -/
inductive GroupTask where
  | call (c : GroupCall)
  | act (closing : Nat) (a : GroupAction)
deriving DecidableEq, Repr

/-- What has happened. -/
inductive GroupEvent where
  | opened
  | closed
  | refused (fault : GroupFault)
  | deferred (a : AfterGroup)
  | acted (closing : Nat) (a : GroupAction)
deriving DecidableEq, Repr

def Notice.label? : Notice → Option String
  | .afterGroup label _ => some label
  | _ => none

/-- The callbacks which have been called between two contexts, in their order. -/
def Context.calledBack (c c' : Context) : List String :=
  (c'.notices.take (c'.notices.length - c.notices.length)).reverse.filterMap Notice.label?

/-- Tokens are pushed together, if there are any. -/
def GroupAction.pushAll (ts : List Token) : List GroupAction := if ts.isEmpty then [] else [push ts]

/-- A context, what is still to be done with it, and what has happened, the latest first. -/
structure Proceedings where
  context : Context
  tasks : List GroupTask
  history : List GroupEvent := []

namespace Proceedings

def begin (c : Context) (program : List GroupCall) : Proceedings := ⟨c, program.map .call, []⟩

/-- The proceedings after a call. The number of a closed group is the number of events before. -/
def answer (p : Proceedings) : GroupCall → Proceedings
  | .openGroup kind place =>
    { p with context := p.context.openGroup kind place, history := .opened :: p.history }
  | .closeGroup kind =>
    match p.context.closeGroup kind with
    | .error fault => { p with history := .refused fault :: p.history }
    | .ok closed =>
      let actions := (p.context.calledBack closed.2).map .callBack ++ GroupAction.pushAll closed.1
      ⟨closed.2, actions.map (.act p.history.length) ++ p.tasks, .closed :: p.history⟩
  | .deferToken t =>
    { p with context := p.context.afterGroupToken t, history := .deferred (.token t) :: p.history }
  | .deferCall label =>
    { p with context := p.context.afterGroupNotice label, history := .deferred (.notice label) :: p.history }

/-- The proceedings after the next task. A callback makes calls of its own before anything else is done. -/
def step (reacts : String → List GroupCall) (p : Proceedings) : Proceedings :=
  match p.tasks with
  | [] => p
  | .call c :: rest => { p with tasks := rest }.answer c
  | .act closing (.callBack label) :: rest =>
    { p with tasks := (reacts label).map .call ++ rest, history := .acted closing (.callBack label) :: p.history }
  | .act closing (.push ts) :: rest =>
    { p with tasks := rest, history := .acted closing (.push ts) :: p.history }

/-- The proceedings after a number of tasks. -/
def steps (reacts : String → List GroupCall) (p : Proceedings) : Nat → Proceedings
  | 0 => p
  | n + 1 => (p.steps reacts n).step reacts

end Proceedings

/-! ## What is due -/

def AfterGroup.label? : AfterGroup → Option String
  | notice label => some label
  | _ => none

/-- What has been deferred to the end of an open group. There are `k` groups within it, and `base` is what has been
deferred to the groups before anything happened. -/
def deferredAt (base : List (List AfterGroup)) : Nat → List GroupEvent → List AfterGroup
  | k, [] => base[k]?.getD []
  | 0, .opened :: _ => []
  | k + 1, .opened :: earlier => deferredAt base k earlier
  | k, .closed :: earlier => deferredAt base (k + 1) earlier
  | 0, .deferred a :: earlier => deferredAt base 0 earlier ++ [a]
  | k + 1, .deferred _ :: earlier => deferredAt base (k + 1) earlier
  | k, .refused _ :: earlier | k, .acted _ _ :: earlier => deferredAt base k earlier

/-- What has to be done at the end of a group: callbacks are called, then tokens are pushed, both in the order in which they
have been deferred. -/
def due (own : List AfterGroup) : List GroupAction :=
  (own.filterMap AfterGroup.label?).map .callBack ++ GroupAction.pushAll (Context.deferredTokens own)

/-- What has to be done at the end of the group with this number. -/
def dueAt (base : List (List AfterGroup)) (closing : Nat) : List GroupEvent → List GroupAction
  | [] => []
  | .closed :: earlier =>
    if earlier.length = closing then due (deferredAt base 0 earlier) else dueAt base closing earlier
  | _ :: earlier => dueAt base closing earlier

/-- The event is an action at the end of the group with this number. -/
def GroupEvent.action? (closing : Nat) : GroupEvent → Option GroupAction
  | acted number a => if number = closing then some a else none
  | _ => none

/-- The task is an action at the end of the group with this number. -/
def GroupTask.action? (closing : Nat) : GroupTask → Option GroupAction
  | act number a => if number = closing then some a else none
  | _ => none

/-- What has been done at the end of the group with this number. -/
def actedIn (closing : Nat) (history : List GroupEvent) : List GroupAction :=
  (history.filterMap (GroupEvent.action? closing)).reverse

/-- What is still to be done at the end of the group with this number. -/
def pendingIn (closing : Nat) (tasks : List GroupTask) : List GroupAction := tasks.filterMap (GroupTask.action? closing)

section Due

variable {base : List (List AfterGroup)} {closing : Nat} {earlier later history : List GroupEvent} {a : GroupAction}

theorem dueAt_of_length_le (h : history.length ≤ closing) : dueAt base closing history = [] := by
  induction history with
  | nil => rfl
  | cons event earlier ih =>
    rw [List.length_cons] at h
    have hearlier := ih (by omega)
    cases event with
    | closed => rw [dueAt, if_neg (by omega), hearlier]
    | _ => exact hearlier

theorem dueAt_append (h : closing < earlier.length) : dueAt base closing (later ++ earlier) = dueAt base closing earlier := by
  induction later with
  | nil => rfl
  | cons event later ih =>
    cases event with
    | closed =>
      have hne : (later ++ earlier).length ≠ closing := by
        rw [List.length_append]
        omega
      rw [List.cons_append, dueAt, if_neg hne, ih]
    | _ => exact ih

/-- What is due at the end of a group is what had been deferred to it when it was closed. -/
theorem dueAt_closed : dueAt base earlier.length (later ++ .closed :: earlier) = due (deferredAt base 0 earlier) := by
  rw [dueAt_append (by simp), dueAt, if_pos rfl]

/-- Nothing is due but at the end of a group. -/
theorem exists_closed_of_mem_dueAt (h : a ∈ dueAt base closing history) :
    ∃ later earlier, history = later ++ .closed :: earlier ∧ earlier.length = closing ∧ a ∈ due (deferredAt base 0 earlier) := by
  induction history with
  | nil => cases h
  | cons event earlier ih =>
    have hrest : a ∈ dueAt base closing earlier → ∃ later earlier', event :: earlier = later ++ .closed :: earlier' ∧
        earlier'.length = closing ∧ a ∈ due (deferredAt base 0 earlier') := by
      intro h
      obtain ⟨later, earlier', rfl, hlength, hmem⟩ := ih h
      exact ⟨event :: later, earlier', rfl, hlength, hmem⟩
    cases event with
    | closed =>
      rw [dueAt] at h
      split at h
      · next hlength => exact ⟨[], earlier, rfl, hlength, h⟩
      · exact hrest h
    | _ => exact hrest h

theorem pendingIn_calls (program : List GroupCall) : pendingIn closing (program.map .call) = [] := by
  simp [pendingIn, GroupTask.action?]

theorem pendingIn_append (tasks rest : List GroupTask) :
    pendingIn closing (tasks ++ rest) = pendingIn closing tasks ++ pendingIn closing rest := List.filterMap_append

theorem pendingIn_acts (actions : List GroupAction) : pendingIn closing (actions.map (.act closing)) = actions := by
  simp [pendingIn, List.filterMap_map, Function.comp_def, GroupTask.action?]

theorem pendingIn_acts_of_ne {number : Nat} (h : number ≠ closing) (actions : List GroupAction) :
    pendingIn closing (actions.map (.act number)) = [] := by
  simp [pendingIn, GroupTask.action?, h]

end Due

/-! ## The end of a group -/

namespace Context

variable {c outside : Context} {kind : GroupKind} {ts : List Token}

theorem calledBack_of_append {new : List Notice} (h : outside.notices = new ++ c.notices) :
    c.calledBack outside = new.reverse.filterMap Notice.label? := by
  rw [calledBack, h, List.length_append, Nat.add_sub_cancel, List.take_left]

theorem label?_deferredNotices (own : List AfterGroup) (depth : Nat) :
    (deferredNotices own depth).filterMap Notice.label? = own.filterMap AfterGroup.label? := by
  induction own with
  | nil => rfl
  | cons a own ih =>
    cases a with
    | token t => exact ih
    | notice label => exact congrArg (label :: ·) ih

/-- A group which is closed is of the right kind. Its tokens are given and its callbacks are called, and the groups around
it are what they have been. -/
theorem closeGroup_eq_ok (h : c.closeGroup kind = .ok (ts, outside)) :
    ∃ g, c.inner = g :: outside.inner ∧ g.kind = kind ∧ ts = deferredTokens g.after ∧
      c.calledBack outside = g.after.filterMap AfterGroup.label? := by
  unfold closeGroup at h
  split at h
  · cases h
  · next g rest hinner =>
    split at h
    · cases h
    · next hkind =>
      obtain ⟨rfl, rfl⟩ := Prod.mk.inj (Except.ok.inj h)
      have hmodes : ∀ mode, (List.replicate (c.watches.count .interaction) (.interaction mode)).filterMap Notice.label? = [] := by
        simp [Notice.label?]
      refine ⟨g, ?_, not_not.1 hkind, rfl, ?_⟩
      · split <;> exact hinner
      · split
        · rw [calledBack_of_append (List.append_assoc ..).symm, List.reverse_append, List.filterMap_append,
            List.reverse_reverse, label?_deferredNotices, List.reverse_replicate, hmodes, List.nil_append]
        · rw [calledBack_of_append rfl, List.reverse_reverse, label?_deferredNotices]

theorem closeGroup_eq_error (h : c.depth = 0 ∨ c.current.kind ≠ kind) :
    c.closeGroup kind = .error (if c.depth = 0 then .noGroup else .mismatch) := by
  unfold closeGroup
  cases hinner : c.inner with
  | nil => simp [depth, hinner]
  | cons g rest =>
    have hkind : g.kind ≠ kind := by simpa [depth, current, hinner] using h
    simp [depth, hinner, hkind]

theorem exists_closeGroup (hdepth : c.depth ≠ 0) (hkind : c.current.kind = kind) :
    ∃ ts outside, c.closeGroup kind = .ok (ts, outside) := by
  unfold closeGroup
  cases hinner : c.inner with
  | nil => simp [depth, hinner] at hdepth
  | cons g rest =>
    have hg : g.kind = kind := by simpa [current, hinner] using hkind
    exact ⟨_, _, if_neg (not_not.2 hg)⟩

theorem inner_afterGroupNotice (c : Context) (label : String) :
    (c.afterGroupNotice label).inner =
      c.inner.modifyHead fun g => { g with after := g.after ++ [.notice label] } := by
  unfold afterGroupNotice modifyCurrent
  split <;> next hinner => simp [hinner]

theorem inner_afterGroupToken (c : Context) (t : Token) :
    (c.afterGroupToken t).inner = c.inner.modifyHead fun g => { g with after := g.after ++ [.token t] } := by
  unfold afterGroupToken
  split <;> next hinner => simp [hinner]

theorem afterGroupToken_outermost (h : c.depth = 0) (t : Token) : c.afterGroupToken t = c := by
  rw [afterGroupToken, List.eq_nil_of_length_eq_zero h]

end Context

/-! ## What steps keep -/

namespace Proceedings

variable {reacts : String → List GroupCall} {base : List (List AfterGroup)} {p : Proceedings}

/-- The open groups hold what has been deferred to them, and at the end of each group what is due is done in order: some of
it has been done, and the rest is among the tasks. -/
structure Sound (base : List (List AfterGroup)) (p : Proceedings) : Prop where
  waiting : ∀ k g, p.context.inner[k]? = some g → g.after = deferredAt base k p.history
  actions : ∀ closing, actedIn closing p.history ++ pendingIn closing p.tasks = dueAt base closing p.history

theorem sound_begin (c : Context) (program : List GroupCall) : (begin c program).Sound (c.inner.map Group.after) where
  waiting k g hg := by
    have hinner : c.inner[k]? = some g := hg
    simp [begin, deferredAt, hinner]
  actions closing := by
    simp [begin, actedIn, dueAt, pendingIn_calls]

/-- A number which has not been given to a group. -/
theorem Sound.not_acted (hp : p.Sound base) {closing : Nat} (h : p.history.length ≤ closing) :
    actedIn closing p.history = [] ∧ pendingIn closing p.tasks = [] := by
  have hactions := hp.actions closing
  rw [dueAt_of_length_le h] at hactions
  exact List.append_eq_nil_iff.1 hactions

/-- An event which is neither an action nor the end of a group. -/
theorem Sound.cons {event : GroupEvent} {context : Context} {tasks : List GroupTask} (hp : p.Sound base)
    (hwaiting : ∀ k g, context.inner[k]? = some g → g.after = deferredAt base k (event :: p.history))
    (hpending : ∀ closing, pendingIn closing tasks = pendingIn closing p.tasks) (hclosed : event ≠ .closed)
    (hacted : ∀ closing a, event ≠ .acted closing a) : (⟨context, tasks, event :: p.history⟩ : Proceedings).Sound base where
  waiting := hwaiting
  actions closing := by
    have hkept := hp.actions closing
    cases event with
    | closed => exact absurd rfl hclosed
    | acted number a => exact absurd rfl (hacted number a)
    | _ => exact (hpending closing).symm ▸ hkept

theorem Sound.deferred (hp : p.Sound base) {c : Context} {a : AfterGroup}
    (hinner : c.inner = p.context.inner.modifyHead fun g => { g with after := g.after ++ [a] }) :
    ∀ k g, c.inner[k]? = some g → g.after = deferredAt base k (.deferred a :: p.history) := by
  intro k g hg
  rw [hinner] at hg
  cases k with
  | zero =>
    rw [List.getElem?_modifyHead_zero] at hg
    obtain ⟨g', hg', rfl⟩ := Option.map_eq_some_iff.1 hg
    rw [deferredAt, hp.waiting 0 g' hg']
  | succ k =>
    rw [List.getElem?_modifyHead_succ] at hg
    rw [deferredAt, hp.waiting (k + 1) g hg]

/-- The end of a group, which gets a new number. -/
theorem Sound.closed (hp : p.Sound base) {kind : GroupKind} {ts : List Token} {outside : Context} {rest : List GroupTask}
    (hpending : ∀ closing, pendingIn closing rest = pendingIn closing p.tasks)
    (hclose : p.context.closeGroup kind = .ok (ts, outside)) :
    (⟨outside, ((p.context.calledBack outside).map GroupAction.callBack ++ GroupAction.pushAll ts).map (.act p.history.length) ++ rest,
      .closed :: p.history⟩ : Proceedings).Sound base := by
  obtain ⟨g, hinner, -, rfl, hcalled⟩ := Context.closeGroup_eq_ok hclose
  have hown : g.after = deferredAt base 0 p.history := hp.waiting 0 g (by rw [hinner]; rfl)
  obtain ⟨hacted, hpended⟩ := hp.not_acted (Nat.le_refl p.history.length)
  refine ⟨fun k g' hg' => ?_, fun closing => ?_⟩
  · have hshifted : p.context.inner[k + 1]? = some g' := by
      rw [hinner]
      exact hg'
    rw [deferredAt, hp.waiting (k + 1) g' hshifted]
  · rw [pendingIn_append, hpending, hcalled, hown, dueAt]
    by_cases hnumber : p.history.length = closing
    · subst hnumber
      rw [pendingIn_acts, hpended, if_pos rfl, List.append_nil]
      show actedIn _ p.history ++ _ = _
      rw [hacted]
      rfl
    · rw [pendingIn_acts_of_ne hnumber, if_neg hnumber]
      exact hp.actions closing

theorem Sound.answer (hp : p.Sound base) {rest : List GroupTask}
    (hpending : ∀ closing, pendingIn closing rest = pendingIn closing p.tasks) (call : GroupCall) :
    ({ p with tasks := rest }.answer call).Sound base := by
  cases call with
  | openGroup kind place =>
    refine hp.cons (fun k g hg => ?_) hpending nofun nofun
    cases k with
    | zero =>
      obtain rfl := Option.some.inj hg
      rfl
    | succ k => exact hp.waiting k g hg
  | closeGroup kind =>
    cases hclose : p.context.closeGroup kind with
    | error fault =>
      simp only [Proceedings.answer, hclose]
      exact hp.cons (fun k g hg => hp.waiting k g hg) hpending nofun nofun
    | ok closed =>
      simp only [Proceedings.answer, hclose]
      exact hp.closed hpending hclose
  | deferToken t => exact hp.cons (hp.deferred (p.context.inner_afterGroupToken t)) hpending nofun nofun
  | deferCall label => exact hp.cons (hp.deferred (p.context.inner_afterGroupNotice label)) hpending nofun nofun

/-- The next action is the first one which is left. -/
theorem Sound.act (hp : p.Sound base) {number : Nat} {a : GroupAction} {rest tasks : List GroupTask}
    (htasks : p.tasks = .act number a :: rest) (hpending : ∀ closing, pendingIn closing tasks = pendingIn closing rest) :
    (⟨p.context, tasks, .acted number a :: p.history⟩ : Proceedings).Sound base where
  waiting k g hg := hp.waiting k g hg
  actions closing := by
    have hactions := hp.actions closing
    rw [htasks] at hactions
    rw [hpending]
    by_cases hnumber : number = closing
    · have hacted : actedIn closing (.acted number a :: p.history) = actedIn closing p.history ++ [a] := by
        simp [actedIn, GroupEvent.action?, hnumber]
      have hpended : pendingIn closing (.act number a :: rest) = a :: pendingIn closing rest := by
        simp [pendingIn, GroupTask.action?, hnumber]
      rw [hpended] at hactions
      rw [hacted, List.append_assoc]
      exact hactions
    · have hacted : actedIn closing (.acted number a :: p.history) = actedIn closing p.history := by
        simp [actedIn, GroupEvent.action?, hnumber]
      have hpended : pendingIn closing (.act number a :: rest) = pendingIn closing rest := by
        simp [pendingIn, GroupTask.action?, hnumber]
      rw [hpended] at hactions
      rw [hacted]
      exact hactions

theorem Sound.step (hp : p.Sound base) (reacts : String → List GroupCall) : (p.step reacts).Sound base := by
  unfold Proceedings.step
  split
  · exact hp
  · next call rest htasks =>
    refine hp.answer (fun closing => ?_) call
    rw [htasks]
    rfl
  · next number label rest htasks =>
    refine hp.act htasks fun closing => ?_
    rw [pendingIn_append, pendingIn_calls, List.nil_append]
  · next number ts rest htasks => exact hp.act htasks fun closing => rfl

/-- **What has been deferred waits in its group, and is done once and in order at its end.** -/
theorem Sound.steps (hp : p.Sound base) (reacts : String → List GroupCall) (n : Nat) : (p.steps reacts n).Sound base := by
  induction n with
  | zero => exact hp
  | succ n ih => exact ih.step reacts

theorem history_suffix_step (reacts : String → List GroupCall) (p : Proceedings) : p.history <:+ (p.step reacts).history := by
  unfold Proceedings.step
  split
  · exact List.suffix_rfl
  · next call rest _ =>
    cases call with
    | closeGroup kind =>
      cases hclose : p.context.closeGroup kind <;> simp only [Proceedings.answer, hclose] <;> exact List.suffix_cons _ _
    | _ => exact List.suffix_cons _ _
  · exact List.suffix_cons _ _
  · exact List.suffix_cons _ _

theorem history_suffix_steps (reacts : String → List GroupCall) (p : Proceedings) (n : Nat) :
    p.history <:+ (p.steps reacts n).history := by
  induction n with
  | zero => exact List.suffix_rfl
  | succ n ih => exact ih.trans (history_suffix_step reacts _)

theorem steps_succ (reacts : String → List GroupCall) (p : Proceedings) (n : Nat) :
    p.steps reacts (n + 1) = (p.step reacts).steps reacts n := by
  induction n with
  | zero => rfl
  | succ n ih => exact congrArg (Proceedings.step reacts) ih

/-- Actions are done one after the other, if no callback makes calls. -/
theorem steps_acts (hreacts : ∀ label, reacts label = []) {closing : Nat} {rest : List GroupTask} (actions : List GroupAction)
    (htasks : p.tasks = actions.map (.act closing) ++ rest) : (p.steps reacts actions.length).tasks = rest := by
  induction actions generalizing p with
  | nil => exact htasks
  | cons a actions ih =>
    rw [List.length_cons, steps_succ]
    refine ih ?_
    cases a with
    | callBack label => simp [Proceedings.step, htasks, hreacts]
    | push ts => simp [Proceedings.step, htasks]

variable {kind : GroupKind} {rest : List GroupTask}

/-- A group is closed, and what is due at its end is done next. -/
theorem step_closeGroup {ts : List Token} {outside : Context} (htasks : p.tasks = .call (.closeGroup kind) :: rest)
    (hclose : p.context.closeGroup kind = .ok (ts, outside)) :
    p.step reacts = ⟨outside, ((p.context.calledBack outside).map GroupAction.callBack ++ GroupAction.pushAll ts).map
      (.act p.history.length) ++ rest, .closed :: p.history⟩ := by
  simp only [Proceedings.step, htasks, Proceedings.answer, hclose]

theorem step_refused {fault : GroupFault} (htasks : p.tasks = .call (.closeGroup kind) :: rest)
    (hclose : p.context.closeGroup kind = .error fault) :
    p.step reacts = { p with tasks := rest, history := .refused fault :: p.history } := by
  simp only [Proceedings.step, htasks, Proceedings.answer, hclose]

/-- When the caller goes on after the end of a group, all has been done that was due. -/
theorem Sound.returned (hp : p.Sound base) (htasks : p.tasks = .call (.closeGroup kind) :: rest) {later : List GroupEvent}
    {p' : Proceedings} (hp' : p'.Sound base) (hhistory : p'.history = later ++ .closed :: p.history) (hrest : p'.tasks = rest) :
    actedIn p.history.length p'.history = due (deferredAt base 0 p.history) := by
  have hpended : pendingIn p.history.length rest = [] := by
    have hfresh := (hp.not_acted (Nat.le_refl p.history.length)).2
    rw [htasks] at hfresh
    exact hfresh
  have hactions := hp'.actions p.history.length
  rwa [hrest, hpended, List.append_nil, hhistory, dueAt_closed, ← hhistory] at hactions

end Proceedings

/-! ## The main statement -/

/-- The engine reads the tokens of a closed group next. A group which cannot be closed is complained about, and the context
and the input are what they have been. -/
theorem closeGroup_pushes (kind : GroupKind) (e : Engine) :
    (∀ ts outside, e.context.closeGroup kind = .ok (ts, outside) →
      closeGroup kind e = .ok () ((e.leaveGroup outside).pushTokens ts)) ∧
    ∀ fault, e.context.closeGroup kind = .error fault →
      ∃ d, closeGroup kind e = .error ⟨.diagnostic d, ()⟩ (e.record (.stopped d)) := by
  refine ⟨fun ts outside hclose => ?_, fun fault hclose => ?_⟩
  · simp only [closeGroup, Proc.context_bind, hclose]
    rfl
  · simp only [closeGroup, Proc.context_bind, hclose]
    exact ⟨_, rfl⟩

open Proceedings in
/-- **What is deferred to the end of a group is done there, once and in order.** This holds for all programs of calls, from all
contexts, whatever calls the callbacks make, and at any time.

At the end of each group its callbacks are called and then its tokens are pushed, in the order in which they were deferred
while the group was the innermost one; some of this has been done, and the rest is still to be done, and nothing else is
ever done at the end of a group. When the caller goes on, all of it has been done, and the caller does go on if no callback
makes calls. A group which cannot be closed stays as it is, with the whole context, and nothing is done. A token which is
deferred to the outermost group is forgotten, and this group is never closed.

The engine reads the tokens next, or complains with its context and input as they have been. -/
theorem deferred_actions_run_once (reacts : String → List GroupCall) (c : Context) (program : List GroupCall) (n : Nat) :
    let base := c.inner.map Group.after
    let p := (begin c program).steps reacts n
    (∀ later earlier, p.history = later ++ .closed :: earlier →
      actedIn earlier.length p.history ++ pendingIn earlier.length p.tasks = due (deferredAt base 0 earlier)) ∧
    (∀ closing a, .acted closing a ∈ p.history →
      ∃ later earlier, p.history = later ++ .closed :: earlier ∧ earlier.length = closing) ∧
    (∀ kind rest, p.tasks = .call (.closeGroup kind) :: rest →
      (p.context.depth ≠ 0 → p.context.current.kind = kind →
        (p.step reacts).history = .closed :: p.history ∧ (p.step reacts).context.inner = p.context.inner.tail ∧
        (∀ m, (p.steps reacts (m + 1)).tasks = rest →
          actedIn p.history.length (p.steps reacts (m + 1)).history = due (deferredAt base 0 p.history)) ∧
        ((∀ label, reacts label = []) → ∃ m, (p.steps reacts (m + 1)).tasks = rest)) ∧
      (p.context.depth = 0 ∨ p.context.current.kind ≠ kind →
        p.step reacts = { p with
          tasks := rest, history := .refused (if p.context.depth = 0 then .noGroup else .mismatch) :: p.history })) ∧
    (∀ t, p.context.depth = 0 → p.context.afterGroupToken t = p.context) ∧
    ∀ kind e,
      (∀ ts outside, e.context.closeGroup kind = .ok (ts, outside) →
        closeGroup kind e = .ok () ((e.leaveGroup outside).pushTokens ts)) ∧
      ∀ fault, e.context.closeGroup kind = .error fault →
        ∃ d, closeGroup kind e = .error ⟨.diagnostic d, ()⟩ (e.record (.stopped d)) := by
  intro base p
  have hp : p.Sound base := (sound_begin c program).steps reacts n
  refine ⟨fun later earlier hhistory => ?_, fun closing a hacted => ?_, fun kind rest htasks => ⟨fun hdepth hkind => ?_,
    fun hrefused => step_refused htasks (Context.closeGroup_eq_error hrefused)⟩,
    fun t hdepth => Context.afterGroupToken_outermost hdepth t, closeGroup_pushes⟩
  · rw [hp.actions, hhistory, dueAt_closed]
  · have hmem : a ∈ actedIn closing p.history :=
      List.mem_reverse.2 (List.mem_filterMap.2 ⟨_, hacted, if_pos rfl⟩)
    have hdue : a ∈ dueAt base closing p.history := hp.actions closing ▸ List.mem_append_left _ hmem
    obtain ⟨later, earlier, hhistory, hlength, -⟩ := exists_closed_of_mem_dueAt hdue
    exact ⟨later, earlier, hhistory, hlength⟩
  · obtain ⟨ts, outside, hclose⟩ := Context.exists_closeGroup hdepth hkind
    obtain ⟨g, hinner, -⟩ := Context.closeGroup_eq_ok hclose
    have hstep : p.step reacts = ⟨outside, ((p.context.calledBack outside).map GroupAction.callBack ++
        GroupAction.pushAll ts).map (.act p.history.length) ++ rest, .closed :: p.history⟩ := step_closeGroup htasks hclose
    refine ⟨by rw [hstep], by rw [hstep, hinner]; rfl, fun m hreturned => ?_, fun hreacts => ?_⟩
    · obtain ⟨later, hlater⟩ := history_suffix_steps reacts (p.step reacts) m
      rw [← steps_succ, hstep] at hlater
      exact hp.returned htasks (hp.steps reacts (m + 1)) hlater.symm hreturned
    · refine ⟨((p.context.calledBack outside).map GroupAction.callBack ++ GroupAction.pushAll ts).length, ?_⟩
      rw [steps_succ]
      exact steps_acts hreacts _ (by rw [hstep])

/-- Two groups, with a token and a callback between tokens in the inner one. -/
def nestedDeferrals : List GroupCall :=
  [.openGroup .simple {}, .openGroup .semiSimple {}, .deferToken (.character .letter 'a'), .deferCall "x",
    .deferToken (.character .letter 'b'), .closeGroup .simple, .closeGroup .semiSimple, .closeGroup .simple]

/-- A callback defers a token when its own group is gone, so that the token is read at the end of the group around. -/
theorem deferred_actions_run_once_nested :
    let p := (Proceedings.begin {} nestedDeferrals).steps fun _ => [.deferToken (.character .letter 'c')]
    actedIn 6 (p 10).history = [.callBack "x", .push [.character .letter 'a', .character .letter 'b']] ∧
      actedIn 10 (p 12).history = [.push [.character .letter 'c']] := by
  intro p
  obtain ⟨-, -, hinner, -⟩ :=
    deferred_actions_run_once (fun _ => [.deferToken (.character .letter 'c')]) {} nestedDeferrals 6
  obtain ⟨-, -, houter, -⟩ :=
    deferred_actions_run_once (fun _ => [.deferToken (.character .letter 'c')]) {} nestedDeferrals 10
  obtain ⟨-, -, hacted, -⟩ := (hinner .semiSimple [.call (.closeGroup .simple)] rfl).1 (by decide) rfl
  obtain ⟨-, -, hacted', -⟩ := (houter .simple [] rfl).1 (by decide) rfl
  exact ⟨hacted 3 rfl, hacted' 1 rfl⟩

end Compositor
