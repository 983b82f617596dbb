import Compositor.Proofs.Engine.Handling
import Compositor.Proofs.Engine.Omissions
import Compositor.Proofs.Scope.Deferred

/-!
# Executing a group

The contents of a group are executed until the group is closed. Commands in it may open and close groups, make boxes from
groups of their own, and come upon the end of the input. None of them closes more than the group it is executed in.

* most commands are `Still`: they leave groups alone. The others are `Nested`: of the groups which have been open they
  close at most the innermost, and nothing happens after that (`Engine.Nests`);
* `Encloses` says what executing commands up to the end of the innermost group amounts to. `encloses_turn` is the step of
  the loop, and `machine_encloses` says so of all machines;
* `executeGroup_closes_own_group` is the statement about a single group.
-/

namespace Compositor

open Compositor.Measure

variable {α β γ : Type}

/-! ## Commands which leave groups alone -/

theorem still_stopWith (d : Diagnostic) : Still (stopWith d : Action α) := keeps_stopWith noAftermath_isMove.ignoresReports d

theorem still_complain (kind : Kind) (arguments : List Argument) : Still (complain kind arguments : Action α) :=
  keeps_complain noAftermath_isMove.ignoresReports kind arguments

section Commands

variable {m : Machine} (hm : m.Sound)

include hm

theorem still_report (d : Diagnostic) : Still (report m d) :=
  omits_report noAftermath_isMove hm.next.still fun _ => rfl

theorem still_reportHere (kind : Kind) (arguments : List Argument) : Still (reportHere m kind arguments) :=
  fun e => still_report hm { kind, place := e.locator, arguments } e

theorem still_define (modifiers : Modifiers) (globally expanded : Bool) : Still (define m modifiers globally expanded) := by
  refine (meets_controlSequence hm).lift.still.bind fun target => (meets_parameterText hm).still.bind fun p => ?_
  refine (meets_balancedText hm expanded).lift.still.bind fun text => ?_
  exact (meets_presentItems hm (parseBody p.arity text)).still.bind fun body => .modifyContext _

theorem still_assignMeaning (globally : Bool) : Still (assignMeaning m globally) := by
  refine (meets_controlSequence hm).lift.still.bind fun target => (meets_copiedToken hm).still.bind fun x => ?_
  cases x with
  | none => exact still_complain _ _
  | some t => exact Keeps.context.bind fun c => .modifyContext _

theorem still_assignRegister (kind : RegisterKind) (fixed : Option String) (globally : Bool) :
    Still (assignRegister m kind fixed globally) := by
  refine (meets_locate hm fixed).lift.still.bind fun name => (meets_optionalEquals hm).still.bind fun _ => ?_
  cases kind with
  | count => exact hm.number.lift.still.bind fun n => .modifyContext _
  | dimen => exact (meets_dimension hm).lift.still.bind fun d => .modifyContext _
  | glue => exact (meets_glueSpec hm).lift.still.bind fun g => .modifyContext _
  | toks => exact (meets_tokenList hm).still.bind fun ts => .modifyContext _

theorem still_defineRegister (kind : RegisterKind) (globally : Bool) : Still (defineRegister m kind globally) := by
  refine (meets_controlSequence hm).lift.still.bind fun target => (meets_optionalEquals hm).still.bind fun _ => ?_
  refine (meets_registerName hm).lift.still.bind fun name => ?_
  exact meets_freshId.still.bind fun id => .modifyContext _

theorem still_assignMagnification (name : String) (globally : Bool) : Still (assignMagnification m name globally) := by
  refine (meets_optionalEquals hm).still.bind fun _ => hm.number.lift.still.bind fun n => Keeps.context.bind fun c => ?_
  cases c.setMagnification n false with
  | ok c => exact .modify fun _ => rfl
  | error fault => exact (meets_reportMagnification hm fault n).still

theorem still_arithmetic (op : ArithmeticOp) (command : String) (globally : Bool) :
    Still (arithmetic m op command globally) := by
  refine (meets_nonBlank hm).lift.still.bind fun x => ?_
  cases x with
  | none => exact .pure _
  | some t =>
    refine (meets_meaningOf t).still.bind fun meaning => ?_
    cases registerOf? meaning with
    | none => exact (Keeps.pushBack t).bind fun _ => still_complain _ _
    | some register =>
      obtain ⟨kind, fixed⟩ := register
      refine (meets_locate hm fixed).lift.still.bind fun name => (meets_keyword hm "by").lift.discard.still.bind fun _ => ?_
      refine (meets_diagnosticHere .arithmeticOverflow []).still.bind fun overflow => Keeps.context.bind fun c => ?_
      cases kind with
      | count =>
        refine hm.number.lift.still.bind fun n => ?_
        cases op.apply maxInteger (c.count name) n with
        | none => exact still_stopWith overflow
        | some v => exact .modifyContext _
      | dimen =>
        refine (meets_dimenResult hm op _).still.bind fun d => ?_
        cases d with
        | none => exact still_stopWith overflow
        | some d => exact .modifyContext _
      | glue =>
        refine (meets_glueResult hm op _).still.bind fun g => ?_
        cases g with
        | none => exact still_stopWith overflow
        | some g => exact .modifyContext _
      | toks => exact still_complain _ _

theorem still_assignCharCode (table : CharTable) (globally : Bool) : Still (assignCharCode m table globally) := by
  refine (meets_charCodePoint hm).still.bind fun code => (meets_optionalEquals hm).still.bind fun _ => ?_
  refine hm.number.lift.still.bind fun v => ?_
  refine .ite ((still_complain _ _).bind fun _ => ?_) ?_ <;> cases table <;> exact .modifyContext _

theorem still_takeBox (keeps : Bool) : Still (takeBox m keeps) := by
  have hdeliver : ∀ name, Still (modify (·.deliverBox name keeps) : Action PUnit) := fun name => .modify fun _ => rfl
  refine (meets_registerName hm).lift.still.bind fun name => Keeps.context.bind fun c => ?_
  exact (hdeliver name).bind fun _ => .pure _

omit hm in
theorem still_closeList : Still closeList := by
  refine Keeps.get.bind fun e => ?_
  dsimp only
  refine (Keeps.modifyTypesetter _).bind fun _ => ?_
  cases e.typesetter.closeList.1 with
  | ok nodes => exact (Keeps.record rfl).bind fun _ => .pure nodes
  | error fault => exact (Keeps.record rfl).bind fun _ => still_complain _ _

omit hm in
theorem still_pushFile (name : String) : Still (pushFile name) := by
  refine Keeps.get.bind fun e => .ite ((still_complain _ _).bind fun _ => ?_) ?_
  all_goals
    cases e.files.find? name with
    | some file => exact .modify fun e => congrArg _ (e.pushText_trace _ _)
    | none => exact (meets_diagnosticHere _ _).still.bind fun d => still_stopWith _

omit hm in
theorem still_endDirection (command : String) (direction : Direction) : Still (endDirection command direction) := by
  refine Keeps.context.bind fun c => ?_
  cases c.directions with
  | nil => exact still_complain _ _
  | cons d outer =>
    have hend : Still (do
        modifyContext Context.popDirection
        useDirection (outer.headD .leftToRight) : Action Unit) := (Keeps.modifyContext _).bind fun _ => .modifyContext _
    exact .ite ((still_complain _ _).bind fun _ => hend) hend

theorem still_loadFont (globally : Bool) : Still (loadFont m globally) := by
  refine (meets_controlSequence hm).lift.still.bind fun target => (meets_optionalEquals hm).still.bind fun _ => ?_
  refine (meets_fileName hm).lift.still.bind fun name => (meets_fontSize hm).still.bind fun size => ?_
  have hkeep : ∀ font fonts, Still (modify (·.keepFont target name font fonts globally) : Action PUnit) :=
    fun font fonts => .modify fun _ => rfl
  refine Keeps.get.bind fun e => ?_
  dsimp only
  refine (hkeep _ _).bind fun _ => ?_
  cases (e.fonts.request name size).1.fault with
  | none => exact .pure _
  | some fault => exact (meets_diagnosticHere _ _).still.bind fun d => still_stopWith _

theorem still_addGlue (vertical : Bool) : Still (addGlue m vertical) := by
  refine (meets_glueSpec hm).lift.still.bind fun g => Keeps.get.bind fun e => ?_
  exact .ite ((Keeps.modifyTypesetter _).bind fun _ => .modifyTypesetter _) (.modifyTypesetter _)

theorem still_setCharacter : Still (setCharacter m) := by
  have hset : ∀ n : Int64, Still (do
      let style := (← context).style
      modifyTypesetter (·.add style n.toInt.toNat) : Action Unit) := fun n => Keeps.context.bind fun c => .modifyTypesetter _
  exact hm.number.lift.still.bind fun n => .ite ((still_complain _ _).bind fun _ => hset n) (hset n)

theorem still_readFile : Still (readFile m) := by
  refine (meets_fileName hm).lift.still.bind fun name => ?_
  exact .ite ((still_complain _ _).bind fun _ => still_pushFile name) (still_pushFile name)

omit hm in
theorem still_complainUndefined (t : Token) : Still (complainUndefined t) :=
  (meets_diagnosticHere _ _).still.bind fun _ => Keeps.get.bind fun _ => still_stopWith _

omit hm in
theorem still_setLetter (t : Token) : Still (setLetter t) := by
  refine Keeps.context.bind fun c => (Keeps.modifyTypesetter _).bind fun _ => ?_
  exact .ite (.modify fun _ => rfl) (.pure ())

omit hm in
theorem still_requestMath (display : Bool) : Still (requestMath display) := by
  refine Keeps.get.bind fun e => ?_
  exact (Keeps.modifyTypesetter _).bind fun _ => (Keeps.record rfl).bind fun _ => .pure _

omit hm in
theorem still_toggleMath (display : Bool) : Still (toggleMath display) := by
  refine (still_requestMath display).bind fun fault => ?_
  split
  · exact .pure ()
  · exact still_complain _ _
  · exact (meets_diagnosticHere _ _).still.bind fun _ => still_stopWith _

theorem still_mathShift : Still (mathShift m) := by
  have hsecond : Still (secondMathShift m) := (meets_secondMathShift hm).still
  refine Keeps.get.bind fun e => ?_
  cases e.typesetter.mode with
  | math | restrictedHorizontal => exact still_toggleMath false
  | displayMath =>
    refine hsecond.bind fun second => .ite ?_ (still_toggleMath true)
    exact (still_requestMath true).discard.bind fun _ => still_complain _ _
  | vertical | internalVertical | horizontal | unnamed => exact hsecond.bind fun second => still_toggleMath _

end Commands

/-! ## Groups which stay open -/

namespace Engine

/-- All groups which were open are still open. -/
def Within (e e' : Engine) : Prop := ∃ new, e'.moves = new ++ e.moves ∧ StaysOpen new

/-- The innermost group has been closed at the end, and with it all groups which were opened in the meantime. Those around
it have never been closed. -/
def Leaves (e e' : Engine) : Prop := ∃ inside, e'.moves = .groupClosed :: (inside ++ e.moves) ∧ GroupsBalanced inside

/-- Of the groups which were open, at most the innermost has been closed, and then no group has been opened or closed. -/
def Nests (e e' : Engine) : Prop := e.Within e' ∨ e.Leaves e'

variable {e e₁ e' : Engine}

namespace Within

theorem of_moves (h : e'.moves = e.moves) : e.Within e' := ⟨[], h, by decide⟩

theorem trans (h : e.Within e₁) (h' : e₁.Within e') : e.Within e' := by
  obtain ⟨new, hmoves, hnew⟩ := h
  obtain ⟨later, hmoves', hlater⟩ := h'
  exact ⟨later ++ new, by rw [hmoves', hmoves, List.append_assoc], hnew.append hlater⟩

/-- A group is closed: one which has been opened in the meantime, or the innermost. -/
theorem leaves (h : e.Within e₁) (h' : e₁.Leaves e') : e.Nests e' := by
  obtain ⟨new, hmoves, hnew⟩ := h
  obtain ⟨inside, hmoves', hinside, hbalanced⟩ := h'
  have hopen : StaysOpen (inside ++ new) := hnew.append hinside
  have hall : e'.moves = (.groupClosed :: (inside ++ new)) ++ e.moves := by simp [hmoves', hmoves]
  have hcount : (inside ++ new).count .groupClosed ≤ (inside ++ new).count .groupOpened := hopen _ List.suffix_rfl
  rcases Nat.lt_or_eq_of_le hcount with hlt | heq
  · exact .inl ⟨_, hall, hopen.closed hlt⟩
  · exact .inr ⟨inside ++ new, hall, hopen, heq.symm⟩

theorem nests (h : e.Within e₁) (h' : e₁.Nests e') : e.Nests e' := h'.elim (fun h' => .inl (h.trans h')) h.leaves

theorem of_opened (hopened : e₁.moves = .groupOpened :: e.moves) (h : e₁.Nests e') : e.Within e' := by
  rcases h with ⟨new, hmoves, hnew⟩ | ⟨inside, hmoves, hinside, hbalanced⟩
  · exact ⟨new ++ [.groupOpened], by simp [hmoves, hopened], StaysOpen.append (by decide) hnew⟩
  · refine ⟨.groupClosed :: (inside ++ [.groupOpened]), by simp [hmoves, hopened], ?_⟩
    refine StaysOpen.closed (StaysOpen.append (by decide) hinside) ?_
    simp [List.count_append, hbalanced]

end Within

theorem Nests.still (h : e.Nests e₁) (hmoves : e'.moves = e₁.moves) : e.Nests e' := by
  unfold Nests Within Leaves at h ⊢
  rwa [hmoves]

/-! The number of open groups tells if the innermost has been closed. -/

theorem Follows.moved {new : List TraceEntry} (h : e.Follows e') (hmoves : e'.moves = new ++ e.moves) :
    Moved e.context.outline new e'.context.outline := by
  obtain ⟨new', hmoves', hnew'⟩ := h
  obtain rfl : new' = new := List.append_cancel_right (hmoves'.symm.trans hmoves)
  exact hnew'

theorem Follows.depth_eq {new : List TraceEntry} (h : e.Follows e') (hmoves : e'.moves = new ++ e.moves) :
    e'.context.depth + new.count .groupClosed = e.context.depth + new.count .groupOpened := by
  have hlength := (h.moved hmoves).length
  rw [Context.length_outline, Context.length_outline] at hlength
  omega

theorem Within.depth_le (h : e.Within e') (hfollows : e.Follows e') : e.context.depth ≤ e'.context.depth := by
  obtain ⟨new, hmoves, hnew⟩ := h
  have hdepth := hfollows.depth_eq hmoves
  have hcount := hnew new List.suffix_rfl
  omega

theorem Leaves.depth_eq (h : e.Leaves e') (hfollows : e.Follows e') : e'.context.depth + 1 = e.context.depth := by
  obtain ⟨inside, hmoves, -, hbalanced⟩ := h
  have hdepth := hfollows.depth_eq (hmoves.trans (List.cons_append ..).symm)
  rw [List.count_cons_self, List.count_cons_of_ne (by decide)] at hdepth
  omega

theorem Nests.within (h : e.Nests e') (hfollows : e.Follows e') (hdepth : e.context.depth ≤ e'.context.depth) :
    e.Within e' :=
  h.resolve_right fun hleaves => by
    have hdepth' := hleaves.depth_eq hfollows
    omega

theorem Nests.leaves (h : e.Nests e') (hfollows : e.Follows e') (hdepth : e'.context.depth < e.context.depth) :
    e.Leaves e' :=
  h.resolve_left fun hwithin => Nat.not_le.2 hdepth (hwithin.depth_le hfollows)

/-- The groups around the innermost are the same as before. -/
theorem Leaves.outline_eq (h : e.Leaves e') (hfollows : e.Follows e') : e'.context.outline = e.context.outline.tail := by
  have hdepth := h.depth_eq hfollows
  obtain ⟨inside, hmoves, hinside, hbalanced⟩ := h
  have hmoved := hfollows.moved (hmoves.trans (List.cons_append ..).symm)
  have hpos : 0 < e.context.outline.length := by
    rw [Context.length_outline]
    exact Nat.succ_pos _
  obtain ⟨mark, outside, houtline⟩ := List.exists_cons_of_length_pos hpos
  -- the moves close at most one of the groups which were open
  obtain ⟨upper, hupper⟩ := hmoved.base [mark] outside houtline fun earlier hearlier => by
    rcases List.suffix_cons_iff.1 hearlier with rfl | hearlier
    · simp [hbalanced, Nat.add_comm]
    · exact Nat.le_add_left_of_le (hinside earlier hearlier)
  have hlength := congrArg List.length hupper
  have hlength' := congrArg List.length houtline
  rw [Context.length_outline, List.length_append] at hlength
  rw [Context.length_outline, List.length_cons] at hlength'
  have hnone : upper = [] := List.length_eq_zero_iff.1 (by omega)
  rw [hupper, hnone, houtline, List.nil_append, List.tail_cons]

end Engine

/-! ## Commands which change groups -/

/-- The procedure closes at most the innermost of the groups in which it begins, and does nothing to groups after that. -/
def Nested (p : Proc β α) : Prop := ∀ e : Engine, e.Nests (finalState (p e))

section Procedures

variable {p : Proc β α} {q : α → Proc β γ}

theorem Keeps.nested (hp : Still p) : Nested p := fun e => .inl (.of_moves (hp e))

namespace Nested

theorem bind_still (hp : Nested p) (hq : ∀ a, Still (q a)) : Nested (p >>= q) := fun e =>
  finalState_bind (hp e) (fun _ h => h) fun a e₁ h => h.still (hq a e₁)

theorem map (hp : Nested p) (g : α → γ) : Nested (g <$> p) := by
  intro e
  rw [finalState_map]
  exact hp e

theorem ite {c : Prop} [Decidable c] {q : Proc β α} (hp : Nested p) (hq : Nested q) : Nested (if c then p else q) := by
  split
  · exact hp
  · exact hq

end Nested

theorem Keeps.bind_nested (hp : Still p) (hq : ∀ a, Nested (q a)) : Nested (p >>= q) := fun e =>
  finalState_bind (S := fun e₁ => e₁.moves = e.moves) (hp e) (fun _ h => .inl (.of_moves h))
    fun a e₁ h => Engine.Within.nests (.of_moves h) (hq a e₁)

end Procedures

theorem nested_openGroup (kind : GroupKind) : Nested (openGroup kind) := fun _ => .inl ⟨[.groupOpened], rfl, by decide⟩

theorem nested_closeGroup (kind : GroupKind) : Nested (closeGroup kind) := by
  intro e
  simp only [closeGroup, Proc.context_bind]
  cases e.context.closeGroup kind with
  | ok closed => exact .inr ⟨[], rfl, by decide⟩
  | error fault => exact (still_complain _ _).nested e

theorem closeGroups_apply {k : Nat} {e : Engine} (h : k ≤ e.context.depth) :
    ∃ e', closeGroups k e = .ok () e' ∧ e'.trace = List.replicate k .groupClosed ++ e.trace := by
  induction k generalizing e with
  | zero => exact ⟨e, rfl, rfl⟩
  | succ k ih =>
    have hinner : e.context.depth ≠ 0 := by omega
    obtain ⟨ts, outside, hclose⟩ := Context.exists_closeGroup hinner rfl
    obtain ⟨g, hgroups, -⟩ := Context.closeGroup_eq_ok hclose
    let e₁ := (e.leaveGroup outside).pushTokens ts
    have hclosed : closeGroup e.context.current.kind e = .ok () e₁ := by
      simp only [closeGroup, Proc.context_bind, hclose]
      rfl
    have hdepth : k ≤ e₁.context.depth := by
      have hlength : k + 1 ≤ e.context.inner.length := h
      rw [hgroups] at hlength
      exact Nat.le_of_succ_le_succ hlength
    obtain ⟨e', hrest, htrace⟩ := ih hdepth
    refine ⟨e', (Proc.bind_ok hclosed).trans hrest, ?_⟩
    rw [htrace, List.replicate_succ', List.append_assoc]
    rfl

/-! ## The loop -/

/-- What executing commands from a state on amounts to, until the group is closed which is the innermost there. -/
def Encloses (e : Engine) : EStateM.Result (Interrupted Unit) Engine Bool → Prop
  | .ok true e' => e.Within e' ∧ e'.input = []
  | .ok false e' => e.Nests e' ∧ (e'.halted = false → e.Leaves e')
  | .error _ e' => e.Nests e'

/-- Commands are executed up to the end of the innermost group. -/
def Machine.Encloses (m : Machine) : Prop := ∀ e, Compositor.Encloses e (m.execute e.context.depth e)

section Groups

variable {m : Machine} {e e₁ : Engine}

/-- When the input has come to its end in a group, this group is closed with all those in it. -/
theorem closeGroups_leaves (hdepth : 0 < e.context.depth) (hwithin : e.Within e₁) (hfollows : e.Follows e₁) :
    ∃ e₂ k, closeGroups (e₁.context.depth + 1 - e.context.depth) e₁ = .ok () e₂ ∧
      e₂.trace = List.replicate k .groupClosed ++ e₁.trace ∧ e.Leaves e₂ := by
  have hle := hwithin.depth_le hfollows
  obtain ⟨k, hk⟩ : ∃ k, e₁.context.depth + 1 - e.context.depth = k + 1 := ⟨e₁.context.depth - e.context.depth, by omega⟩
  obtain ⟨e₂, hclosed, htrace⟩ := closeGroups_apply (k := k + 1) (e := e₁) (by omega)
  obtain ⟨new, hmoves, hnew⟩ := hwithin
  have hcount := hfollows.depth_eq hmoves
  have hmoves' : e₂.moves = List.replicate (k + 1) .groupClosed ++ e₁.moves := by
    rw [Engine.moves, htrace, List.filter_append, List.filter_replicate_of_pos rfl]
    rfl
  refine ⟨e₂, k + 1, by rw [hk, hclosed], htrace, List.replicate k .groupClosed ++ new, ?_, hnew.closed_all (by omega), ?_⟩
  · rw [hmoves', hmoves, List.append_assoc]
    rfl
  · obtain ⟨hclosed', hopened'⟩ := count_closed_all k new
    omega

theorem executeGroup_of_closed (hdepth : 0 < e.context.depth)
    (h : m.execute e.context.depth (e.record (.groupExecuted e.context.depth)) = .ok false e₁) :
    executeGroup m e = .ok () e₁ := by
  rw [executeGroup_of_open hdepth, Proc.bind_ok h]
  rfl

theorem executeGroup_of_error {i : Interrupted Unit} (hdepth : 0 < e.context.depth)
    (h : m.execute e.context.depth (e.record (.groupExecuted e.context.depth)) = .error i e₁) :
    executeGroup m e = .error i e₁ := by
  rw [executeGroup_of_open hdepth, Proc.bind_error h]

theorem executeGroup_of_ended (hdepth : 0 < e.context.depth)
    (h : m.execute e.context.depth (e.record (.groupExecuted e.context.depth)) = .ok true e₁) (hwithin : e.Within e₁)
    (hfollows : e.Follows e₁) :
    ∃ e₂ k, executeGroup m e = reportHere m .missingToken ["\x7d"] e₂ ∧
      e₂.trace = List.replicate k .groupClosed ++ e₁.trace ∧ e.Leaves e₂ := by
  obtain ⟨e₂, k, hclosed, htrace, hleaves⟩ := closeGroups_leaves hdepth hwithin hfollows
  refine ⟨e₂, k, ?_, htrace, hleaves⟩
  rw [executeGroup_of_open hdepth, Proc.bind_ok h]
  simp only [if_true, Proc.context_bind]
  exact Proc.bind_ok hclosed

theorem follows_of_execute (hm : m.Sound) {least : Nat} {ended : Bool} (h : m.execute least e = .ok ended e₁) :
    e.Follows e₁ := by
  have hmeets : Meets (.command False) (m.execute least) fun _ => True := hm.execute rfl least
  exact ((hmeets e False.elim).ok h).1.follows

variable (hm : m.Sound) (hencloses : m.Encloses)

include hm hencloses

theorem nested_executeGroup : Nested (executeGroup m) := by
  intro e
  by_cases hdepth : 0 < e.context.depth
  swap
  · have houtermost : e.context.depth = 0 := by omega
    simp only [executeGroup, Proc.context_bind, if_pos houtermost]
    exact .inl (.of_moves rfl)
  let e₀ := e.record (.groupExecuted e.context.depth)
  have hencloses : Encloses e₀ (m.execute e.context.depth e₀) := hencloses e₀
  cases h : m.execute e.context.depth e₀ with
  | error i e₁ =>
    rw [h] at hencloses
    rw [executeGroup_of_error hdepth h]
    exact hencloses
  | ok ended e₁ =>
    rw [h] at hencloses
    cases ended with
    | false =>
      rw [executeGroup_of_closed hdepth h]
      exact hencloses.1
    | true =>
      have hfollows : e₀.Follows e₁ := follows_of_execute hm h
      obtain ⟨e₂, k, hexecuted, -, hleaves⟩ := executeGroup_of_ended hdepth h hencloses.1 hfollows
      rw [hexecuted]
      have hnests : e.Nests e₂ := .inr hleaves
      exact hnests.still (still_reportHere hm _ _ e₂)

/-- The group which is opened for the contents of a box is the only one which may be closed. -/
theorem nested_boxContents_bind (kind : BoxKind) {f : List Node → Action α} (hf : ∀ nodes, Still (f nodes)) :
    Nested (do
      openGroup .simple
      modifyTypesetter (·.openList (contentsMode kind))
      executeGroup m
      f (← closeList)) := by
  have hcontents : Nested (do
      modifyTypesetter (·.openList (contentsMode kind))
      executeGroup m
      f (← closeList) : Action α) := by
    refine Keeps.bind_nested (.modifyTypesetter _) fun _ => (nested_executeGroup hm hencloses).bind_still fun _ => ?_
    exact still_closeList.bind hf
  exact fun e => .inl (.of_opened rfl (hcontents (e.enterGroup .simple e.locator)))

theorem nested_makeBox (kind : BoxKind) : Nested (makeBox m kind) := by
  refine (meets_keyword hm "to").lift.still.bind_nested fun found => .ite ?_ ?_
  · refine ((meets_dimension hm).lift.map some).still.bind_nested fun width => ?_
    refine (meets_openingBrace hm).still.bind_nested fun _ => ?_
    exact nested_boxContents_bind hm hencloses kind fun nodes => .pure _
  · refine (meets_openingBrace hm).still.bind_nested fun _ => ?_
    exact nested_boxContents_bind hm hencloses kind fun nodes => .pure _

theorem nested_produceBox (source : BoxSource) : Nested (produceBox m source) := by
  cases source with
  | register keeps => exact (still_takeBox hm keeps).nested
  | group kind => exact (nested_makeBox hm hencloses kind).map some

theorem nested_assignBox (globally : Bool) : Nested (assignBox m globally) := by
  have hstore : ∀ name box, Still (modify (·.storeBox name box globally) : Action PUnit) :=
    fun name box => .modify fun _ => rfl
  refine (meets_registerName hm).lift.still.bind_nested fun name => ?_
  refine (meets_optionalEquals hm).still.bind_nested fun _ => (meets_nonBlank hm).lift.still.bind_nested fun x => ?_
  cases x with
  | none => exact (Keeps.pure _).nested
  | some t =>
    refine (meets_meaningOf t).still.bind_nested fun meaning => ?_
    cases BoxSource.ofMeaning? meaning with
    | none => exact ((Keeps.pushBack t).bind fun _ => still_complain _ _).nested
    | some source => exact (nested_produceBox hm hencloses source).bind_still fun box => hstore name box

theorem nested_execute (name : String) (modifiers : Modifiers) (c : Command) : Nested (c.execute m name modifiers) := by
  cases c with
  | define globally expanded => exact (still_define hm modifiers globally expanded).nested
  | assignMeaning => exact (still_assignMeaning hm _).nested
  | register kind fixed => exact (still_assignRegister hm kind fixed _).nested
  | defineRegister kind => exact (still_defineRegister hm kind _).nested
  | magnification => exact (still_assignMagnification hm name _).nested
  | arithmetic op => exact (still_arithmetic hm op name _).nested
  | boxRegister keeps =>
    refine ((still_takeBox hm keeps).bind fun box => ?_).nested
    cases box with
    | none => exact .pure ()
    | some box => exact .modifyTypesetter _
  | setBox => exact nested_assignBox hm hencloses _
  | makeBox kind => exact (nested_makeBox hm hencloses kind).bind_still fun box => .modifyTypesetter _
  | charCode table => exact (still_assignCharCode hm table _).nested
  | changeCase table =>
    refine ((meets_balancedText hm false).lift.still.bind fun text => ?_).nested
    exact Keeps.context.bind fun c => .pushTokens _
  | endName => exact (still_complain _ _).nested
  | beginGroup => exact nested_openGroup _
  | endGroup => exact nested_closeGroup _
  | afterGroup =>
    refine (hm.next.still.bind fun x => ?_).nested
    cases x with
    | none => exact .pure ()
    | some t => exact .modifyContext _
  | relax => exact (Keeps.pure ()).nested
  | stop =>
    have hhalt : Still (modify fun e => { e with halted := true } : Action PUnit) := .modify fun _ => rfl
    exact ((Keeps.modifyTypesetter _).bind fun _ => hhalt).nested
  | par => exact (Keeps.modifyTypesetter _).nested
  | kern => exact ((meets_dimension hm).lift.still.bind fun d => .modifyTypesetter _).nested
  | skip vertical => exact (still_addGlue hm vertical).nested
  | penalty => exact (hm.number.lift.still.bind fun cost => .modifyTypesetter _).nested
  | char => exact (still_setCharacter hm).nested
  | loadFont => exact (still_loadFont hm _).nested
  | selectFont font => exact (Keeps.context.bind fun c => .modifyContext _).nested
  | nullFont => exact (Keeps.modifyContext _).nested
  | beginDirection direction => exact ((Keeps.modifyContext _).bind fun _ => .modifyContext _).nested
  | endDirection direction => exact (still_endDirection name direction).nested
  | setInteraction mode => exact (Keeps.modifyContext _).nested
  | message =>
    have hmessage : ∀ s, Still (modify (·.message s) : Action PUnit) := fun s => .modify fun _ => rfl
    exact ((meets_balancedText hm true).lift.still.bind fun text => hmessage _).nested
  | setSpace => exact ((meets_balancedText hm true).lift.still.bind fun text => .modifyContext _).nested
  | ignoreSpaces =>
    refine ((meets_nonBlank hm).lift.still.bind fun x => ?_).nested
    cases x with
    | none => exact .pure ()
    | some t => exact .pushBack t
  | input => exact (still_readFile hm).nested

theorem nested_executeModified (t : Token) (meaning : Meaning) (modifiers : Modifiers) :
    Nested (executeModified m t meaning modifiers) := by
  refine .ite ((Keeps.pushBack t).bind_nested fun _ => (still_complain _ _).bind_nested fun _ => ?_) ?_
  all_goals
    split
    · exact (Keeps.pushBack _).nested
    · exact (still_complain _ _).nested
    · exact nested_execute hm hencloses _ _ _
    · exact (still_complain _ _).nested

theorem nested_executeMeaning (t : Token) (meaning : Meaning) : Nested (executeMeaning m t meaning) := by
  unfold executeMeaning
  split
  · next word =>
    have hgather : Still (do
        modify fun e => { e with modifiers := e.modifiers.union word }
        record (.gathered word) : Action Unit) := Keeps.bind (fun _ => rfl) fun _ => .record rfl
    exact hgather.nested
  · have hclear : Still (modify fun e => { e with modifiers := .none } : Action PUnit) := .modify fun _ => rfl
    exact Keeps.get.bind_nested fun e => hclear.bind_nested fun _ => nested_executeModified hm hencloses t _ e.modifiers

omit hencloses in
theorem nested_executeCharacter (t : Token) : Nested (executeCharacter m t) := by
  unfold executeCharacter
  split
  · exact nested_openGroup .simple
  · exact nested_closeGroup .simple
  · exact (still_setLetter t).nested
  · exact (still_setLetter t).nested
  · exact (Keeps.get.bind fun e => .modifyTypesetter _).nested
  · exact (still_mathShift hm).nested
  · exact (Keeps.get.bind fun e => .ite (.modifyTypesetter _) (still_complain _ _)).nested
  · exact (Keeps.get.bind fun e => .ite (.modifyTypesetter _) (still_complain _ _)).nested
  · exact (still_complain _ _).nested
  · exact (still_complain _ _).nested
  · exact (still_complain _ _).nested

theorem nested_dispatch (t : Token) : Nested (dispatch m t) := by
  have hclear : Still (modify fun e => { e with modifiers := .none } : Action PUnit) := .modify fun _ => rfl
  refine Keeps.bind_nested (fun _ => rfl) fun _ => .ite (Keeps.context.bind_nested fun c => ?_) ?_
  · cases c.meaning t with
    | some meaning => exact nested_executeMeaning hm hencloses t meaning
    | none => exact (hclear.bind fun _ => still_complainUndefined t).nested
  · refine Keeps.get.bind_nested fun e => .ite (.ite ?_ (Keeps.pure _).nested) (nested_executeCharacter hm t)
    exact (hclear.bind fun _ => (Keeps.pushBack t).bind fun _ => still_complain _ _).nested

/-- What stops a command is reported, which has nothing to do with groups. -/
theorem nested_absorb_dispatch (t : Token) : Nested (absorb m (dispatch m t)) := fun e =>
  finalState_absorb (nested_dispatch hm hencloses t e) fun d e₁ h => h.still (still_report hm d e₁)

end Groups

section Loop

variable {m : Machine} {e e₁ : Engine}

theorem Input.pull_exhausted {lexicon : Lexicon} {input rest : Input} (h : input.pull lexicon = (.exhausted, rest)) :
    rest = [] := by
  fun_induction input.pull lexicon <;> grind

theorem input_of_next {n : Nat} (h : (machine n).next e = .ok none e₁) : e₁.input = [] := by
  cases n with
  | zero => cases h
  | succ n =>
    obtain ⟨-, e₂, hstep⟩ := iterate_ends (h : readToken (machine n) e = .ok none e₁)
    rw [Proc.get_bind] at hstep
    cases hpull : e₂.input.pull e₂.context.lexicon with
    | mk pulled input =>
      simp only [hpull, Proc.set_bind] at hstep
      cases pulled with
      | token t => cases hstep
      | exhausted =>
        cases hstep
        exact Input.pull_exhausted hpull
      | invalid c place =>
        obtain ⟨_, _, -, hagain⟩ := Proc.bind_eq_ok hstep
        cases hagain

/-- Nothing is left to read when the input has come to its end. -/
theorem input_of_nextExpanded {n : Nat} (h : (machine n).nextExpanded e = .ok none e₁) : e₁.input = [] := by
  cases n with
  | zero => cases h
  | succ n =>
    obtain ⟨-, e₂, hstep⟩ := iterate_ends (h : readExpanded (machine n) e = .ok none e₁)
    obtain ⟨x, e₃, hnext, hstep⟩ := Proc.bind_eq_ok hstep
    rw [Proc.lift_eq_ok] at hnext
    cases x with
    | none =>
      cases hstep
      exact input_of_next hnext
    | some t =>
      obtain ⟨expanded, e₄, -, hturn⟩ := Proc.bind_eq_ok hstep
      cases expanded <;> cases hturn

/-- What a turn of the loop amounts to. From the state `e₀` on, commands have been executed in its innermost group. -/
theorem encloses_turn {n : Nat} {e₀ : Engine} (hencloses : (machine n).Encloses) (hnests : e₀.Nests e)
    (hfollows : e₀.Follows e) :
    match executeStep (machine n) e₀.context.depth e with
    | .ok (.done ended) e' => Encloses e₀ (.ok ended e')
    | .ok (.again ()) e' => e₀.Nests e'
    | .error i e' => Encloses e₀ (.error i e') := by
  have hm := machine_sound n
  unfold executeStep executeTurn
  rw [Proc.get_bind]
  by_cases hdone : e.halted = true ∨ e.context.depth < e₀.context.depth
  · rw [if_pos (by simpa using hdone)]
    exact ⟨hnests, fun hgoing => hnests.leaves hfollows (hdone.resolve_left (by simp [hgoing]))⟩
  · -- the innermost group of the first state is still open, so what this turn closes is that group or one in it
    obtain ⟨hhalted, hshallow⟩ := not_or.1 hdone
    have hdepth : e₀.context.depth ≤ e.context.depth := Nat.le_of_not_lt hshallow
    rw [if_neg (by simp [hhalted, hdepth])]
    have hwithin := hnests.within hfollows hdepth
    have hread : Still (monadLift (machine n).nextExpanded : Action (Option Token)) := hm.nextExpanded.still.lift
    have hmoves := hread e
    cases h : (monadLift (machine n).nextExpanded : Action (Option Token)) e with
    | error i e₁ =>
      rw [h] at hmoves
      rw [Proc.bind_error h]
      exact hnests.still hmoves
    | ok x e₁ =>
      rw [h] at hmoves
      rw [Proc.bind_ok h]
      have hwithin₁ := hwithin.trans (.of_moves hmoves)
      cases x with
      | none => exact ⟨hwithin₁, input_of_nextExpanded (Proc.lift_eq_ok.1 h)⟩
      | some t =>
        have hnested := nested_absorb_dispatch hm hencloses t e₁
        dsimp only
        cases habsorb : absorb (machine n) (dispatch (machine n) t) e₁ with
        | error i e₂ =>
          rw [habsorb] at hnested
          rw [Proc.bind_error habsorb]
          exact hwithin₁.nests hnested
        | ok u e₂ =>
          rw [habsorb] at hnested
          rw [Proc.bind_ok habsorb]
          exact hwithin₁.nests hnested

theorem encloses_iterate {n : Nat} {e₀ : Engine} (hencloses : (machine n).Encloses) (hnests : e₀.Nests e)
    (hfollows : e₀.Follows e) (fuel : Nat) :
    Encloses e₀ (iterate (fun _ => executeStep (machine n) e₀.context.depth) fuel () e) := by
  induction fuel generalizing e with
  | zero => exact hnests
  | succ fuel ih =>
    have hturn := encloses_turn hencloses hnests hfollows
    rw [iterate]
    cases h : executeStep (machine n) e₀.context.depth e with
    | error i e₁ =>
      rw [h] at hturn
      rw [Proc.bind_error h]
      exact hturn
    | ok turn e₁ =>
      rw [h] at hturn
      rw [Proc.bind_ok h]
      cases turn with
      | done ended => exact hturn
      | again =>
        have hmeets : Meets (.command False) (executeStep (machine n) e₀.context.depth) fun _ => True :=
          meets_executeStep (machine_sound n) rfl _
        exact ih hturn (hfollows.trans ((hmeets e False.elim).ok h).1.follows)

theorem machine_encloses (n : Nat) : (machine n).Encloses := by
  induction n with
  | zero => exact fun e => .inl (.of_moves rfl)
  | succ n ih => exact fun e => encloses_iterate ih (.inl (.of_moves rfl)) (.of_eq rfl rfl) _

end Loop

/-- One right brace has been reported to be missing, and no other token. -/
def Engine.MissesBrace (e e' : Engine) : Prop :=
  ∃ d : Diagnostic, d.kind = .missingToken ∧ d.arguments = ["\x7d"] ∧
    e'.trace.filter TraceEntry.isMissing = .reported d :: e.trace.filter TraceEntry.isMissing

/-- **A group is executed up to its own end.** Let a group be executed where at least one is open, with any input: the
execution may come upon groups and boxes which are nested in any way, braces which close nothing, and the end of the input.
If nothing stops it and the run is not halted, then the innermost group has been closed at the end, together with all groups
which were opened in the meantime. The groups around it are the same as before, and have never been closed. If the input has
come to its end before the group, this is so as well, and one missing brace is reported for this group; otherwise nothing
happens after the group has been closed. -/
theorem executeGroup_closes_own_group (n : Nat) {e e' : Engine} (hdepth : 0 < e.context.depth)
    (h : executeGroup (machine n) e = .ok () e') (hgoing : e'.halted = false) :
    e'.context.depth + 1 = e.context.depth ∧ e'.context.outline = e.context.outline.tail ∧ e.Leaves e' ∧
      ∃ ended e₁, (machine n).execute e.context.depth (e.record (.groupExecuted e.context.depth)) = .ok ended e₁ ∧
        (ended = false → e' = e₁) ∧ (ended = true → e₁.input = [] ∧ e₁.MissesBrace e') := by
  have hm := machine_sound n
  have hmeets : MeetsAt (.command False) (executeGroup (machine n)) (fun _ => True) e :=
    worksAt_executeGroup hm False.elim hdepth
  have hfollows : e.Follows e' := (hmeets.ok h).1.follows
  have hencloses := machine_encloses n (e.record (.groupExecuted e.context.depth))
  cases hrun : (machine n).execute e.context.depth (e.record (.groupExecuted e.context.depth)) with
  | error i e₁ => cases (executeGroup_of_error hdepth hrun).symm.trans h
  | ok ended e₁ =>
    -- nothing has happened to groups when the execution is noted in the trace
    have hfollows₁ : e.Follows e₁ := (follows_of_execute hm hrun : (e.record _).Follows e₁)
    replace hencloses : Encloses e (.ok ended e₁) := by
      rw [← hrun]
      exact hencloses
    cases ended with
    | false =>
      cases (executeGroup_of_closed hdepth hrun).symm.trans h
      have hleaves : e.Leaves e' := hencloses.2 hgoing
      exact ⟨hleaves.depth_eq hfollows, hleaves.outline_eq hfollows, hleaves, false, e', rfl, fun _ => rfl, nofun⟩
    | true =>
      obtain ⟨hwithin, hinput⟩ := hencloses
      obtain ⟨e₂, k, hreport, htrace, hclosed⟩ := executeGroup_of_ended hdepth hrun hwithin hfollows₁
      let d : Diagnostic := { kind := .missingToken, place := e₂.locator, arguments := ["\x7d"] }
      replace hreport : report (machine n) d e₂ = .ok () e' := hreport.symm.trans h
      have hmoves : e'.moves = e₂.moves := by
        have hstill := still_report hm d e₂
        rwa [hreport] at hstill
      have hleaves : e.Leaves e' := by
        unfold Engine.Leaves at hclosed ⊢
        rwa [hmoves]
      refine ⟨hleaves.depth_eq hfollows, hleaves.outline_eq hfollows, hleaves, true, e₁, rfl, nofun, fun _ => ⟨hinput, ?_⟩⟩
      have hfilter := report_filter noAftermath_isMissing (omits_next n) d e₂
      rw [hreport, htrace, List.filter_append, List.filter_replicate_of_neg (by decide), List.nil_append] at hfilter
      exact ⟨e₂.phrase d, rfl, rfl, hfilter⟩

/-- The input comes to its end in a group within the one which is executed. -/
theorem executeGroup_closes_own_group_unclosed :
    let brace := Token.character .leftBrace '\x7b'
    let e := (((Engine.new default {}).enterGroup .semiSimple {}).enterGroup .simple {}).pushTokens [brace, brace]
    ∃ e' e₁, executeGroup (machine 8) e = .ok () e' ∧ e'.context.outline = [(.semiSimple, {}), (.outer, {})] ∧
      e.Leaves e' ∧ (machine 8).execute 2 (e.record (.groupExecuted 2)) = .ok true e₁ ∧ e₁.MissesBrace e' := by
  intro brace e
  have hvalue : valueOf (executeGroup (machine 8) e) = some () := by decide +kernel
  have hended : valueOf ((machine 8).execute 2 (e.record (.groupExecuted 2))) = some true := by decide +kernel
  have hgoing : (finalState (executeGroup (machine 8) e)).halted = false := by decide +kernel
  have hdepth : 0 < e.context.depth := by decide +kernel
  obtain ⟨-, houtline, hleaves, ended, e₁, hrun, -, hmisses⟩ :=
    executeGroup_closes_own_group 8 hdepth (eq_ok_of_valueOf hvalue) hgoing
  have htwo : e.context.depth = 2 := by decide +kernel
  rw [htwo] at hrun
  obtain rfl : ended = true := by
    rw [hrun] at hended
    exact Option.some.inj hended
  have houter : e.context.outline.tail = [(.semiSimple, {}), (.outer, {})] := by decide +kernel
  exact ⟨_, e₁, eq_ok_of_valueOf hvalue, houtline.trans houter, hleaves, hrun, (hmisses rfl).2⟩

end Compositor
