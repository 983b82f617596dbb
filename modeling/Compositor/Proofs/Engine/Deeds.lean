import Compositor.Proofs.Engine.Running
import Compositor.Proofs.Scope.Snapshots

/-!
# What happens to a context

A context is changed from outside and by runs. Both do nothing but a few things, one after the other. So what holds
after any sequence of them holds after runs as well, and in the midst of runs.

* `Deed` lists what can be done to a context, `Context.undergo` says what comes of it. Some of it is never done by the
  engine: `Deed.IsOwn` is the rest;
* `Course.evolves` finds the deeds in whatever the engine does, `Outcome.evolves` in a run;
* `Engine.Use` lists what can be done with an engine. `Engine.Later` are the states which come of it, those in the midst
  of a run among them, and `Engine.Later.undergoes` finds the deeds in between.
-/

namespace Compositor

/-! ## Deeds -/

/-- Whatever can be done to a context. -/
inductive Deed where
  /-- Groups are opened and closed, and values are assigned with a notice to those who watch them. -/
  | operate (op : Operation)
  /-- A value is assigned without a notice. -/
  | set (k : Key) (v : k.Value) (globally : Bool)
  | afterGroupToken (t : Token)
  | afterGroupNotice (label : String)
  | watch (w : Watch)
  | pushConditional (k : Conditional)
  | popConditional
  | dropConditional (id : Nat)
  | pushDirection (d : Direction)
  | popDirection
  | setMaxMagnification (max : Int64)
  | setMagnification (v : Int64) (lock : Bool)
  | setCalendar (m : Moment)

/-- The engine does such a thing of its own. -/
def Deed.IsOwn : Deed → Prop
  | .afterGroupNotice _ | .watch _ | .setMaxMagnification _ | .setCalendar _ => False
  | _ => True

namespace Context

/-- The context after a deed. What fails leaves it as it is. -/
def undergo (c : Context) : Deed → Context
  | .operate op => c.apply op
  | .set k v globally => c.set k v globally
  | .afterGroupToken t => c.afterGroupToken t
  | .afterGroupNotice label => c.afterGroupNotice label
  | .watch w => c.watch w
  | .pushConditional k => c.pushConditional k
  | .popConditional => c.popConditional
  | .dropConditional id => c.dropConditional id
  | .pushDirection d => c.pushDirection d
  | .popDirection => c.popDirection
  | .setMaxMagnification max => c.setMaxMagnification max
  | .setMagnification v lock => (c.setMagnification v lock).toOption.getD c
  | .setCalendar m => c.setCalendar m

def undergoAll (c : Context) (ds : List Deed) : Context := ds.foldl undergo c

/-- One context comes from the other by some deeds. -/
def Undergoes (c c' : Context) : Prop := ∃ ds, c' = c.undergoAll ds

variable {c c₁ c' : Context}

namespace Undergoes

theorem refl (c : Context) : c.Undergoes c := ⟨[], rfl⟩

theorem trans (h : c.Undergoes c₁) (h' : c₁.Undergoes c') : c.Undergoes c' := by
  obtain ⟨ds, rfl⟩ := h
  obtain ⟨ds', rfl⟩ := h'
  exact ⟨ds ++ ds', List.foldl_append.symm⟩

theorem deed (c : Context) (d : Deed) : c.Undergoes (c.undergo d) := ⟨[d], rfl⟩

end Undergoes

/-- The engine makes one context of the other. -/
def Evolves (c c' : Context) : Prop := ∃ ds : List Deed, (∀ d ∈ ds, d.IsOwn) ∧ c' = c.undergoAll ds

namespace Evolves

theorem undergoes (h : c.Evolves c') : c.Undergoes c' := by
  obtain ⟨ds, -, h⟩ := h
  exact ⟨ds, h⟩

theorem refl (c : Context) : c.Evolves c := ⟨[], by simp, rfl⟩

theorem trans (h : c.Evolves c₁) (h' : c₁.Evolves c') : c.Evolves c' := by
  obtain ⟨ds, hds, rfl⟩ := h
  obtain ⟨ds', hds', rfl⟩ := h'
  refine ⟨ds ++ ds', fun d hd => ?_, List.foldl_append.symm⟩
  exact (List.mem_append.1 hd).elim (hds d) (hds' d)

theorem deed (c : Context) {d : Deed} (hd : d.IsOwn) : c.Evolves (c.undergo d) :=
  ⟨[d], by simpa using hd, rfl⟩

theorem assign (c : Context) (s : Slot) (v : s.Value) (globally : Bool) : c.Evolves (c.assign s v globally) :=
  deed c (d := .operate (.assign s v globally)) trivial

theorem closeGroup {kind : GroupKind} {ts : List Token} (h : c.closeGroup kind = .ok (ts, c')) : c.Evolves c' := by
  have happly : c' = c.undergo (.operate (.closeGroup kind)) := by simp only [undergo, apply, h]
  rw [happly]
  exact deed c trivial

theorem setMagnification {v : Int64} {lock : Bool} (h : c.setMagnification v lock = .ok c') : c.Evolves c' := by
  have hset : c' = c.undergo (.setMagnification v lock) := by simp [undergo, h, Except.toOption]
  rw [hset]
  exact deed c trivial

theorem dropConditionals (c : Context) : c.Evolves { c with conditionals := [] } := by
  induction hks : c.conditionals generalizing c with
  | nil =>
    rw [← hks]
    exact refl c
  | cons k ks ih =>
    have hpop : c.Evolves c.popConditional := deed c (d := .popConditional) trivial
    exact hpop.trans (ih c.popConditional (by simp [popConditional, hks]))

end Evolves

/-! ## Deeds on groups -/

theorem regroups_assign (c : Context) (s : Slot) (v : s.Value) (globally : Bool) : c.Regroups (c.assign s v globally) := by
  match s with
  | .key k =>
    have hset := c.regroups_set k v globally
    cases k with
    | count name => exact c.regroups_setCount name v globally
    | meaning t => exact c.regroups_setMeaning t v globally
    | _ => exact hset
  | .style => exact c.regroups_setStyle v globally
  | .interaction => exact c.regroups_setInteraction v globally
  | .space => exact c.regroups_setSpace v globally

theorem regroups_apply (c : Context) (op : Operation) : c.Regroups (c.apply op) := by
  cases op with
  | openGroup kind place => exact c.regroups_openGroup kind place
  | closeGroup kind =>
    simp only [apply]
    split
    · exact .closeGroup ‹_›
    · exact c.regroups_of_groups c.outermost c.inner
  | assign s v globally => exact c.regroups_assign s v globally

theorem regroups_afterGroupNotice (c : Context) (label : String) : c.Regroups (c.afterGroupNotice label) :=
  c.regroups_modifyCurrent _

theorem regroups_setCalendar (c : Context) (m : Moment) : c.Regroups (c.setCalendar m) :=
  (((c.regroups_setCount _ _ true).trans (regroups_setCount _ _ _ true)).trans (regroups_setCount _ _ _ true)).trans
    (regroups_setCount _ _ _ true)

theorem watches_undergo (c : Context) (d : Deed) : c.watches <+: (c.undergo d).watches := by
  have hregroups : ∀ {c' : Context}, c.Regroups c' → c.watches <+: c'.watches :=
    fun h => h.watches ▸ List.prefix_refl _
  cases d with
  | operate op => exact hregroups (c.regroups_apply op)
  | set k v globally => exact hregroups (c.regroups_set k v globally)
  | afterGroupToken t => exact hregroups (c.regroups_afterGroupToken t)
  | afterGroupNotice label => exact hregroups (c.regroups_afterGroupNotice label)
  | setCalendar m => exact hregroups (c.regroups_setCalendar m)
  | watch w => exact List.prefix_append _ _
  | setMaxMagnification max =>
    simp only [undergo, setMaxMagnification]
    split <;> exact List.prefix_refl _
  | setMagnification v lock =>
    simp only [undergo]
    cases hset : c.setMagnification v lock with
    | ok c' =>
      rw [setMagnification_eq hset]
      exact List.prefix_refl _
    | error fault => exact List.prefix_refl _
  | _ => exact List.prefix_refl _

end Context

/-! ## Courses -/

section Courses

variable {strict : Prop} {l : Level} {o : Option Stop} {e e' : Engine}

open Context (Evolves)

theorem ScanStep.evolves (h : ScanStep strict e e') : e.context.Evolves e'.context := by
  cases h with
  | endBranch => exact .deed _ (d := .popConditional) trivial
  | @defineRelax t _ id _ => exact .assign _ (.key (.meaning t)) _ false
  | lockMagnification h => exact .setMagnification h
  | setInteraction mode => exact .assign _ .interaction mode true
  | pushText text source =>
    rw [e.pushText_context]
    exact .refl _
  | _ => exact .refl _

theorem WorkStep.evolves (h : WorkStep strict e e') : e.context.Evolves e'.context := by
  cases h with
  | @assign k v _ _ globally => exact .deed _ (d := .set k v globally) trivial
  | @setCount name _ v globally => exact .assign _ (.key (.count name)) v globally
  | @setMeaning t m _ globally => exact .assign _ (.key (.meaning t)) (some m) globally
  | openGroup kind place => exact .deed _ (d := .operate (.openGroup kind place)) trivial
  | closeGroup h => exact .closeGroup h
  | @afterGroupToken t _ => exact .deed _ (d := .afterGroupToken t) trivial
  | setInteraction mode => exact .assign _ .interaction mode true
  | setStyle style globally => exact .assign _ .style style globally
  | setSpace space globally => exact .assign _ .space space globally
  | pushDirection d => exact .deed _ (d := .pushDirection d) trivial
  | popDirection => exact .deed _ (d := .popDirection) trivial
  | @setMagnification v _ name h _ globally =>
    exact (Evolves.setMagnification h).trans (.assign _ (.key (.count name)) v globally)
  | keepFont target name font _ globally =>
    let meaning := Meaning.primitive e.serial target.name (.command (.selectFont name))
    have hmeaning := Evolves.assign e.context (.key (.meaning target)) (some meaning) globally
    exact hmeaning.trans (.assign _ (.key (.font target.name)) (some font) globally)
  | storeBox name box globally => exact .assign _ (.key (.box name)) box globally
  | deliverBox name keeps =>
    rcases e.deliverBox_context name keeps with heq | heq <;> rw [heq]
    · exact .refl _
    · exact .assign _ (.key (.box name)) none false
  | pushText text source =>
    rw [e.pushText_context]
    exact .refl _
  | _ => exact .refl _

/-- **Whatever the engine does to its context is a sequence of deeds of its own.** -/
theorem Course.evolves (h : Course strict l o e e') : e.context.Evolves e'.context := by
  induction h with
  | refl => exact .refl _
  | scan _ hstep ih => exact ih.trans hstep.evolves
  | work _ _ hstep ih => exact ih.trans hstep.evolves
  | exhausted _ ih => exact ih
  | stop _ _ ih | restore _ _ ih | refuse _ _ _ ih | exceed _ _ _ _ ih | consult _ _ _ _ ih | answer _ _ _ ih
  | dismiss _ _ _ _ ih | say _ _ _ ih | consent _ ih | decline _ _ ih => exact ih
  | forgive _ _ _ _ _ _ ih ih' => exact ih.trans ih'
  | @decide l o e e₁ e₂ c _ _ _ ih ih' =>
    have hpush := Evolves.deed e₁.context (d := .pushConditional { c with evaluating := true }) trivial
    exact ((ih.trans hpush).trans ih').trans (.deed _ (d := .dropConditional c.id) trivial)
  | @branch l e e₁ e₂ c _ _ _ _ ih ih' => exact (ih.trans ih').trans (.deed _ (d := .pushConditional c) trivial)
  | box _ _ _ _ _ ih ih' => exact ih.trans ih'

theorem Course.undergoes (h : Course strict l o e e') : e.context.Undergoes e'.context := h.evolves.undergoes

theorem Outcome.evolves {r : EStateM.Result (Interrupted Unit) Engine Unit} (h : Outcome strict e r) :
    e.context.Evolves (finalState r).context := by
  cases h with
  | unprepared => exact .refl _
  | stopped h => exact h.evolves
  | unclosed h hreport => exact h.evolves.trans hreport.evolves
  | @ended e₁ e₂ h hreport =>
    have hreported : e₁.context.Evolves e₂.context := hreport.evolves
    exact (h.evolves.trans hreported).trans (.dropConditionals e₂.context)

end Courses

/-! ## Uses of an engine -/

namespace Engine

/-- What can be done with an engine, and with others which share its context. The number says how far a run is
followed. -/
inductive Use where
  /-- Something is done to the context. -/
  | deed (d : Deed)
  | runText (n : Nat) (text source : String)
  | runFile (n : Nat) (name : String)
  /-- Primitives are installed, if they can be. -/
  | install (ds : List Declaration)
  /-- Another engine goes on with the context. -/
  | handOver (e : Engine)

/-- The engine after it has been used. -/
def use (e : Engine) : Use → Engine
  | .deed d => e.modifyContext (·.undergo d)
  | .runText n text source => finalState (Compositor.runText (machine n) text source e)
  | .runFile n name => finalState (Compositor.runFile (machine n) name e)
  | .install ds => (e.install ds).toOption.getD e
  | .handOver e' => { e' with context := e.context }

/-- A state which may come after another one: between the uses of an engine, or in the midst of what it does. -/
inductive Later (e : Engine) : Engine → Prop where
  | refl : Later e e
  | use {e₁ : Engine} (h : Later e e₁) (u : Use) : Later e (e₁.use u)
  | course {e₁ e₂ : Engine} {strict : Prop} {l : Level} {o : Option Stop} (h : Later e e₁)
      (hcourse : Course strict l o e₁ e₂) : Later e e₂

theorem run_evolves (n : Nat) (e : Engine) : e.context.Evolves (finalState (run (machine n) e)).context := by
  have houtcome : Outcome False e (run (machine n) e) := run_outcome n False.elim
  exact houtcome.evolves

theorem runText_evolves (n : Nat) (text source : String) (e : Engine) :
    e.context.Evolves (finalState (Compositor.runText (machine n) text source e)).context := by
  have hrun := run_evolves n (e.pushText text source)
  rw [pushText_context] at hrun
  exact hrun

theorem runFile_evolves (n : Nat) (name : String) (e : Engine) :
    e.context.Evolves (finalState (Compositor.runFile (machine n) name e)).context := by
  obtain ⟨o, e₁, hcourse, hlast | hrun⟩ := finalState_runFile n name False (e := e) False.elim
  · rw [hlast]
    exact hcourse.evolves
  · rw [hrun]
    exact hcourse.evolves.trans (run_evolves n e₁)

theorem setDefault_evolves (e : Engine) (name : String) (v : DefaultValue) :
    e.context.Evolves (e.setDefault name v).context := by
  cases v with
  | count n => exact .assign _ (.key (.count name)) n true
  | dimen l => exact .assign _ (.key (.dimen name)) l true
  | glue g => exact .assign _ (.key (.glue name)) g true

theorem install_evolves {e e' : Engine} {ds : List Declaration} (h : e.install ds = .ok e') :
    e.context.Evolves e'.context := by
  refine install_preserves (P := fun e' => e.context.Evolves e'.context) ?_ ?_ h (.refl _)
  · intro d _ p _ e₁ he
    exact he.trans (.assign e₁.context (.key (.meaning (.controlSequence d.name ""))) (some (.primitive e₁.serial d.name p)) true)
  · exact fun e₁ name v he => he.trans (setDefault_evolves e₁ name v)

/-- Whatever else an engine is used for, it does of its own what becomes of its context. -/
theorem use_evolves (e : Engine) {u : Use} (hu : ∀ d, u ≠ .deed d) : e.context.Evolves (e.use u).context := by
  cases u with
  | deed d => exact absurd rfl (hu d)
  | runText n text source => exact runText_evolves n text source e
  | runFile n name => exact runFile_evolves n name e
  | install ds =>
    cases hinstall : e.install ds with
    | ok e' =>
      simp only [use, hinstall]
      exact install_evolves hinstall
    | error d =>
      simp only [use, hinstall]
      exact .refl _
  | handOver e' => exact .refl _

theorem use_undergoes (e : Engine) (u : Use) : e.context.Undergoes (e.use u).context := by
  cases u with
  | deed d => exact .deed _ d
  | _ => exact (use_evolves e (by rintro d ⟨⟩)).undergoes

/-- **Whatever an engine is used for, its context undergoes nothing but deeds.** -/
theorem Later.undergoes {e e' : Engine} (h : e.Later e') : e.context.Undergoes e'.context := by
  induction h with
  | refl => exact .refl _
  | use _ u ih => exact ih.trans (use_undergoes _ u)
  | course _ hcourse ih => exact ih.trans hcourse.undergoes

end Engine

end Compositor
