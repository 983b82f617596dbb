import Compositor.Proofs.Engine.Frozen
import Compositor.Proofs.Engine.Legality

/-!
# The two records of the magnification

The magnification is a field of the context, outside of all groups, and it is the count register `mag` as well, which has a
value in each of the open groups. An assignment writes both records, but the end of a group takes back the register alone.
So what the records are is a matter of the history: of the assignments and of the beginnings and ends of groups, which the
trace tells.

* `Records.after` is the history of the records, entry by entry;
* `Course.accounts` says that the engine writes no other history, since no command but the one for the magnification gets at
  its register (`WorkStep.accounts`);
* `Engine.Visits` are the states which come up in runs, and between them;
* `magnification_records` is the statement about all runs with the built-in primitives.
-/

namespace Compositor

open Compositor.Measure

/-! ## Records and their history -/

/-- The records of the magnification: the one outside of all groups, and the registers of the open groups, the innermost
first. -/
structure Records where
  magnification : Int64
  registers : List Int64
deriving DecidableEq, Repr

namespace Records

def note (r : Records) : TraceEntry → Records
  | .groupOpened => { r with registers := r.registers.head?.toList ++ r.registers }
  | .groupClosed => { r with registers := r.registers.tail }
  | .magnified v globally =>
    { magnification := v
      registers := if globally then r.registers.map fun _ => v else v :: r.registers.tail }
  | _ => r

def after (r : Records) (trace : List TraceEntry) : Records := trace.foldr (fun entry r => r.note entry) r

def initial : Records := ⟨1000, [1000]⟩

/-- All registers are what the magnification is. -/
def Agree (r : Records) : Prop := ∀ v ∈ r.registers, v = r.magnification

variable {r : Records} {entry : TraceEntry}

theorem after_append (r : Records) (new old : List TraceEntry) : r.after (new ++ old) = (r.after old).after new :=
  List.foldr_append

theorem after_cons (r : Records) (entry : TraceEntry) (old : List TraceEntry) :
    r.after (entry :: old) = (r.after old).note entry := rfl

/-- Records which agree do so after everything but a local assignment in a group. -/
theorem Agree.note (h : r.Agree) (hentry : ∀ v, entry = .magnified v false → r.registers.length = 1) :
    (r.note entry).Agree := by
  cases entry with
  | groupOpened =>
    intro v hv
    rcases List.mem_append.1 hv with hv | hv
    · exact h v (List.mem_of_mem_head? (Option.mem_toList.1 hv))
    · exact h v hv
  | groupClosed => exact fun v hv => h v (List.mem_of_mem_tail hv)
  | magnified v globally =>
    cases globally with
    | true =>
      intro u hu
      obtain ⟨_, -, rfl⟩ := List.mem_map.1 hu
      rfl
    | false =>
      have htail : r.registers.tail = [] := by
        rw [← List.length_eq_zero_iff, List.length_tail, hentry v rfl]
      intro u hu
      have hmem : u ∈ v :: r.registers.tail := hu
      rw [htail] at hmem
      exact List.mem_singleton.1 hmem
  | _ => exact h

theorem agree_initial : initial.Agree := by
  intro v hv
  exact List.mem_singleton.1 hv

/-- Records agree in all groups, if every assignment has been global or outside of groups. -/
theorem Agree.after {trace : List TraceEntry} (h : r.Agree)
    (htrace : ∀ v earlier, .magnified v false :: earlier <:+ trace → (r.after earlier).registers.length = 1) :
    (r.after trace).Agree := by
  induction trace with
  | nil => exact h
  | cons entry trace ih =>
    have hearlier := ih fun v earlier hsuffix => htrace v earlier (hsuffix.trans (List.suffix_cons _ _))
    refine hearlier.note fun v hv => htrace v trace ?_
    rw [hv]

/-- The magnification, and the register in the innermost group. -/
def current (r : Records) : Int64 × Option Int64 := (r.magnification, r.registers.head?)

/-- Only the end of a group and an assignment can make a difference to the current records. -/
theorem current_note (r : Records) (hclosed : entry ≠ .groupClosed) (hmagnified : ∀ v globally, entry ≠ .magnified v globally) :
    (r.note entry).current = r.current := by
  cases entry with
  | groupOpened => cases hregisters : r.registers <;> simp [current, Records.note, hregisters]
  | groupClosed => exact absurd rfl hclosed
  | magnified v globally => exact absurd rfl (hmagnified v globally)
  | _ => rfl

theorem current_after (r : Records) {trace : List TraceEntry} (hclosed : .groupClosed ∉ trace)
    (hmagnified : ∀ v globally, .magnified v globally ∉ trace) : (r.after trace).current = r.current := by
  induction trace with
  | nil => rfl
  | cons entry trace ih =>
    have hearlier := ih (fun hmem => hclosed (List.mem_cons_of_mem _ hmem))
      fun v globally hmem => hmagnified v globally (List.mem_cons_of_mem _ hmem)
    rw [after_cons, current_note, hearlier]
    · rintro rfl
      exact hclosed (List.mem_cons_self ..)
    · rintro v globally rfl
      exact hmagnified v globally (List.mem_cons_self ..)

/-- After an assignment both current records are its value, whatever they have been. -/
theorem eq_of_current_magnified {v w u : Int64} {globally : Bool}
    (h : (r.note (.magnified v globally)).current = (w, some u)) : w = v ∧ u = v := by
  obtain ⟨rfl, hregister⟩ := Prod.mk.inj h
  refine ⟨rfl, ?_⟩
  cases globally with
  | true =>
    have hmem : u ∈ r.registers.map fun _ => v := List.mem_of_mem_head? hregister
    obtain ⟨_, -, rfl⟩ := List.mem_map.1 hmem
    rfl
  | false => exact (Option.some.inj hregister).symm

end Records

/-! ## The records of a context -/

namespace Context

variable {c c' : Context} {v : Int64}

def records (c : Context) : Records := ⟨c.magnification, c.snapshots.values (.key (.count "mag"))⟩

theorem head?_registers (c : Context) : c.records.registers.head? = some (c.count "mag") := by
  have hhead : c.records.registers.head? = some (c.snapshots.top (.key (.count "mag"))) := Snapshots.head?_values ..
  rw [hhead, snapshots_top]
  rfl

theorem current_records (c : Context) : c.records.current = (c.magnification, some (c.count "mag")) := by
  rw [← head?_registers]
  rfl

theorem records_eq (hmagnification : c'.magnification = c.magnification) (hsnapshots : c'.snapshots = c.snapshots) :
    c'.records = c.records := by
  unfold records
  rw [hmagnification, hsnapshots]

theorem records_assign_of_ne {s : Slot} (hs : s ≠ .key (.count "mag")) (v : s.Value) (globally : Bool) :
    (c.assign s v globally).records = c.records := by
  have hregroups : c.Regroups (c.assign s v globally) := c.regroups_apply (.assign s v globally)
  unfold records
  rw [hregroups.bounds.1, snapshots_assign, Snapshots.values_assign_of_ne hs.symm]

theorem records_openGroup (c : Context) (kind : GroupKind) (place : Locator) :
    (c.openGroup kind place).records = c.records.note .groupOpened := by
  have hmagnification := (c.regroups_openGroup kind place).bounds.1
  have hhead := Snapshots.head?_values c.snapshots (.key (.count "mag"))
  simp only [records, Records.note, hmagnification, snapshots_openGroup, Snapshots.values_openGroup, hhead]
  rfl

theorem records_closeGroup {kind : GroupKind} {ts : List Token} (h : c.closeGroup kind = .ok (ts, c')) :
    c'.records = c.records.note .groupClosed := by
  have hmagnification := (Regroups.closeGroup h).bounds.1
  simp only [records, Records.note, hmagnification, values_closeGroup h]

theorem records_magnify (h : c.setMagnification v false = .ok c') (globally : Bool) :
    (c'.setCount "mag" v globally).records = c.records.note (.magnified v globally) := by
  have hset := setMagnification_eq h
  have hmagnification : (c'.setCount "mag" v globally).magnification = v := by
    rw [(c'.regroups_setCount "mag" v globally).bounds.1, hset]
  have hsnapshots : (c'.setCount "mag" v globally).snapshots =
      c.snapshots.assign (.key (.count "mag")) v globally := by
    rw [hset]
    exact snapshots_assign _ (.key (.count "mag")) v globally
  simp only [records, Records.note, hmagnification, hsnapshots, Snapshots.values_assign]

theorem new_records (id : String) (moment : Moment) : (Context.new id moment).records = Records.initial := by
  unfold records
  rw [snapshots_new, (new_bounds id moment).1]
  rfl

end Context

/-! ## Courses -/

/-- Between two states, the records have changed as the trace tells. -/
def Engine.Accounts (e e' : Engine) : Prop :=
  ∃ new, e'.trace = new ++ e.trace ∧ e'.context.records = e.context.records.after new

section Courses

variable {strict : Prop} {l : Level} {o : Option Stop} {e e₁ e' : Engine}

namespace Engine.Accounts

theorem of_eq (htrace : e'.trace = e.trace) (hrecords : e'.context.records = e.context.records) : e.Accounts e' :=
  ⟨[], htrace, hrecords⟩

theorem trans (h : e.Accounts e₁) (h' : e₁.Accounts e') : e.Accounts e' := by
  obtain ⟨new, htrace, hrecords⟩ := h
  obtain ⟨new', htrace', hrecords'⟩ := h'
  refine ⟨new' ++ new, by rw [htrace', htrace, List.append_assoc], ?_⟩
  rw [hrecords', hrecords, Records.after_append]

end Engine.Accounts

theorem ScanStep.accounts (h : ScanStep strict e e') : e.Accounts e' := by
  refine .of_eq h.trace_eq ?_
  cases h with
  | @defineRelax t _ id _ => exact Context.records_assign_of_ne (s := .key (.meaning t)) nofun _ false
  | lockMagnification h =>
    refine Context.records_eq ?_ ?_ <;> rw [Context.setMagnification_eq h]
    rfl
  | setInteraction mode => exact Context.records_assign_of_ne (s := .interaction) nofun mode true
  | pushText text source => rw [e.pushText_context]
  | _ => rfl

/-- No command but the one for the magnification gets at its register. -/
theorem WorkStep.accounts (h : WorkStep strict e e') (hs : strict) : e.Accounts e' := by
  let c := e.context
  cases h with
  | @assign k v hk _ globally =>
    have hne : Slot.key k ≠ .key (.count "mag") := by
      rintro heq
      cases heq
      cases hk
    have hset : c.set k v globally = c.assign (.key k) v globally := by
      cases k <;> first | rfl | cases hk
    have hrecords := Context.records_assign_of_ne (c := c) hne v globally
    rw [← hset] at hrecords
    exact .of_eq rfl hrecords
  | @setCount name h v globally =>
    have hne : Slot.key (.count name) ≠ .key (.count "mag") := by
      rintro heq
      cases heq
      exact h hs rfl
    exact .of_eq rfl (Context.records_assign_of_ne hne v globally)
  | @setMeaning t m _ globally =>
    exact .of_eq rfl (Context.records_assign_of_ne (s := .key (.meaning t)) nofun (some m) globally)
  | openGroup kind place => exact ⟨[.groupOpened], rfl, c.records_openGroup kind place⟩
  | closeGroup h => exact ⟨[.groupClosed], rfl, Context.records_closeGroup h⟩
  | @afterGroupToken t _ =>
    exact .of_eq rfl (Context.records_eq (c.regroups_afterGroupToken t).bounds.1 (c.snapshots_afterGroupToken t))
  | setInteraction mode => exact .of_eq rfl (Context.records_assign_of_ne (s := .interaction) nofun mode true)
  | setStyle style globally => exact .of_eq rfl (Context.records_assign_of_ne (s := .style) nofun style globally)
  | setSpace space globally => exact .of_eq rfl (Context.records_assign_of_ne (s := .space) nofun space globally)
  | @setMagnification v _ name h hname globally =>
    obtain rfl := hname hs
    exact ⟨[.magnified v globally], rfl, Context.records_magnify h globally⟩
  | keepFont target name font _ globally =>
    let c₁ := c.setMeaning target (some (.primitive e.serial target.name (.command (.selectFont name)))) globally
    have hmeaning : c₁.records = c.records :=
      Context.records_assign_of_ne (s := .key (.meaning target)) nofun (some _) globally
    have hfont : (c₁.set (.font target.name) (some font) globally).records = c₁.records :=
      Context.records_assign_of_ne (s := .key (.font target.name)) nofun (some font) globally
    exact ⟨[.fontLoaded e.serial target.name font globally], rfl, hfont.trans hmeaning⟩
  | storeBox name box globally =>
    exact ⟨[_], rfl, Context.records_assign_of_ne (s := .key (.box name)) nofun box globally⟩
  | deliverBox name keeps =>
    refine ⟨[_], rfl, ?_⟩
    rcases e.deliverBox_context name keeps with heq | heq <;> rw [heq]
    · rfl
    · exact Context.records_assign_of_ne (s := .key (.box name)) nofun none false
  | pushText text source =>
    obtain ⟨input, heq⟩ := e.pushText_eq text source
    rw [heq]
    exact .of_eq rfl rfl
  | dispatch | dispatchSpace | executeGroup | toggled | closed => exact ⟨[_], rfl, rfl⟩
  | gather => exact ⟨[_, _], rfl, rfl⟩
  | _ => exact .of_eq rfl rfl

/-- **The records are what the trace tells.** -/
theorem Course.accounts (h : Course strict l o e e') (hs : strict) : e.Accounts e' := by
  induction h with
  | refl => exact .of_eq rfl rfl
  | scan _ hstep ih => exact ih.trans hstep.accounts
  | work _ _ hstep ih => exact ih.trans (hstep.accounts hs)
  | exhausted _ ih | restore _ _ ih => exact ih
  | stop _ _ ih | answer _ _ _ ih | say _ _ _ ih | consent _ ih => exact ih.trans ⟨[_], rfl, rfl⟩
  | refuse _ _ _ ih | exceed _ _ _ _ ih | consult _ _ _ _ ih | dismiss _ _ _ _ ih | decline _ _ ih =>
    exact ih.trans ⟨[_, _], rfl, rfl⟩
  | @forgive l e e₁ e₂ d line script n _ _ _ _ _ _ ih ih' =>
    have hanswered : e₁.Accounts (e₁.hear (.delete n) script) := ⟨[_], rfl, rfl⟩
    have hforgiven : e₂.Accounts (e₂.record (.forgiven d)) := ⟨[_], rfl, rfl⟩
    exact ((ih.trans hanswered).trans ih').trans hforgiven
  | decide _ _ _ ih ih' | branch _ _ _ _ ih ih' => exact ih.trans ih'
  | box _ _ _ _ _ ih ih' => exact ih.trans ih'

theorem Outcome.accounts {r : EStateM.Result (Interrupted Unit) Engine Unit} (h : Outcome strict e r) (hs : strict) :
    e.Accounts (finalState r) := by
  cases h with
  | unprepared => exact ⟨[_], rfl, rfl⟩
  | stopped h => exact h.accounts hs
  | unclosed h hreport => exact (h.accounts hs).trans (hreport.accounts hs)
  | ended h hreport => exact (h.accounts hs).trans (hreport.accounts hs)

theorem Outcome.proper {r : EStateM.Result (Interrupted Unit) Engine Unit} (h : Outcome strict e r) (hs : strict)
    (he : e.Proper) : (finalState r).Proper := by
  have hbegin : e.begin.Proper := he.of_eq rfl rfl
  cases h with
  | unprepared => exact he.of_eq rfl rfl
  | stopped h => exact clearInput_proper (h.proper hs hbegin)
  | unclosed h hreport => exact hreport.proper hs (clearInput_proper (h.proper hs hbegin))
  | ended h hreport =>
    have hreported := hreport.proper hs (clearInput_proper (h.proper hs hbegin))
    exact ⟨hreported.input, hreported.context.of_groups rfl⟩

end Courses

/-! ## Runs -/

namespace Engine

/-- The states which come up in runs, and between them. -/
inductive Visits (e : Engine) : Engine → Prop where
  | refl : Visits e e
  | runText {e₁ : Engine} (h : Visits e e₁) (n : Nat) (text source : String) :
      Visits e (finalState (Compositor.runText (machine n) text source e₁))
  | runFile {e₁ : Engine} (h : Visits e e₁) (n : Nat) (name : String) :
      Visits e (finalState (Compositor.runFile (machine n) name e₁))
  /-- A run begins. -/
  | begin {e₁ : Engine} (h : Visits e e₁) : Visits e e₁.begin
  /-- Something is read, expanded or executed. -/
  | course {e₁ e₂ : Engine} {o : Option Stop} (h : Visits e e₁) (hcourse : Course True .working o e₁ e₂) : Visits e e₂

variable {e e₁ e' : Engine}

/-- A state in which tokens are proper, and the records are what the trace tells since another one. -/
def Continues (e e' : Engine) : Prop := e'.Proper ∧ e.Accounts e'

theorem Continues.trans (h : e.Continues e₁) (h' : e₁.Continues e') : e.Continues e' := ⟨h'.1, h.2.trans h'.2⟩

theorem Proper.continues_course {o : Option Stop} (he : e.Proper) (h : Course True .working o e e') : e.Continues e' :=
  ⟨h.proper trivial he, h.accounts trivial⟩

theorem Proper.continues_run (he : e.Proper) (n : Nat) : e.Continues (finalState (run (machine n) e)) := by
  have houtcome : Outcome True e (run (machine n) e) := run_outcome n fun _ => he
  exact ⟨houtcome.proper trivial he, houtcome.accounts trivial⟩

theorem Proper.continues_runText (he : e.Proper) (n : Nat) (text source : String) :
    e.Continues (finalState (Compositor.runText (machine n) text source e)) := by
  have hpush : e.Continues (e.pushText text source) :=
    he.continues_course (.scan (.refl e) (.pushText text source))
  exact hpush.trans (hpush.1.continues_run n)

theorem Proper.continues_runFile (he : e.Proper) (n : Nat) (name : String) :
    e.Continues (finalState (Compositor.runFile (machine n) name e)) := by
  obtain ⟨o, e₁, hcourse, hlast | hrun⟩ := finalState_runFile n name True fun _ => he
  · rw [hlast]
    exact he.continues_course hcourse
  · rw [hrun]
    exact (he.continues_course hcourse).trans ((he.continues_course hcourse).1.continues_run n)

theorem Visits.continues (h : e.Visits e') (he : e.Proper) : e.Continues e' := by
  induction h with
  | refl => exact ⟨he, .of_eq rfl rfl⟩
  | runText _ n text source ih => exact ih.trans (ih.1.continues_runText n text source)
  | runFile _ n name ih => exact ih.trans (ih.1.continues_runFile n name)
  | begin _ ih => exact ⟨ih.1.of_eq rfl rfl, ih.2⟩
  | course _ hcourse ih => exact ih.trans (ih.1.continues_course hcourse)

/-! ## New engines -/

theorem setDefault_records {name : String} (h : name ≠ "mag") (e : Engine) (v : DefaultValue) :
    (e.setDefault name v).context.records = e.context.records := by
  cases v with
  | count n => exact Context.records_assign_of_ne (s := .key (.count name)) (fun heq => h (by cases heq; rfl)) n true
  | dimen l => exact Context.records_assign_of_ne (s := .key (.dimen name)) nofun l true
  | glue g => exact Context.records_assign_of_ne (s := .key (.glue name)) nofun g true

theorem new_records (c : Context) (settings : Settings) : (Engine.new c settings).context.records = c.records := by
  let frozen := c.setMeaning frozenRelaxToken (some .frozenRelax) true
  let bounded := frozen.setMaxMagnification settings.maxMagnification
  have hfrozen : frozen.records = c.records :=
    Context.records_assign_of_ne (s := .key (.meaning frozenRelaxToken)) nofun (some .frozenRelax) true
  have hbounded : bounded.records = frozen.records := by
    show (frozen.setMaxMagnification settings.maxMagnification).records = _
    unfold Context.setMaxMagnification
    split <;> rfl
  have hinteraction : (bounded.setInteraction settings.interaction true).records = bounded.records :=
    Context.records_assign_of_ne (s := .interaction) nofun settings.interaction true
  exact hinteraction.trans (hbounded.trans hfrozen)

theorem install_builtin_records (id : String) (moment : Moment) (settings : Settings) (files : FileStore)
    (fonts : FontSource) (search : NameSearch) (handler : Handler) (console : Console) :
    ∃ e, Engine.install { Engine.new (Context.new id moment) settings with files, fonts, search, handler, console }
      Declaration.builtin = .ok e ∧ e.Proper ∧ e.trace = [] ∧ e.context.records = Records.initial := by
  obtain ⟨e, hinstall, hproper, htrace⟩ := Engine.install_builtin id moment settings files fonts search handler console
  let fresh : Engine := { Engine.new (Context.new id moment) settings with files, fonts, search, handler, console }
  have hfresh : fresh.context.records = Records.initial := (new_records _ settings).trans (Context.new_records id moment)
  obtain ⟨e', hinstall', hrecords⟩ : ∃ e', fresh.install Declaration.builtin = .ok e' ∧ e'.context.records = Records.initial := by
    refine install_ok (P := fun e => e.context.records = Records.initial) (fun e name p _ he => ?_)
      (fun e name v hname he => (setDefault_records hname e v).trans he) Declaration.isFaultless_of_mem_builtin hfresh
    rw [← he]
    exact Context.records_assign_of_ne (s := .key (.meaning (.controlSequence name ""))) nofun
      (some (.primitive e.serial name p)) true
  obtain rfl : e' = e := Except.ok.inj (hinstall'.symm.trans hinstall)
  exact ⟨e', hinstall, hproper, htrace, hrecords⟩

end Engine

/-! ## The main statement -/

/-- **What the two records of the magnification are.** In all states of all runs of a new engine with the built-in
primitives, whatever is read and whatever the handler of errors does, the magnification and its register in each of the open
groups are what the history of assignments and groups makes of them.

They agree in all groups if every assignment has been global or outside of groups. They agree after every assignment until
a group ends. The end of a group leaves the magnification as it is, and the register is that of the group around it. -/
theorem magnification_records (id : String) (moment : Moment) (settings : Settings) (files : FileStore)
    (fonts : FontSource) (search : NameSearch) (handler : Handler) (console : Console) :
    ∃ e, Engine.install { Engine.new (Context.new id moment) settings with files, fonts, search, handler, console }
        Declaration.builtin = .ok e ∧
      ∀ e', e.Visits e' →
        e'.context.records = Records.initial.after e'.trace ∧
        ((∀ v earlier, .magnified v false :: earlier <:+ e'.trace →
            (Records.initial.after earlier).registers.length = 1) →
          e'.context.records.Agree ∧ e'.context.count "mag" = e'.context.magnification) ∧
        (∀ later v globally earlier, e'.trace = later ++ .magnified v globally :: earlier → .groupClosed ∉ later →
          (∀ u globally, .magnified u globally ∉ later) →
          e'.context.magnification = v ∧ e'.context.count "mag" = v) ∧
        ∀ later earlier, e'.trace = later ++ .groupClosed :: earlier → .groupClosed ∉ later →
          (∀ u globally, .magnified u globally ∉ later) →
          e'.context.magnification = (Records.initial.after earlier).magnification ∧
            (Records.initial.after earlier).registers.tail.head? = some (e'.context.count "mag") := by
  obtain ⟨e, hinstall, hproper, htrace, hrecords⟩ :=
    Engine.install_builtin_records id moment settings files fonts search handler console
  refine ⟨e, hinstall, fun e' hvisits => ?_⟩
  have hhistory : e'.context.records = Records.initial.after e'.trace := by
    obtain ⟨new, htrace', hrecords'⟩ := (hvisits.continues hproper).2
    rw [hrecords', hrecords, htrace', htrace, List.append_nil]
  have hcurrent : (Records.initial.after e'.trace).current = (e'.context.magnification, some (e'.context.count "mag")) := by
    rw [← hhistory, Context.current_records]
  refine ⟨hhistory, fun hlocal => ?_, fun later v globally earlier hsplit hclosed hmagnified => ?_,
    fun later earlier hsplit hclosed hmagnified => ?_⟩
  · have hagree : e'.context.records.Agree := hhistory ▸ Records.agree_initial.after hlocal
    exact ⟨hagree, hagree _ (List.mem_of_mem_head? e'.context.head?_registers)⟩
  · rw [hsplit, Records.after_append, Records.current_after _ hclosed hmagnified] at hcurrent
    exact Records.eq_of_current_magnified hcurrent
  · rw [hsplit, Records.after_append, Records.current_after _ hclosed hmagnified] at hcurrent
    exact ⟨(Prod.mk.inj hcurrent).1.symm, (Prod.mk.inj hcurrent).2⟩

/-- A new engine with the built-in primitives. -/
def Engine.equipped : Option Engine :=
  let fresh := Engine.new (Context.new "" ⟨1776, 7, 4, 12, 0⟩) {}
  (Engine.install { fresh with files := {}, fonts := .schematic, handler := .recorder 0, console := {} }
    Declaration.builtin).toOption

def Engine.ran (e : Engine) (text : String) : Engine := finalState (runText (machine 20) text "" e)

theorem Engine.equipped_of_install {e : Engine}
    (h : Engine.install { Engine.new (Context.new "" ⟨1776, 7, 4, 12, 0⟩) {} with
      files := {}, fonts := .schematic, handler := .recorder 0, console := {} } Declaration.builtin = .ok e) :
    Engine.equipped = some e := by
  simp only [Engine.equipped, h]
  rfl

theorem equipped_ran_magnifications :
    (Engine.equipped.map fun e =>
      let e' := e.ran "\x7b\\mag=2000 \x7d"
      (((e'.context.depth, e'.context.count "mag", e'.context.magnification), e'.trace), (e.ran "\\mag=2000 ").trace)) =
    some (((0, 1000, 2000), [.dispatched .blank [], .groupClosed, .dispatched (.character .rightBrace '\x7d') [],
      .magnified 2000 false, .dispatched (.controlSequence "mag" "") [], .groupOpened,
      .dispatched (.character .leftBrace '\x7b') []]),
      [.magnified 2000 false, .dispatched (.controlSequence "mag" "") []]) := by
  decide +kernel

/-- The magnification is assigned outside of groups by one run, and within a group by another one. -/
theorem magnification_records_of_runs :
    ∃ e, Engine.equipped = some e ∧ (e.ran "\\mag=2000 ").context.records.Agree ∧
      (e.ran "\\mag=2000 ").context.magnification = 2000 ∧ (e.ran "\\mag=2000 ").context.count "mag" = 2000 ∧
      (e.ran "\x7b\\mag=2000 \x7d").context.magnification = 2000 ∧
      (e.ran "\x7b\\mag=2000 \x7d").context.count "mag" = 1000 := by
  obtain ⟨e, hinstall, hrecords⟩ :=
    magnification_records "" ⟨1776, 7, 4, 12, 0⟩ {} {} .schematic (fun _ _ => []) (.recorder 0) {}
  have hequipped := Engine.equipped_of_install hinstall
  have hran := equipped_ran_magnifications
  rw [hequipped] at hran
  obtain ⟨hinner, houter⟩ := Prod.mk.inj (Option.some.inj hran)
  obtain ⟨-, hagree, hassigned, -⟩ := hrecords _ (.runText .refl 20 "\\mag=2000 " "")
  obtain ⟨-, -, -, hclosed⟩ := hrecords _ (.runText .refl 20 "\x7b\\mag=2000 \x7d" "")
  have hvalues := hassigned [] 2000 false _ houter (by simp) (by simp)
  have hrestored := hclosed [_] _ (Prod.mk.inj hinner).2 (by simp) (by simp)
  refine ⟨e, hequipped, (hagree fun v earlier hsuffix => ?_).1, hvalues.1, hvalues.2, hrestored.1, ?_⟩
  · have hmem : (.magnified v false : TraceEntry) :: earlier <:+
        [.magnified 2000 false, .dispatched (.controlSequence "mag" "") []] := houter ▸ hsuffix
    have hearlier : earlier = [.dispatched (.controlSequence "mag" "") []] := by
      simp only [List.suffix_cons_iff, List.cons.injEq, reduceCtorEq, List.suffix_nil, false_and, or_false] at hmem
      exact hmem.2
    rw [hearlier]
    rfl
  · exact (Option.some.inj hrestored.2).symm

/-- A group takes back the register which was assigned in it, but not the magnification. -/
theorem magnification_outlives_group :
    (Engine.equipped.map fun e =>
      let e' := e.ran "\x7b\\mag=2000 \x7d"
      (e'.context.depth, e'.context.count "mag", e'.context.magnification)) = some (0, 1000, 2000) := by
  have hgroup := congrArg (Option.map (·.1.1)) equipped_ran_magnifications
  rw [Option.map_map] at hgroup
  exact hgroup

end Compositor
