import Compositor.Proofs.Engine.Arithmetic
import Compositor.Proofs.Engine.Records
import Mathlib.Logic.Relation

/-!
# Where meanings, fonts and boxes come from

Meanings are kept in groups under their tokens, fonts under the names of the control sequences which they were loaded for,
and boxes under the names of their registers. A step of the engine does little to them: it makes one meaning, opens or
closes a group, keeps a font together with the meaning which selects it, stores a box, or delivers one.

* `Engine.NameStep` lists what a step does to meanings, fonts and boxes, and `Engine.Names` is a sequence of such steps;
* `Course.names` and `Engine.Visits.names` say that nothing else happens to them;
* `Context.Binds` says that a token has a meaning in one of the open groups, `Engine.NameStep.binds` where it comes from;
* `Engine.Numbered` is what all sequences keep: no meaning has a number which is still to be given.
-/

namespace Compositor

/-! ## The values of a slot -/

namespace Context

variable {c c' : Context}

theorem values_of_snapshots (h : c'.snapshots = c.snapshots) (s : Slot) : c'.values s = c.values s := by
  rw [values, h, values]

theorem values_openGroup (c : Context) (kind : GroupKind) (place : Locator) (s : Slot) :
    (c.openGroup kind place).values s = c.read s :: c.values s := by
  rw [values, snapshots_openGroup, Snapshots.values_openGroup, snapshots_top, values]

/-- The meaning is bound to a token in one of the open groups. -/
def Binds (c : Context) (m : Meaning) : Prop := ∃ t, some m ∈ c.values (.key (.meaning t))

/-- A token has a meaning of its own or that of the token of the same name in the default name space. -/
theorem binds_of_meaning {t : Token} {m : Meaning} (h : c.meaning t = some m) : c.Binds m := by
  have hmem : ∀ u, c.get (.meaning u) = some m → c.Binds m := fun u hu => by
    refine ⟨u, List.mem_of_mem_head? ?_⟩
    rw [head?_values]
    exact congrArg some hu
  unfold meaning at h
  split at h
  · next heq =>
    cases h
    exact hmem t heq
  · split at h
    · exact hmem _ h
    · cases h

/-- An assignment gives a token its value in one group or in all of them. -/
theorem mem_values_assign {c : Context} {s : Slot} {v w : s.Value} {globally : Bool}
    (h : w ∈ (c.assign s v globally).values s) : w = v ∨ w ∈ c.values s := by
  rw [values_assign, assigned] at h
  split at h
  · obtain ⟨_, -, rfl⟩ := List.mem_map.1 h
    exact .inl rfl
  · exact (List.mem_cons.1 h).imp_right List.mem_of_mem_tail

theorem binds_setMeaning {t : Token} {m m' : Meaning} {globally : Bool}
    (h : (c.setMeaning t (some m) globally).Binds m') : m' = m ∨ c.Binds m' := by
  obtain ⟨u, hu⟩ := h
  by_cases ht : u = t
  · subst ht
    exact (mem_values_assign (s := .key (.meaning u)) (v := some m) hu).imp Option.some.inj fun hmem => ⟨u, hmem⟩
  · have hne : Slot.key (.meaning u) ≠ .key (.meaning t) := fun heq => ht (Key.meaning.inj (Slot.key.inj heq))
    exact .inr ⟨u, c.values_assign_of_ne (.key (.meaning t)) (some m) globally hne ▸ hu⟩

theorem binds_of_values (h : ∀ t, c'.values (.key (.meaning t)) = c.values (.key (.meaning t))) {m : Meaning}
    (hm : c'.Binds m) : c.Binds m := by
  obtain ⟨t, ht⟩ := hm
  exact ⟨t, h t ▸ ht⟩

theorem binds_openGroup {kind : GroupKind} {place : Locator} {m : Meaning} (h : (c.openGroup kind place).Binds m) :
    c.Binds m := by
  obtain ⟨t, ht⟩ := h
  rw [values_openGroup] at ht
  rcases List.mem_cons.1 ht with hread | hmem
  · exact ⟨t, List.mem_of_mem_head? (hread ▸ c.head?_values _)⟩
  · exact ⟨t, hmem⟩

theorem binds_closeGroup {kind : GroupKind} {ts : List Token} (hclose : c.closeGroup kind = .ok (ts, c')) {m : Meaning}
    (h : c'.Binds m) : c.Binds m := by
  obtain ⟨t, ht⟩ := h
  rw [values, values_closeGroup hclose] at ht
  exact ⟨t, List.mem_of_mem_tail ht⟩

end Context

/-! ## Steps -/

/-- The slot is that of a meaning, of a font or of a box. -/
def Slot.isNamed : Slot → Bool
  | key (.meaning _) | key (.font _) | key (.box _) => true
  | _ => false

/-- The entry tells nothing about groups, fonts and boxes. -/
def TraceEntry.isQuiet : TraceEntry → Bool
  | groupOpened | groupClosed | fontLoaded _ _ _ _ | boxStored _ _ _ | boxTaken _ _ _ => false
  | _ => true

/-- Meanings, fonts and boxes are the same in all groups. -/
def Context.SameNames (c c' : Context) : Prop := ∀ s : Slot, s.isNamed = true → c'.values s = c.values s

theorem Context.sameNames_assign (c : Context) {s : Slot} (hs : s.isNamed = false) (v : s.Value) (globally : Bool) :
    c.SameNames (c.assign s v globally) := c.values_assign_of_class Slot.isNamed hs v globally

namespace Engine

/-- What happens to meanings, fonts and boxes in a step. -/
inductive NameStep (e : Engine) : Engine → Prop where
  | quiet {e' : Engine} (hvalues : e.context.SameNames e'.context) (hserial : e.serial ≤ e'.serial) (new : List TraceEntry)
      (hnew : ∀ entry ∈ new, entry.isQuiet = true) (htrace : e'.trace = new ++ e.trace) : NameStep e e'
  /-- A token gets a meaning. -/
  | meaning (t : Token) {m : Meaning} (globally : Bool) (harises : m.Arises e) :
      NameStep e (e.modifyContext (·.setMeaning t (some m) globally))
  | opened (kind : GroupKind) (place : Locator) : NameStep e (e.enterGroup kind place)
  | closed {kind : GroupKind} {ts : List Token} {outside : Context} (h : e.context.closeGroup kind = .ok (ts, outside)) :
      NameStep e (e.leaveGroup outside)
  /-- A font is kept, and a token gets a meaning which selects it. -/
  | font (target : Token) (name : String) (font : Font) (fonts : FontSource) (globally : Bool) :
      NameStep e (e.keepFont target name font fonts globally)
  | stored (name : String) (box : Option Box) (globally : Bool) : NameStep e (e.storeBox name box globally)
  | delivered (name : String) (keeps : Bool) : NameStep e (e.deliverBox name keeps)

/-- What happens to meanings, fonts and boxes in some steps. -/
def Names : Engine → Engine → Prop := Relation.ReflTransGen NameStep

theorem values_storeBox (e : Engine) (name : String) (box : Option Box) (globally : Bool) :
    (e.storeBox name box globally).context.values (.key (.box name)) =
      assigned (e.context.values (.key (.box name))) box globally :=
  e.context.values_assign (.key (.box name)) box globally

theorem values_storeBox_of_ne (e : Engine) (name : String) (box : Option Box) (globally : Bool) {s : Slot}
    (hs : s ≠ .key (.box name)) : (e.storeBox name box globally).context.values s = e.context.values s :=
  e.context.values_assign_of_ne (.key (.box name)) box globally hs

/-- A register which has been void stays so without an assignment. -/
theorem values_deliverBox (e : Engine) (name : String) :
    (e.deliverBox name false).context.values (.key (.box name)) =
      assigned (e.context.values (.key (.box name))) none false := by
  cases hbox : e.context.box name with
  | some box =>
    have hcontext : (e.deliverBox name false).context = e.context.set (.box name) (none : Option Box) false := by
      simp [deliverBox, hbox]
    rw [hcontext]
    exact e.context.values_assign (.key (.box name)) none false
  | none =>
    have hcontext : (e.deliverBox name false).context = e.context := by simp [deliverBox, hbox]
    have hhead := e.context.head?_values (.key (.box name))
    have hread : e.context.read (.key (.box name)) = none := hbox
    rw [hcontext, assigned, if_neg (by simp)]
    rw [hread] at hhead
    exact List.eq_cons_of_mem_head? hhead

theorem values_deliverBox_of_ne (e : Engine) (name : String) (keeps : Bool) {s : Slot} (hs : s ≠ .key (.box name)) :
    (e.deliverBox name keeps).context.values s = e.context.values s := by
  rcases e.deliverBox_context name keeps with heq | heq <;> rw [heq]
  exact e.context.values_assign_of_ne (.key (.box name)) none false hs

end Engine

section Courses

variable {strict : Prop} {l : Level} {o : Option Stop} {e e₁ e' : Engine}

open Engine (NameStep Names)

theorem Engine.NameStep.of_snapshots (hsnapshots : e'.context.snapshots = e.context.snapshots)
    (hserial : e.serial ≤ e'.serial) (new : List TraceEntry) (hnew : ∀ entry ∈ new, entry.isQuiet = true)
    (htrace : e'.trace = new ++ e.trace) : NameStep e e' :=
  .quiet (fun s _ => Context.values_of_snapshots hsnapshots s) hserial new hnew htrace

theorem ScanStep.nameStep (h : ScanStep strict e e') : NameStep e e' := by
  cases h with
  | pushTokens | pull | console | halt => exact .of_snapshots rfl (Nat.le_refl _) [] (by simp) rfl
  | freshId => exact .of_snapshots rfl (Nat.le_succ _) [] (by simp) rfl
  | endBranch => exact .of_snapshots rfl (Nat.le_refl _) [] (by simp) rfl
  | @defineRelax t _ id hid => exact .meaning t false (.relax hid)
  | lockMagnification h =>
    refine .of_snapshots ?_ (Nat.le_refl _) [] (by simp) rfl
    rw [Context.setMagnification_eq h]
    rfl
  | pushText text source =>
    obtain ⟨input, heq⟩ := e.pushText_eq text source
    rw [heq]
    exact .of_snapshots rfl (Nat.le_refl _) [] (by simp) rfl
  | setInteraction mode =>
    exact .quiet (e.context.sameNames_assign (s := .interaction) rfl mode true) (Nat.le_refl _) [] (by simp) rfl

theorem WorkStep.nameStep (h : WorkStep strict e e') : NameStep e e' := by
  have hassign : ∀ (s : Slot) (v : s.Value) (globally : Bool), s.isNamed = false →
      NameStep e (e.modifyContext (·.assign s v globally)) := fun s v globally hs =>
    .quiet (e.context.sameNames_assign hs v globally) (Nat.le_refl _) [] (by simp) rfl
  cases h with
  | @assign k v hk _ globally =>
    have hset : e.context.set k v globally = e.context.assign (.key k) v globally := by
      cases k <;> first | rfl | cases hk
    have hnamed : (Slot.key k).isNamed = false := by cases k <;> first | rfl | cases hk
    rw [Engine.modifyContext, hset]
    exact hassign (.key k) v globally hnamed
  | @setCount name _ v globally => exact hassign (.key (.count name)) v globally rfl
  | setMeaning t _ globally harises => exact .meaning t globally harises
  | openGroup kind place => exact .opened kind place
  | closeGroup h => exact .closed h
  | @afterGroupToken t _ =>
    exact .of_snapshots (e.context.snapshots_afterGroupToken t) (Nat.le_refl _) [] (by simp) rfl
  | setInteraction mode => exact hassign .interaction mode true rfl
  | setStyle style globally => exact hassign .style style globally rfl
  | setSpace space globally => exact hassign .space space globally rfl
  | @setMagnification v c name h _ globally =>
    have hset : e.context.SameNames c := fun s _ => by
      rw [Context.setMagnification_eq h]
      rfl
    have hcount : c.SameNames (c.setCount name v globally) :=
      c.sameNames_assign (s := .key (.count name)) rfl v globally
    exact .quiet (fun s hs => (hcount s hs).trans (hset s hs)) (Nat.le_refl _) [_] (by simp [TraceEntry.isQuiet]) rfl
  | pushText text source =>
    obtain ⟨input, heq⟩ := e.pushText_eq text source
    rw [heq]
    exact .of_snapshots rfl (Nat.le_refl _) [] (by simp) rfl
  | keepFont target name font fonts globally => exact .font target name font fonts globally
  | storeBox name box globally => exact .stored name box globally
  | deliverBox name keeps => exact .delivered name keeps
  | dispatch | dispatchSpace | executeGroup | toggled | closed =>
    exact .of_snapshots rfl (Nat.le_refl _) [_] (by simp [TraceEntry.isQuiet]) rfl
  | gather => exact .of_snapshots rfl (Nat.le_refl _) [_, _] (by simp [TraceEntry.isQuiet]) rfl
  | pushDirection | popDirection | typesetter | spaceFactor | halt =>
    exact .of_snapshots rfl (Nat.le_refl _) [] (by simp) rfl

theorem Engine.Names.of_eq (hsnapshots : e'.context.snapshots = e.context.snapshots) (hserial : e.serial ≤ e'.serial)
    (new : List TraceEntry) (hnew : ∀ entry ∈ new, entry.isQuiet = true) (htrace : e'.trace = new ++ e.trace) : e.Names e' :=
  .single (.of_snapshots hsnapshots hserial new hnew htrace)

/-- **Nothing happens to meanings, fonts and boxes but such steps.** -/
theorem Course.names (h : Course strict l o e e') : e.Names e' := by
  induction h with
  | refl => exact .refl
  | scan _ hstep ih => exact ih.tail hstep.nameStep
  | work _ _ hstep ih => exact ih.tail hstep.nameStep
  | exhausted _ ih => exact ih
  | restore _ _ ih => exact ih.trans (Names.of_eq rfl (Nat.le_refl _) [] (by simp) rfl)
  | stop _ _ ih | answer _ _ _ ih | say _ _ _ ih | consent _ ih =>
    exact ih.trans (Names.of_eq rfl (Nat.le_refl _) [_] (by simp [TraceEntry.isQuiet]) rfl)
  | refuse _ _ _ ih | exceed _ _ _ _ ih | consult _ _ _ _ ih | dismiss _ _ _ _ ih | decline _ _ ih =>
    exact ih.trans (Names.of_eq rfl (Nat.le_refl _) [_, _] (by simp [TraceEntry.isQuiet]) rfl)
  | @forgive l e e₁ e₂ d line script n _ _ _ _ _ _ ih ih' =>
    have hanswered : e₁.Names (e₁.hear (.delete n) script) :=
      .of_eq rfl (Nat.le_refl _) [_] (by simp [TraceEntry.isQuiet]) rfl
    have hforgiven : e₂.Names (e₂.record (.forgiven d)) := .of_eq rfl (Nat.le_refl _) [_] (by simp [TraceEntry.isQuiet]) rfl
    exact ((ih.trans hanswered).trans ih').trans hforgiven
  | @decide l o e e₁ e₂ c _ _ _ ih ih' =>
    have hpushed : e₁.Names (e₁.modifyContext (·.pushConditional { c with evaluating := true })) :=
      .of_eq rfl (Nat.le_refl _) [] (by simp) rfl
    have hdropped : e₂.Names (e₂.modifyContext (·.dropConditional c.id)) := .of_eq rfl (Nat.le_refl _) [] (by simp) rfl
    exact ((ih.trans hpushed).trans ih').trans hdropped
  | @branch l e e₁ e₂ c _ _ _ _ ih ih' =>
    have hnumbered : e₁.Names { e₁ with serial := e₁.serial + 1 } := .of_eq rfl (Nat.le_succ _) [] (by simp) rfl
    have hpushed : e₂.Names (e₂.modifyContext (·.pushConditional c)) := .of_eq rfl (Nat.le_refl _) [] (by simp) rfl
    exact ((ih.trans hnumbered).trans ih').trans hpushed
  | @box l e e₁ e₂ m nodes t _ _ _ _ _ ih ih' =>
    have hopened : e₁.Names (e₁.modifyTypesetter (·.openList m)) := .of_eq rfl (Nat.le_refl _) [] (by simp) rfl
    have hclosed : e₂.Names { e₂ with typesetter := t } := .of_eq rfl (Nat.le_refl _) [] (by simp) rfl
    exact ((ih.trans hopened).trans ih').trans hclosed

theorem Outcome.names {r : EStateM.Result (Interrupted Unit) Engine Unit} (h : Outcome strict e r) :
    e.Names (finalState r) := by
  have hbegin : e.Names e.begin := .of_eq rfl (Nat.le_refl _) [] (by simp) rfl
  have hcleared : ∀ e₁ : Engine, e₁.Names e₁.clearInput := fun _ => .of_eq rfl (Nat.le_refl _) [] (by simp) rfl
  cases h with
  | unprepared => exact .of_eq rfl (Nat.le_refl _) [_] (by simp [TraceEntry.isQuiet]) rfl
  | stopped h => exact (hbegin.trans h.names).trans (hcleared _)
  | unclosed h hreport => exact ((hbegin.trans h.names).trans (hcleared _)).trans hreport.names
  | @ended e₁ e₂ h hreport =>
    have hconcluded : e₂.Names e₂.conclude := .of_eq rfl (Nat.le_refl _) [] (by simp) rfl
    exact (((hbegin.trans h.names).trans (hcleared _)).trans hreport.names).trans hconcluded

theorem run_names (n : Nat) (e : Engine) : e.Names (finalState (run (machine n) e)) := by
  have houtcome : Outcome False e (run (machine n) e) := run_outcome n False.elim
  exact houtcome.names

theorem runText_names (n : Nat) (text source : String) (e : Engine) :
    e.Names (finalState (runText (machine n) text source e)) := by
  have hpushed : ScanStep False e (e.pushText text source) := .pushText text source
  exact .trans (.single hpushed.nameStep) (run_names n _)

theorem runFile_names (n : Nat) (name : String) (e : Engine) : e.Names (finalState (runFile (machine n) name e)) := by
  obtain ⟨o, e₁, hcourse, hlast | hrun⟩ := finalState_runFile n name False (e := e) False.elim
  · rw [hlast]
    exact hcourse.names
  · rw [hrun]
    exact hcourse.names.trans (run_names n e₁)

theorem Engine.Visits.names (h : e.Visits e') : e.Names e' := by
  induction h with
  | refl => exact .refl
  | runText _ n text source ih => exact ih.trans (runText_names n text source _)
  | runFile _ n name ih => exact ih.trans (runFile_names n name _)
  | begin _ ih => exact ih.trans (Names.of_eq rfl (Nat.le_refl _) [] (by simp) rfl)
  | course _ hcourse ih => exact ih.trans hcourse.names

end Courses

/-! ## Numbers -/

namespace Engine

variable {e e' : Engine} {m : Meaning}

/-- No meaning has a number which is still to be given. -/
def Numbered (e : Engine) : Prop := ∀ m, e.context.Binds m → ∀ id ∈ m.number?, id < e.serial

theorem NameStep.serial_le (h : NameStep e e') : e.serial ≤ e'.serial := by
  cases h with
  | quiet _ hserial => exact hserial
  | meaning | opened | closed | stored | delivered => exact Nat.le_refl _
  | font => exact Nat.le_succ _

/-- A meaning which a token gets has been there before, or arises as an assigned one, or it selects a font which is kept
in the same step. -/
theorem NameStep.binds (h : NameStep e e') (hm : e'.context.Binds m) :
    e.context.Binds m ∨ m.Arises e ∨
      ∃ name file font globally, m = .primitive e.serial name (.command (.selectFont file)) ∧
        e'.serial = e.serial + 1 ∧ e'.trace = .fontLoaded e.serial name font globally :: e.trace := by
  cases h with
  | quiet hvalues => exact .inl (Context.binds_of_values (fun t => hvalues (.key (.meaning t)) rfl) hm)
  | meaning t globally harises =>
    rcases Context.binds_setMeaning hm with rfl | hold
    · exact .inr (.inl harises)
    · exact .inl hold
  | opened => exact .inl (Context.binds_openGroup hm)
  | closed hclose => exact .inl (Context.binds_closeGroup hclose hm)
  | font target name font fonts globally =>
    let selects := Meaning.primitive e.serial target.name (.command (.selectFont name))
    let named := e.context.setMeaning target (some selects) globally
    have hnamed : named.Binds m := Context.binds_of_values (fun t =>
      named.values_assign_of_ne (.key (.font target.name)) (some font) globally nofun) hm
    rcases Context.binds_setMeaning hnamed with rfl | hold
    · exact .inr (.inr ⟨target.name, name, font, globally, rfl, rfl, rfl⟩)
    · exact .inl hold
  | stored name box globally =>
    exact .inl (Context.binds_of_values (fun t => e.values_storeBox_of_ne name box globally nofun) hm)
  | delivered name keeps => exact .inl (Context.binds_of_values (fun t => e.values_deliverBox_of_ne name keeps nofun) hm)

theorem Numbered.arises (he : e.Numbered) (h : m.Arises e) : ∀ id ∈ m.number?, id < e.serial := by
  cases h with
  | copied hmeaning => exact he m (Context.binds_of_meaning hmeaning)
  | unnumbered hnumber => simp [hnumber]
  | register hid | relax hid => simpa [Meaning.number?] using hid

theorem Numbered.step (he : e.Numbered) (h : NameStep e e') : e'.Numbered := by
  intro m hm id hid
  rcases h.binds hm with hold | harises | ⟨name, file, font, globally, rfl, hserial, -⟩
  · exact Nat.lt_of_lt_of_le (he m hold id hid) h.serial_le
  · exact Nat.lt_of_lt_of_le (he.arises harises id hid) h.serial_le
  · obtain rfl : e.serial = id := Option.some.inj hid
    exact hserial ▸ Nat.lt_succ_self _

/-- **No meaning ever has a number which is still to be given.** -/
theorem Numbered.names (he : e.Numbered) (h : e.Names e') : e'.Numbered := by
  induction h with
  | refl => exact he
  | tail _ hstep ih => exact ih.step hstep

/-! ## New engines -/

theorem setDefault_sameNames (e : Engine) (name : String) (v : DefaultValue) :
    e.context.SameNames (e.setDefault name v).context := by
  cases v with
  | count n => exact e.context.sameNames_assign (s := .key (.count name)) rfl n true
  | dimen l => exact e.context.sameNames_assign (s := .key (.dimen name)) rfl l true
  | glue g => exact e.context.sameNames_assign (s := .key (.glue name)) rfl g true

/-- A new engine has the names of its context, and the `relax` which input cannot redefine. -/
theorem new_sameNames (c : Context) (settings : Settings) :
    (c.setMeaning frozenRelaxToken (some .frozenRelax) true).SameNames (Engine.new c settings).context := by
  let frozen := c.setMeaning frozenRelaxToken (some .frozenRelax) true
  have hbounded : (frozen.setMaxMagnification settings.maxMagnification).snapshots = frozen.snapshots := by
    unfold Context.setMaxMagnification
    split <;> rfl
  intro s hs
  have hinteraction := (frozen.setMaxMagnification settings.maxMagnification).sameNames_assign (s := .interaction) rfl
    settings.interaction true s hs
  exact hinteraction.trans (Context.values_of_snapshots hbounded s)

theorem new_binds (id : String) (moment : Moment) (settings : Settings)
    (h : (Engine.new (Context.new id moment) settings).context.Binds m) : m = .frozenRelax := by
  have hfrozen := Context.binds_of_values (fun t => new_sameNames _ settings (.key (.meaning t)) rfl) h
  refine (Context.binds_setMeaning hfrozen).resolve_right ?_
  rintro ⟨t, ht⟩
  rw [Context.values, Context.snapshots_new] at ht
  cases List.mem_singleton.1 ht

theorem Numbered.install {ds : List Declaration} (he : e.Numbered) (h : e.install ds = .ok e') : e'.Numbered := by
  refine install_preserves (P := Numbered) (fun d _ p _ e he => ?_) (fun e name v he => ?_) h he
  · intro m hm id hid
    rcases Context.binds_setMeaning hm with rfl | hold
    · obtain rfl : e.serial = id := Option.some.inj hid
      exact Nat.lt_succ_self _
    · exact Nat.lt_succ_of_lt (he m hold id hid)
  · have hserial : (e.setDefault name v).serial = e.serial := by cases v <;> rfl
    intro m hm
    rw [hserial]
    exact he m (Context.binds_of_values (fun t => setDefault_sameNames e name v (.key (.meaning t)) rfl) hm)

theorem new_numbered (id : String) (moment : Moment) (settings : Settings) :
    (Engine.new (Context.new id moment) settings).Numbered := by
  intro m hm number hnumber
  obtain rfl := new_binds id moment settings hm
  obtain rfl : Meaning.frozenId = number := Option.some.inj hnumber
  exact Nat.one_pos

end Engine

end Compositor
