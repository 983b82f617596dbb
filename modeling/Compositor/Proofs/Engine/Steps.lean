import Compositor.Proofs.Engine.Proper
import Mathlib.Data.List.Infix
import Mathlib.Tactic.Simps.Basic

/-!
# What an engine can do

Whatever the engine does is made of small changes of its state. This module lists them once, so that a statement about
all states of a run has to be checked for each change only.

* `ScanStep` is a change made while tokens are read and expanded. These leave the typesetter and the groups alone;
* `WorkStep` is a change made by a command;
* `Course` is a sequence of changes together with its outcome: what stopped it, if anything did. Some changes come in
  pairs, with other changes in between: the list of a box is closed only together with its opening (`Course.box`), and a
  conditional is on the stack for as long as its condition is evaluated (`Course.decide`).

Courses keep a state proper (`Course.proper`), the trace of the engine possible (`Course.possible`), and the lists in
which boxes are made (`Course.keeps`).
-/

namespace Compositor

/-- A place in a list is in its first part or in its second part. -/
theorem append_eq_split {α : Type} {x : α} {xs ys before after : List α} (h : xs ++ ys = before ++ x :: after) :
    (∃ mid, xs = before ++ x :: mid ∧ after = mid ++ ys) ∨ ∃ mid, before = xs ++ mid ∧ ys = mid ++ x :: after := by
  rcases List.append_eq_append_iff.1 h with ⟨mid, hbefore, hys⟩ | ⟨mid, hxs, hafter⟩
  · exact .inr ⟨mid, hbefore, hys⟩
  · cases mid with
    | nil => exact .inr ⟨[], by simpa using hxs.symm, hafter.symm⟩
    | cons y mid =>
      obtain ⟨rfl, rfl⟩ := List.cons.inj hafter
      exact .inl ⟨mid, hxs, rfl⟩

/-! ## Entries of the trace -/

/-- The entry can be in the trace of a run: only tokens of the categories 0–4, 6–8 and 10–13 are executed, there is a
group to be executed, the typesetter does what it is asked for, and no diagnostic tells an internal problem. -/
def TraceEntry.Possible : TraceEntry → Prop
  | dispatched t _ => t.cat.code ∈ [0, 1, 2, 3, 4, 6, 7, 8, 10, 11, 12, 13]
  | groupExecuted depth => 0 < depth
  | listClosed fault => fault = none
  | mathToggled fault => fault = none
  | stopped d => d.kind ≠ .internal
  | reported d => d.kind ≠ .internal
  | consulted d => d.kind ≠ .internal
  | forgiven d => d.kind ≠ .internal
  | answered _ | decided _ | gathered _ | messaged _ | groupOpened | groupClosed | magnified _ _ | fontLoaded _ _ _ _
  | boxStored _ _ _ | boxTaken _ _ _ => True

theorem possible_dispatched {t : Token} (h : t.Proper) (ks : List Conditional) :
    (TraceEntry.dispatched t ks).Possible := by
  unfold Token.Proper at h
  unfold TraceEntry.Possible
  cases hcat : t.cat <;> simp_all [Catcode.isForTokens, Catcode.code]

/-! ## The open lists of a typesetter -/

def Mode.isBox : Mode → Bool
  | internalVertical | restrictedHorizontal => true
  | _ => false

namespace Typesetter

variable {t t' : Typesetter}

def modes (t : Typesetter) : List Mode := t.nests.map Nest.mode

/-- A list in which a box is made stays open, with all lists below it. -/
def Keeps (t t' : Typesetter) : Prop := ∀ m ms, m.isBox = true → (m :: ms) <:+ t.modes → (m :: ms) <:+ t'.modes

theorem Keeps.refl (t : Typesetter) : Keeps t t := fun _ _ _ h => h

theorem Keeps.trans {t'' : Typesetter} (h : Keeps t t') (h' : Keeps t' t'') : Keeps t t'' :=
  fun m ms hm hs => h' m ms hm (h m ms hm hs)

theorem keeps_of_eq (h : t'.modes = t.modes) : Keeps t t' := fun _ _ _ hs => h ▸ hs

theorem keeps_of_push {m : Mode} (h : t'.modes = m :: t.modes) : Keeps t t' := by
  intro m' ms _ hs
  rw [h]
  exact hs.trans (List.suffix_cons m t.modes)

theorem keeps_of_pop {m : Mode} (hm : m.isBox = false) (h : t.modes = m :: t'.modes) : Keeps t t' := by
  intro m' ms hm' hs
  rw [h, List.suffix_cons_iff] at hs
  rcases hs with heq | hs
  · obtain ⟨rfl, -⟩ := List.cons.inj heq
    rw [hm] at hm'
    cases hm'
  · exact hs

theorem modes_modifyCurrent (t : Typesetter) (f : List Node → List Node) : (t.modifyCurrent f).modes = t.modes := by
  unfold modifyCurrent modes
  split <;> simp_all

theorem modes_append (t : Typesetter) (nodes : List Node) : (t.append nodes).modes = t.modes :=
  modes_modifyCurrent t _

theorem modes_record (t : Typesetter) (e : Event) : (t.record e).modes = t.modes := rfl

theorem modes_openList (t : Typesetter) (m : Mode) : (t.openList m).modes = m :: t.modes := rfl

theorem keeps_startParagraph (t : Typesetter) : Keeps t t.startParagraph := by
  unfold startParagraph
  split
  · exact keeps_of_push (modes_openList t .horizontal)
  · exact .refl t

theorem modes_endParagraph (t : Typesetter) :
    t.endParagraph.modes = t.modes ∨ t.modes = .horizontal :: t.endParagraph.modes := by
  unfold endParagraph
  split
  · exact .inl rfl
  · rename_i nest rest heq
    split
    · rename_i hmode
      rw [modes_append]
      exact .inr (by simp [modes, heq, hmode])
    · exact .inl rfl

theorem keeps_endParagraph (t : Typesetter) : Keeps t t.endParagraph := by
  rcases modes_endParagraph t with h | h
  · exact keeps_of_eq h
  · exact keeps_of_pop rfl h

/-- Starting or ending a formula opens a list or closes that of a formula. -/
theorem keeps_toggle {display : Bool} (h : t.toggle display = .ok t') : Keeps t t' := by
  have hopen : ∀ m : Mode, Keeps t ((t.startParagraph.append [.math true display]).openList m) := by
    intro m
    refine (keeps_startParagraph t).trans (keeps_of_push (m := m) ?_)
    rw [modes_openList, modes_append]
  have hbox : (if display = true then Mode.displayMath else Mode.math).isBox = false := by
    split <;> rfl
  simp only [toggle] at h
  generalize (if display = true then Mode.displayMath else Mode.math) = inside at h hbox
  rcases hnests : t.nests with _ | ⟨nest, rest⟩
  · simp only [hnests] at h
    obtain rfl := Except.ok.inj h
    exact hopen inside
  · simp only [hnests] at h
    by_cases hmode : nest.mode = inside
    · rw [if_pos hmode] at h
      obtain rfl := Except.ok.inj h
      refine keeps_of_pop hbox ?_
      rw [modes_append]
      simp [modes, hnests, hmode]
    · rw [if_neg hmode] at h
      split at h
      · cases h
      · obtain rfl := Except.ok.inj h
        exact hopen inside

/-- A formula can be started where there is none, and be ended as it was started. -/
theorem toggleMath_ok {display : Bool} (h : t.mode.isMath = true → t.mode = if display then .displayMath else .math) :
    (t.toggleMath display).1 = none := by
  unfold toggleMath toggle
  unfold mode at h
  rcases hnests : t.nests with _ | ⟨nest, rest⟩
  · simp only [record, hnests]
  · simp only [hnests] at h
    by_cases hmode : nest.mode = if display then .displayMath else .math
    · simp only [record, hnests, if_pos hmode]
    · have hmath : ¬ nest.mode.isMath = true := fun hmath => hmode (h hmath)
      simp only [record, hnests, if_neg hmode, if_neg hmath]

/-- The list in which a box was made can be closed, whatever was opened above it and is still open. -/
theorem closeList_ok {m : Mode} {ms : List Mode} (hm : m.isBox = true) (h : (m :: ms) <:+ t.modes) :
    ∃ nodes t', t.closeList = (.ok nodes, t') ∧ ms <:+ t'.modes := by
  have hkept := keeps_endParagraph t m ms hm h
  unfold closeList
  rcases hnests : t.endParagraph.nests with _ | ⟨nest, rest⟩
  · simp [modes, hnests] at hkept
  · refine ⟨nest.nodes, { t.endParagraph with nests := rest }, by simp [hnests], ?_⟩
    simp only [modes, hnests, List.map_cons, List.suffix_cons_iff, List.cons.injEq] at hkept
    rcases hkept with ⟨-, heq⟩ | hkept
    · rw [heq]
      exact List.suffix_rfl
    · exact (List.suffix_cons m ms).trans hkept

end Typesetter

/-- What a request does to a typesetter. -/
inductive TypesetterStep (t : Typesetter) : Typesetter → Prop where
  | add (style : Style) (code : Nat) : TypesetterStep t (t.add style code)
  | addSpace (style : Style) (factor : Int64) : TypesetterStep t (t.addSpace style factor)
  | addGlue (g : Measure.Glue) : TypesetterStep t (t.addGlue g)
  | addKern (d : Measure.Dimen) : TypesetterStep t (t.addKern d)
  | addPenalty (cost : Int64) : TypesetterStep t (t.addPenalty cost)
  | addBox (b : Option Box) : TypesetterStep t (t.addBox b)
  | par : TypesetterStep t t.par
  | toggleMath {display : Bool} {t' : Typesetter} (h : t.toggleMath display = (none, t')) : TypesetterStep t t'
  /-- A box is begun. -/
  | openList {m : Mode} (hm : m.isBox = true) : TypesetterStep t (t.openList m)

open Typesetter in
theorem TypesetterStep.keeps {t t' : Typesetter} (h : TypesetterStep t t') : Keeps t t' := by
  have hrecord : ∀ event, Keeps t (t.record event) := fun event => keeps_of_eq (modes_record t event)
  cases h with
  | add style code =>
    exact ((hrecord _).trans (keeps_startParagraph _)).trans (keeps_of_eq (modes_append _ _))
  | addSpace style factor =>
    refine (hrecord .space).trans ?_
    simp only [Typesetter.addSpace]
    split
    · exact .refl _
    · exact keeps_of_eq (modes_append _ _)
  | addGlue | addKern | addPenalty => exact (hrecord _).trans (keeps_of_eq (modes_append _ _))
  | addBox b =>
    refine (hrecord .box).trans ?_
    cases b with
    | none => exact .refl _
    | some b => exact keeps_of_eq (modes_append _ _)
  | par => exact (hrecord .par).trans (keeps_endParagraph _)
  | @toggleMath display _ h =>
    refine (hrecord (if display then .displayMath else .math)).trans ?_
    simp only [Typesetter.toggleMath] at h
    split at h
    · rename_i t'' htoggle
      obtain rfl := (Prod.mk.inj h).2
      exact keeps_toggle htoggle
    · cases h
  | @openList m _ => exact keeps_of_push (modes_openList t m)

/-! ## Steps -/

/-- The run is to end after the current command. -/
def Intervention.isHalt : Intervention → Bool
  | halt => true
  | _ => false

/-- A message is written. -/
def Intervention.isSpeech : Intervention → Bool
  | say _ => true
  | _ => false

/-- The handler never does anything of this kind. -/
def Handler.Avoids (p : Intervention → Bool) : Handler → Prop
  | custom answer => ∀ noted c, ∀ i ∈ (answer noted c).interventions, p i = false
  | _ => True

/-- A change of the engine while it reads and expands tokens. Where tokens are known to be proper, `strict` holds. -/
inductive ScanStep (strict : Prop) (e : Engine) : Engine → Prop where
  /-- A token is taken from the input, or an invalid character, or what is at its end. -/
  | pull {pulled : Pulled} {input : Input} (h : e.input.pull e.context.lexicon = (pulled, input)) :
      ScanStep strict e { e with input }
  | pushTokens {ts : List Token} (h : strict → ∀ t ∈ ts, t.Proper) : ScanStep strict e (e.pushTokens ts)
  | freshId : ScanStep strict e { e with serial := e.serial + 1 }
  /-- The branch of the innermost conditional ends, whose condition has been decided. -/
  | endBranch {k : Conditional} {ks : List Conditional} (h : e.context.conditionals = k :: ks)
      (hk : k.evaluating = false) : ScanStep strict e (e.modifyContext Context.popConditional)
  /-- An undefined name becomes a new `relax`. -/
  | defineRelax {t : Token} (h : e.context.meaning t = none) (id : Nat) (hid : id < e.serial) :
      ScanStep strict e (e.modifyContext (·.setMeaning t (some (.primitive id "relax" (.command .relax))) false))
  /-- The magnification is used in a dimension, and cannot be changed from now on. -/
  | lockMagnification {context : Context} (h : e.context.setMagnification e.context.magnification true = .ok context) :
      ScanStep strict e { e with context }
  /-- Something is written to the user, or an error is noted. -/
  | console {console : Console} (h : console.script = e.console.script) : ScanStep strict e { e with console }
  | pushText (text source : String) : ScanStep strict e (e.pushText text source)
  /-- The handler asks for another interaction mode. -/
  | setInteraction (mode : Interaction) : ScanStep strict e (e.modifyContext (·.setInteraction mode true))
  /-- The handler has the run end. -/
  | halt (h : ¬ e.handler.Avoids Intervention.isHalt) : ScanStep strict e { e with halted := true }

/-- The key is not that of a meaning, of a count register, of a font or of a box register, which have assignments of their
own. -/
def Key.isPlain : Key → Bool
  | meaning _ | count _ | font _ | box _ => false
  | _ => true

/-- The number by which a meaning is told apart from others. -/
def Meaning.number? : Meaning → Option Nat
  | primitive id _ _ | bare id _ => some id
  | definition _ | character _ _ | undefined _ => none

/-- Where a meaning comes from which is assigned: it is copied, or has no number, or it is made for a register or as a
`relax`. -/
inductive Meaning.Arises (e : Engine) : Meaning → Prop where
  | copied {t : Token} {m : Meaning} (h : e.context.meaning t = some m) : Arises e m
  | unnumbered {m : Meaning} (h : m.number? = none) : Arises e m
  | register {id : Nat} (hid : id < e.serial) (name : String) (kind : RegisterKind) (fixed : Option String) :
      Arises e (.primitive id name (.command (.register kind fixed)))
  | relax {id : Nat} (hid : id < e.serial) : Arises e (.primitive id "relax" (.command .relax))

namespace Engine

/-- The engine which executes a token. No words are gathered any more. -/
def dispatching (e : Engine) (t : Token) : Engine :=
  { e with modifiers := .none, trace := .dispatched t e.context.conditionals :: e.trace }

/-- The engine which has executed a word, so that it is gathered for the next assignment. -/
def gathering (e : Engine) (t : Token) (word : Modifiers) : Engine :=
  { e with
    modifiers := e.modifiers.union word
    trace := .gathered word :: .dispatched t e.context.conditionals :: e.trace }

end Engine

/-- A change of the engine by a command. -/
inductive WorkStep (strict : Prop) (e : Engine) : Engine → Prop where
  | assign {k : Key} {v : k.Value} (hk : k.isPlain = true) (h : strict → k.Proper v) (globally : Bool) :
      WorkStep strict e (e.modifyContext (·.set k v globally))
  | setCount {name : String} (h : strict → name ≠ "mag") (v : Int64) (globally : Bool) :
      WorkStep strict e (e.modifyContext (·.setCount name v globally))
  | setMeaning (t : Token) {m : Meaning} (h : strict → m.Proper) (globally : Bool) (harises : m.Arises e) :
      WorkStep strict e (e.modifyContext (·.setMeaning t (some m) globally))
  | openGroup (kind : GroupKind) (place : Locator) : WorkStep strict e (e.enterGroup kind place)
  | closeGroup {kind : GroupKind} {ts : List Token} {outside : Context}
    (h : e.context.closeGroup kind = .ok (ts, outside)) :
      WorkStep strict e (e.leaveGroup outside)
  | afterGroupToken {t : Token} (h : strict → t.Proper) : WorkStep strict e (e.modifyContext (·.afterGroupToken t))
  | setInteraction (mode : Interaction) : WorkStep strict e (e.modifyContext (·.setInteraction mode true))
  | setStyle (style : Style) (globally : Bool) : WorkStep strict e (e.modifyContext (·.setStyle style globally))
  | setSpace (space : String) (globally : Bool) : WorkStep strict e (e.modifyContext (·.setSpace space globally))
  | pushDirection (d : Direction) : WorkStep strict e (e.modifyContext (·.pushDirection d))
  | popDirection : WorkStep strict e (e.modifyContext Context.popDirection)
  /-- The magnification is set, and the count register of the same name with it. -/
  | setMagnification {v : Int64} {c : Context} {name : String} (h : e.context.setMagnification v false = .ok c)
      (hname : strict → name = "mag") (globally : Bool) : WorkStep strict e (e.magnify c name v globally)
  | typesetter {t : Typesetter} (h : TypesetterStep e.typesetter t) : WorkStep strict e { e with typesetter := t }
  | pushText (text source : String) : WorkStep strict e (e.pushText text source)
  | spaceFactor (spaceFactor : Int64) : WorkStep strict e { e with spaceFactor }
  /-- A font is requested and kept. -/
  | keepFont (target : Token) (name : String) (font : Font) (fonts : FontSource) (globally : Bool) :
      WorkStep strict e (e.keepFont target name font fonts globally)
  | storeBox (name : String) (box : Option Box) (globally : Bool) : WorkStep strict e (e.storeBox name box globally)
  | deliverBox (name : String) (keeps : Bool) : WorkStep strict e (e.deliverBox name keeps)
  | halt : WorkStep strict e { e with halted := true }
  /-- A token is going to be executed, and with it what has been gathered for it. Nothing has been gathered for a space. -/
  | dispatch {t : Token} (h : strict → t.Proper) (hspace : t.cat = .space → e.modifiers = .none) :
      WorkStep strict e (e.dispatching t)
  /-- A space is going to be executed. It may stand between the gathered words and their assignment. -/
  | dispatchSpace {t : Token} (h : strict → t.Proper) (ht : t.cat = .space) :
      WorkStep strict e (e.record (.dispatched t e.context.conditionals))
  /-- A word is executed: it is gathered for the next assignment. -/
  | gather {t : Token} (h : strict → t.Proper) (word : Modifiers) : WorkStep strict e (e.gathering t word)
  | executeGroup (h : 0 < e.context.depth) : WorkStep strict e (e.record (.groupExecuted e.context.depth))
  /-- The typesetter has done what it was asked for. -/
  | toggled : WorkStep strict e (e.record (.mathToggled none))
  | closed : WorkStep strict e (e.record (.listClosed none))

/-! ## Reports -/

namespace Engine

def phrase (e : Engine) (d : Diagnostic) : Diagnostic := { d with language := e.settings.language }

/-- The engine after a report which ends the run. -/
@[simps trace errorCount]
def refuse (e : Engine) (d : Diagnostic) : Engine :=
  { e with transcript := e.transcript ++ d.logEntry, trace := .stopped d :: .reported d :: e.trace }

@[simps context input typesetter settings handler console serial trace errorCount]
def countError (e : Engine) (d : Diagnostic) : Engine :=
  { e with
    transcript := e.transcript ++ d.logEntry
    trace := .reported d :: e.trace
    errorCount := e.errorCount + 1 }

/-- The diagnostic which ends the run after an error too many. -/
def limit (e : Engine) (d : Diagnostic) : Diagnostic :=
  { kind := .errorLimit, place := d.place, arguments := [.number (e.errorCount + 1 : Nat)],
    language := e.settings.language, cause := some d.asCause }

/-- The engine after an error too many. -/
def exceed (e : Engine) (d : Diagnostic) : Engine :=
  { e with
    transcript := e.transcript ++ d.logEntry ++ (e.limit d).logEntry
    trace := .stopped (e.limit d) :: .reported d :: e.trace
    errorCount := e.errorCount + 1 }

end Engine

/-- The diagnostic is what stopped a procedure, or a new problem if nothing did. -/
def Raises (strict : Prop) (d : Diagnostic) : Option Stop → Prop
  | none => d.kind ≠ .errorLimit ∧ d.kind ≠ .aborted ∧ (strict → d.kind ≠ .internal)
  | some s => s = .diagnostic d

/-! ## Courses -/

/-- What a procedure is there for: it reads and expands tokens, or it executes commands as well. -/
inductive Level where
  | scanning
  | working
deriving DecidableEq, Repr

/-- What a procedure does from one state to another, until it has its value or something stops it. -/
inductive Course (strict : Prop) : Level → Option Stop → Engine → Engine → Prop where
  | refl {l : Level} (e : Engine) : Course strict l none e e
  | scan {l : Level} {e e₁ e₂ : Engine} (h : Course strict l none e e₁) (hstep : ScanStep strict e₁ e₂) :
      Course strict l none e e₂
  | work {l : Level} {e e₁ e₂ : Engine} (hl : l = .working) (h : Course strict l none e e₁)
      (hstep : WorkStep strict e₁ e₂) : Course strict l none e e₂
  | exhausted {l : Level} {e e₁ : Engine} (h : Course strict l none e e₁) : Course strict l (some .outOfFuel) e e₁
  | stop {l : Level} {e e₁ : Engine} {d : Diagnostic} (h : Course strict l none e e₁) (hd : Raises strict d none) :
      Course strict l (some (.diagnostic d)) e (e₁.record (.stopped d))
  /-- Tokens which have been read are put back after a stop. -/
  | restore {l : Level} {s : Stop} {e e₁ : Engine} {ts : List Token} (h : Course strict l (some s) e e₁)
      (hts : strict → ∀ t ∈ ts, t.Proper) : Course strict l (some s) e (e₁.pushTokens ts)
  /-- A fatal problem is reported. -/
  | refuse {l : Level} {o : Option Stop} {e e₁ : Engine} {d : Diagnostic} (h : Course strict l o e e₁)
      (ho : Raises strict d o) (hd : d.isFatal = true) :
      Course strict l (some (.diagnostic (e₁.phrase d))) e (e₁.refuse (e₁.phrase d))
  /-- An error too many is reported. -/
  | exceed {l : Level} {o : Option Stop} {e e₁ : Engine} {d : Diagnostic} (h : Course strict l o e e₁)
      (ho : Raises strict d o) (hd : d.isFatal = false) (hcount : e₁.settings.maxErrors < (e₁.errorCount + 1 : Nat)) :
      Course strict l (some (.diagnostic (e₁.limit (e₁.phrase d)))) e (e₁.exceed (e₁.phrase d))
  /-- An error is reported, and the handler is asked about it. -/
  | consult {l : Level} {o : Option Stop} {e e₁ : Engine} {d : Diagnostic} (h : Course strict l o e e₁)
      (ho : Raises strict d o) (hd : d.isFatal = false) (hcount : (e₁.errorCount + 1 : Nat) ≤ e₁.settings.maxErrors) :
      Course strict l none e ((e₁.countError (e₁.phrase d)).record (.consulted (e₁.phrase d)))
  /-- The user answers, and does not refuse to go on. -/
  | answer {l : Level} {e e₁ : Engine} {a : Answer} {script : List String} (h : Course strict l none e e₁)
      (hscript : script <:+ e₁.console.script) (ha : a.isRefusal = false) : Course strict l none e (e₁.hear a script)
  /-- The user refuses to go on. -/
  | dismiss {l : Level} {e e₁ : Engine} {a : Answer} {script : List String} {d : Diagnostic} (h : Course strict l none e e₁)
      (hscript : script <:+ e₁.console.script) (ha : a.isRefusal = true) (hd : d.kind = .aborted) :
      Course strict l (some (.diagnostic d)) e ((e₁.hear a script).record (.stopped d))
  /-- A command or a handler has a message written. -/
  | say {l : Level} {e e₁ : Engine} (h : Course strict l none e e₁)
      (hl : l = .working ∨ ¬ e₁.handler.Avoids Intervention.isSpeech) (s : String) : Course strict l none e (e₁.message s)
  /-- The handler, which is no user, wants the run to go on. -/
  | consent {l : Level} {e e₁ : Engine} (h : Course strict l none e e₁) :
      Course strict l none e (e₁.record (.decided true))
  /-- The handler, which is no user, does not want the run to go on. -/
  | decline {l : Level} {e e₁ : Engine} {d : Diagnostic} (h : Course strict l none e e₁) (hd : d.kind = .aborted) :
      Course strict l (some (.diagnostic d)) e ((e₁.record (.decided false)).record (.stopped d))
  /-- The user has tokens deleted, and what stops that is forgotten. It can only be a refusal or an error too many. -/
  | forgive {l : Level} {e e₁ e₂ : Engine} {d : Diagnostic} {line : String} {script : List String} {n : Nat}
      (h : Course strict l none e e₁) (hhandler : e₁.handler = .prompter) (hscript : line :: script = e₁.console.script)
      (hanswer : Answer.ofLine line = .delete n)
      (hdelete : Course strict l (some (.diagnostic d)) (e₁.hear (.delete n) script) e₂)
      (hd : d.kind = .aborted ∨ d.kind = .errorLimit) : Course strict l none e (e₂.record (.forgiven d))
  /-- A condition is evaluated, with its conditional on the stack. -/
  | decide {l : Level} {o : Option Stop} {e e₁ e₂ : Engine} {c : Conditional} (h : Course strict l none e e₁)
      (hc : c.id < e₁.serial)
      (hinner : Course strict .scanning o (e₁.modifyContext (·.pushConditional { c with evaluating := true })) e₂) :
      Course strict l o e (e₂.modifyContext (·.dropConditional c.id))
  /-- A conditional gets a number, its condition is evaluated and text is skipped, and one of its branches begins. -/
  | branch {l : Level} {e e₁ e₂ : Engine} {c : Conditional} (h : Course strict l none e e₁) (hid : c.id = e₁.serial)
      (hc : c.evaluating = false) (hinner : Course strict .scanning none { e₁ with serial := e₁.serial + 1 } e₂) :
      Course strict l none e (e₂.modifyContext (·.pushConditional c))
  /-- A box is made: a list is opened for it, its contents are executed, and a list is closed. -/
  | box {l : Level} {e e₁ e₂ : Engine} {m : Mode} {nodes : List Node} {t : Typesetter} (hl : l = .working)
      (h : Course strict l none e e₁) (hm : m.isBox = true)
      (hinner : Course strict l none (e₁.modifyTypesetter (·.openList m)) e₂)
      (hclose : e₂.typesetter.closeList = (.ok nodes, t)) : Course strict l none e { e₂ with typesetter := t }

section Invariants

variable {strict : Prop} {l : Level} {o : Option Stop} {e e₁ e₂ e' : Engine}

theorem Course.trans (h : Course strict l none e e₁) (h' : Course strict l o e₁ e₂) : Course strict l o e e₂ := by
  induction h' with
  | refl => exact h
  | scan _ hstep ih => exact .scan (ih h) hstep
  | work hl _ hstep ih => exact .work hl (ih h) hstep
  | exhausted _ ih => exact .exhausted (ih h)
  | stop _ hd ih => exact .stop (ih h) hd
  | restore _ hts ih => exact .restore (ih h) hts
  | refuse _ ho hd ih => exact .refuse (ih h) ho hd
  | exceed _ ho hd hcount ih => exact .exceed (ih h) ho hd hcount
  | consult _ ho hd hcount ih => exact .consult (ih h) ho hd hcount
  | answer _ hscript ha ih => exact .answer (ih h) hscript ha
  | dismiss _ hscript ha hd ih => exact .dismiss (ih h) hscript ha hd
  | say _ hl s ih => exact .say (ih h) hl s
  | consent _ ih => exact .consent (ih h)
  | decline _ hd ih => exact .decline (ih h) hd
  | forgive _ hhandler hscript hanswer hdelete hd ih => exact .forgive (ih h) hhandler hscript hanswer hdelete hd
  | decide _ hc hinner ih => exact .decide (ih h) hc hinner
  | branch _ hid hc hinner ih => exact .branch (ih h) hid hc hinner
  | box hl _ hm hinner hclose ih => exact .box hl (ih h) hm hinner hclose

/-- A procedure which executes commands may read and expand tokens. -/
theorem Course.raise {l' : Level} (h : Course strict l' o e e') (hl : l' = .scanning) : Course strict l o e e' := by
  induction h with
  | refl => exact .refl _
  | scan _ hstep ih => exact .scan (ih hl) hstep
  | work hl' => cases hl.symm.trans hl'
  | exhausted _ ih => exact .exhausted (ih hl)
  | stop _ hd ih => exact .stop (ih hl) hd
  | restore _ hts ih => exact .restore (ih hl) hts
  | refuse _ ho hd ih => exact .refuse (ih hl) ho hd
  | exceed _ ho hd hcount ih => exact .exceed (ih hl) ho hd hcount
  | consult _ ho hd hcount ih => exact .consult (ih hl) ho hd hcount
  | answer _ hscript ha ih => exact .answer (ih hl) hscript ha
  | dismiss _ hscript ha hd ih => exact .dismiss (ih hl) hscript ha hd
  | say _ hl' s ih => exact .say (ih hl) (.inr (hl'.resolve_left (by simp [hl]))) s
  | consent _ ih => exact .consent (ih hl)
  | decline _ hd ih => exact .decline (ih hl) hd
  | forgive _ hhandler hscript hanswer _ hd ih ih' => exact .forgive (ih hl) hhandler hscript hanswer (ih' hl) hd
  | decide _ hc hinner ih => exact .decide (ih hl) hc hinner
  | branch _ hid hc hinner ih => exact .branch (ih hl) hid hc hinner
  | box hl' => cases hl.symm.trans hl'

/-- What is done after a conditional got its number, up to the start of a branch. -/
theorem Course.numbered (h : Course strict .scanning o { e with serial := e.serial + 1 } e') : Course strict l o e e' :=
  Course.trans (.scan (.refl e) .freshId) (h.raise rfl)

/-! ## What steps leave alone -/

theorem Engine.pushText_eq (e : Engine) (text source : String) : ∃ input, e.pushText text source = { e with input } := by
  unfold Engine.pushText
  split
  · exact ⟨_, rfl⟩
  · exact ⟨e.input, rfl⟩

theorem Engine.pushText_context (e : Engine) (text source : String) : (e.pushText text source).context = e.context := by
  obtain ⟨input, heq⟩ := e.pushText_eq text source
  rw [heq]

/-- A box register is void in the innermost group, or nothing in the context has changed. -/
theorem Engine.deliverBox_context (e : Engine) (name : String) (keeps : Bool) :
    (e.deliverBox name keeps).context = e.context ∨
      (e.deliverBox name keeps).context = e.context.set (.box name) (none : Option Box) false := by
  simp only [deliverBox]
  split
  · exact .inr rfl
  · exact .inl rfl

/-- Nothing but the groups of a context has changed, and further notices have been given about them. -/
def Context.Regroups (c c' : Context) : Prop :=
  ∃ outermost inner new muted, c' = { c with outermost, inner, notices := new ++ c.notices, muted }

namespace Context

theorem Regroups.trans {c c₁ c₂ : Context} (h : c.Regroups c₁) (h' : c₁.Regroups c₂) : c.Regroups c₂ := by
  obtain ⟨_, _, new, _, rfl⟩ := h
  obtain ⟨outermost, inner, new', muted, rfl⟩ := h'
  exact ⟨outermost, inner, new' ++ new, muted, by rw [List.append_assoc]⟩

theorem Regroups.conditionals {c c' : Context} (h : c.Regroups c') : c'.conditionals = c.conditionals := by
  obtain ⟨_, _, _, _, rfl⟩ := h
  rfl

theorem Regroups.watches {c c' : Context} (h : c.Regroups c') : c'.watches = c.watches := by
  obtain ⟨_, _, _, _, rfl⟩ := h
  rfl

theorem Regroups.notices {c c' : Context} (h : c.Regroups c') : c.notices <:+ c'.notices := by
  obtain ⟨_, _, new, _, rfl⟩ := h
  exact List.suffix_append new c.notices

variable (c : Context)

/-- No notice is given about a change of the groups alone. -/
theorem regroups_of_groups (outermost : Group) (inner : List Group) : c.Regroups { c with outermost, inner } :=
  ⟨outermost, inner, [], c.muted, rfl⟩

theorem regroups_modifyCurrent (f : Group → Group) : c.Regroups (c.modifyCurrent f) := by
  unfold modifyCurrent
  split <;> exact c.regroups_of_groups _ _

theorem regroups_modifyAll (f : Group → Group) : c.Regroups (c.modifyAll f) := c.regroups_of_groups _ _

theorem regroups_notify (w : Watch) (n : Notice) : c.Regroups (c.notify w n) :=
  ⟨c.outermost, c.inner, List.replicate (c.watches.count w) n, c.muted, rfl⟩

theorem regroups_notifyInteraction (mode : Interaction) : c.Regroups (c.notifyInteraction mode) :=
  ⟨c.outermost, c.inner, List.replicate (c.watches.count .interaction) (.interaction mode), _, rfl⟩

theorem regroups_set (k : Key) (v : k.Value) (globally : Bool) : c.Regroups (c.set k v globally) := by
  unfold set
  split
  · exact c.regroups_of_groups _ _
  · exact c.regroups_modifyCurrent _

theorem regroups_deliverBox (e : Engine) (name : String) (keeps : Bool) :
    e.context.Regroups (e.deliverBox name keeps).context := by
  rcases e.deliverBox_context name keeps with heq | heq <;> rw [heq]
  · exact e.context.regroups_of_groups _ _
  · exact e.context.regroups_set _ _ false

theorem regroups_setCount (name : String) (v : Int64) (globally : Bool) : c.Regroups (c.setCount name v globally) :=
  (c.regroups_set _ _ globally).trans (regroups_notify _ _ _)

theorem regroups_setMeaning (t : Token) (m : Option Meaning) (globally : Bool) :
    c.Regroups (c.setMeaning t m globally) :=
  (c.regroups_set _ _ globally).trans (regroups_notify _ _ _)

theorem regroups_setStyle (style : Style) (globally : Bool) : c.Regroups (c.setStyle style globally) := by
  unfold setStyle
  split
  · exact c.regroups_modifyAll _
  · exact c.regroups_modifyCurrent _

theorem regroups_setSpace (space : String) (globally : Bool) : c.Regroups (c.setSpace space globally) := by
  unfold setSpace
  split
  · exact c.regroups_modifyAll _
  · exact c.regroups_modifyCurrent _

theorem regroups_setInteraction (mode : Interaction) (globally : Bool) : c.Regroups (c.setInteraction mode globally) := by
  have hchanged : c.Regroups (if globally then c.modifyAll fun g => { g with interaction := mode }
      else c.modifyCurrent fun g => { g with interaction := mode }) := by
    split
    · exact c.regroups_modifyAll _
    · exact c.regroups_modifyCurrent _
  simp only [setInteraction]
  split
  · exact hchanged.trans (regroups_notifyInteraction _ mode)
  · exact hchanged

theorem regroups_openGroup (kind : GroupKind) (place : Locator) : c.Regroups (c.openGroup kind place) :=
  c.regroups_of_groups _ _

theorem regroups_afterGroupToken (t : Token) : c.Regroups (c.afterGroupToken t) := by
  unfold afterGroupToken
  split
  · exact c.regroups_of_groups c.outermost c.inner
  · exact c.regroups_of_groups _ _

variable {c}

theorem Regroups.closeGroup {c' : Context} {kind : GroupKind} {ts : List Token} (h : c.closeGroup kind = .ok (ts, c')) :
    c.Regroups c' := by
  unfold Context.closeGroup at h
  split at h
  · cases h
  · rename_i g rest _
    split at h
    · cases h
    · simp only [Except.ok.injEq, Prod.mk.injEq] at h
      obtain ⟨-, rfl⟩ := h
      have hclosed := c.regroups_of_groups c.outermost rest
      have hnotices : ∀ c₁ : Context, c₁.Regroups
          { c₁ with notices := (deferredNotices g.after c₁.depth).reverse ++ c₁.notices } :=
        fun c₁ => ⟨c₁.outermost, c₁.inner, _, c₁.muted, rfl⟩
      split
      · exact (hclosed.trans (regroups_notifyInteraction _ _)).trans (hnotices _)
      · exact hclosed.trans (hnotices _)

theorem setMagnification_eq {c' : Context} {v : Int64} {lock : Bool} (h : c.setMagnification v lock = .ok c') :
    c' = { c with magnification := v, magnificationLocked := c.magnificationLocked || lock } := by
  unfold setMagnification at h
  split at h
  · cases h
  · split at h
    · cases h
    · exact (Except.ok.inj h).symm

theorem setMagnification_conditionals {c' : Context} {v : Int64} {lock : Bool}
    (h : c.setMagnification v lock = .ok c') : c'.conditionals = c.conditionals := by
  rw [setMagnification_eq h]

end Context

/-- The settings and the handler are the same, and the user has no new lines to say. -/
structure Engine.SameTerms (e e' : Engine) : Prop where
  settings : e'.settings = e.settings
  handler : e'.handler = e.handler
  script : e'.console.script <:+ e.console.script

theorem Engine.SameTerms.refl (e : Engine) : e.SameTerms e := ⟨rfl, rfl, List.suffix_rfl⟩

theorem Engine.SameTerms.trans (h : e.SameTerms e₁) (h' : e₁.SameTerms e₂) : e.SameTerms e₂ :=
  ⟨h'.settings.trans h.settings, h'.handler.trans h.handler, h'.script.trans h.script⟩

/-- The same run goes on, and no error has been counted. -/
structure Engine.SameRun (e e' : Engine) : Prop extends e.SameTerms e' where
  errorCount : e'.errorCount = e.errorCount

theorem ScanStep.sameRun (h : ScanStep strict e e') : e.SameRun e' := by
  cases h with
  | console h => exact ⟨⟨rfl, rfl, h ▸ List.suffix_rfl⟩, rfl⟩
  | pushText text source =>
    obtain ⟨input, heq⟩ := e.pushText_eq text source
    rw [heq]
    exact ⟨⟨rfl, rfl, List.suffix_rfl⟩, rfl⟩
  | _ => exact ⟨⟨rfl, rfl, List.suffix_rfl⟩, rfl⟩

theorem WorkStep.sameRun (h : WorkStep strict e e') : e.SameRun e' := by
  cases h with
  | pushText text source =>
    obtain ⟨input, heq⟩ := e.pushText_eq text source
    rw [heq]
    exact ⟨⟨rfl, rfl, List.suffix_rfl⟩, rfl⟩
  | _ => exact ⟨⟨rfl, rfl, List.suffix_rfl⟩, rfl⟩

theorem ScanStep.trace_eq (h : ScanStep strict e e') : e'.trace = e.trace := by
  cases h with
  | pushText text source =>
    obtain ⟨input, heq⟩ := e.pushText_eq text source
    rw [heq]
  | _ => rfl

/-- What a command adds to the trace, the latest entry first: that a token or a group is executed, that a word is gathered,
that the typesetter did what it was asked for, that a group is opened or closed, a magnification, a font, or a
box. -/
inductive Notes (strict : Prop) (e : Engine) : List TraceEntry → Prop where
  | nothing : Notes strict e []
  | dispatched {t : Token} (h : strict → t.Proper) : Notes strict e [.dispatched t e.context.conditionals]
  | gathered {t : Token} (h : strict → t.Proper) (word : Modifiers) :
      Notes strict e [.gathered word, .dispatched t e.context.conditionals]
  | groupExecuted {depth : Nat} (h : 0 < depth) : Notes strict e [.groupExecuted depth]
  | mathToggled : Notes strict e [.mathToggled none]
  | listClosed : Notes strict e [.listClosed none]
  | groupOpened : Notes strict e [.groupOpened]
  | groupClosed : Notes strict e [.groupClosed]
  | magnified (v : Int64) (globally : Bool) : Notes strict e [.magnified v globally]
  | fontLoaded (id : Nat) (name : String) (font : Font) (globally : Bool) : Notes strict e [.fontLoaded id name font globally]
  | boxStored (name : String) (box : Option Box) (globally : Bool) : Notes strict e [.boxStored name box globally]
  | boxTaken (name : String) (box : Option Box) (keeps : Bool) : Notes strict e [.boxTaken name box keeps]

theorem WorkStep.notes (h : WorkStep strict e e') : ∃ new, Notes strict e new ∧ e'.trace = new ++ e.trace := by
  cases h with
  | pushText text source =>
    obtain ⟨input, heq⟩ := e.pushText_eq text source
    rw [heq]
    exact ⟨[], .nothing, rfl⟩
  | dispatch ht | dispatchSpace ht => exact ⟨_, .dispatched ht, rfl⟩
  | gather ht word => exact ⟨_, .gathered ht word, rfl⟩
  | executeGroup hdepth => exact ⟨_, .groupExecuted hdepth, rfl⟩
  | toggled => exact ⟨_, .mathToggled, rfl⟩
  | closed => exact ⟨_, .listClosed, rfl⟩
  | openGroup => exact ⟨_, .groupOpened, rfl⟩
  | closeGroup => exact ⟨_, .groupClosed, rfl⟩
  | setMagnification _ _ globally => exact ⟨_, .magnified _ globally, rfl⟩
  | keepFont target _ font _ globally => exact ⟨_, .fontLoaded e.serial target.name font globally, rfl⟩
  | storeBox name box globally => exact ⟨_, .boxStored name box globally, rfl⟩
  | deliverBox name keeps => exact ⟨_, .boxTaken name _ keeps, rfl⟩
  | _ => exact ⟨[], .nothing, rfl⟩

theorem Course.trace_suffix (h : Course strict l o e e') : e.trace <:+ e'.trace := by
  induction h with
  | refl => exact List.suffix_rfl
  | scan _ hstep ih => exact hstep.trace_eq ▸ ih
  | work _ _ hstep ih =>
    obtain ⟨new, -, heq⟩ := hstep.notes
    exact ih.trans ⟨new, heq.symm⟩
  | exhausted _ ih | restore _ _ ih => exact ih
  | stop _ _ ih | answer _ _ _ ih | say _ _ _ ih | consent _ ih => exact ih.trans (List.suffix_cons _ _)
  | refuse _ _ _ ih | exceed _ _ _ _ ih | consult _ _ _ _ ih | dismiss _ _ _ _ ih | decline _ _ ih =>
    exact ih.trans ⟨[_, _], rfl⟩
  | forgive _ _ _ _ _ _ ih ih' => exact (ih.trans (List.suffix_cons _ _)).trans (ih'.trans (List.suffix_cons _ _))
  | decide _ _ _ ih ih' => exact ih.trans ih'
  | branch _ _ _ _ ih ih' => exact ih.trans ih'
  | box _ _ _ _ _ ih ih' => exact ih.trans ih'

/-- What only commands work on is the same: the typesetter, the words gathered for an assignment, and whether the run is to
end, which a handler can decide as well. -/
structure Engine.SameWork (e e' : Engine) : Prop where
  typesetter : e'.typesetter = e.typesetter
  modifiers : e'.modifiers = e.modifiers
  handler : e'.handler = e.handler
  halted : e.handler.Avoids Intervention.isHalt → e'.halted = e.halted

theorem Engine.SameWork.trans (h : e.SameWork e₁) (h' : e₁.SameWork e₂) : e.SameWork e₂ where
  typesetter := h'.typesetter.trans h.typesetter
  modifiers := h'.modifiers.trans h.modifiers
  handler := h'.handler.trans h.handler
  halted hnever := (h'.halted (h.handler ▸ hnever)).trans (h.halted hnever)

theorem ScanStep.sameWork (h : ScanStep strict e e') : e.SameWork e' := by
  cases h with
  | pushText text source =>
    obtain ⟨input, heq⟩ := e.pushText_eq text source
    rw [heq]
    exact ⟨rfl, rfl, rfl, fun _ => rfl⟩
  | halt hhalts => exact ⟨rfl, rfl, rfl, fun hnever => (hhalts hnever).elim⟩
  | _ => exact ⟨rfl, rfl, rfl, fun _ => rfl⟩

/-- **Reading and expanding tokens leaves the typesetter and the gathered words alone, and does not end the run**, unless
the handler does. -/
theorem Course.sameWork (h : Course strict l o e e') (hl : l = .scanning) : e.SameWork e' := by
  induction h with
  | refl => exact ⟨rfl, rfl, rfl, fun _ => rfl⟩
  | scan _ hstep ih => exact (ih hl).trans hstep.sameWork
  | work hl' | box hl' => cases hl.symm.trans hl'
  | exhausted _ ih => exact ih hl
  | stop _ _ ih | restore _ _ ih | refuse _ _ _ ih | exceed _ _ _ _ ih | consult _ _ _ _ ih | answer _ _ _ ih
  | dismiss _ _ _ _ ih | say _ _ _ ih | consent _ ih | decline _ _ ih => exact { ih hl with }
  | forgive _ _ _ _ _ _ ih ih' => exact (ih hl).trans { ih' hl with }
  | decide _ _ _ ih ih' => exact (ih hl).trans { ih' rfl with }
  | branch _ _ _ _ ih ih' => exact (ih hl).trans { ih' rfl with }

/-- The settings and the handler of a run stay the same. -/
theorem Course.sameTerms (h : Course strict l o e e') : e.SameTerms e' := by
  induction h with
  | refl e => exact .refl e
  | scan _ hstep ih => exact ih.trans hstep.sameRun.toSameTerms
  | work _ _ hstep ih => exact ih.trans hstep.sameRun.toSameTerms
  | exhausted _ ih => exact ih
  | stop _ _ ih | restore _ _ ih | refuse _ _ _ ih | exceed _ _ _ _ ih | consult _ _ _ _ ih | say _ _ _ ih
  | consent _ ih | decline _ _ ih => exact ⟨ih.settings, ih.handler, ih.script⟩
  | answer _ hscript _ ih | dismiss _ hscript _ _ ih => exact ⟨ih.settings, ih.handler, hscript.trans ih.script⟩
  | forgive _ _ hscript _ _ _ ih ih' =>
    exact ih.trans ⟨ih'.settings, ih'.handler, ih'.script.trans (hscript ▸ List.suffix_cons _ _)⟩
  | decide _ _ _ ih ih' => exact ih.trans ⟨ih'.settings, ih'.handler, ih'.script⟩
  | branch _ _ _ _ ih ih' => exact ih.trans ⟨ih'.settings, ih'.handler, ih'.script⟩
  | box _ _ _ _ _ ih ih' => exact ih.trans ⟨ih'.settings, ih'.handler, ih'.script⟩

/-! ## What courses keep -/

theorem Engine.Proper.pushText (he : e.Proper) (text source : String) : (e.pushText text source).Proper := by
  unfold Engine.pushText
  split
  · exact ⟨he.input.pushText _, he.context⟩
  · exact he

theorem ScanStep.proper (h : ScanStep strict e e') (hs : strict) (he : e.Proper) : e'.Proper := by
  obtain ⟨hinput, hcontext⟩ := he
  cases h with
  | pull h => exact ⟨(hinput.pull hcontext.lexicon h).1, hcontext⟩
  | pushTokens h => exact ⟨hinput.pushTokens (h hs), hcontext⟩
  | pushText text source => exact Engine.Proper.pushText ⟨hinput, hcontext⟩ text source
  | console | freshId | halt => exact ⟨hinput, hcontext⟩
  | endBranch => exact ⟨hinput, hcontext.of_groups rfl⟩
  | defineRelax _ id =>
    have hrelax : Meaning.Proper (.primitive id "relax" (.command .relax)) := trivial
    exact ⟨hinput, hcontext.setMeaning _ (fun m hm => Option.some.inj hm ▸ hrelax) false⟩
  | lockMagnification h => exact ⟨hinput, hcontext.setMagnification h⟩
  | setInteraction mode => exact ⟨hinput, hcontext.setInteraction mode true⟩

theorem WorkStep.proper (h : WorkStep strict e e') (hs : strict) (he : e.Proper) : e'.Proper := by
  obtain ⟨hinput, hcontext⟩ := he
  cases h with
  | assign _ h globally => exact ⟨hinput, hcontext.set (h hs) globally⟩
  | setCount _ v globally => exact ⟨hinput, hcontext.setCount _ v globally⟩
  | setMeaning t h globally => exact ⟨hinput, hcontext.setMeaning t (fun m hm => Option.some.inj hm ▸ h hs) globally⟩
  | openGroup kind place => exact ⟨hinput, hcontext.openGroup kind place⟩
  | closeGroup h => exact ⟨hinput, (hcontext.closeGroup h).1⟩
  | afterGroupToken h => exact ⟨hinput, hcontext.afterGroupToken (h hs)⟩
  | setInteraction mode => exact ⟨hinput, hcontext.setInteraction mode true⟩
  | setStyle style globally => exact ⟨hinput, hcontext.setStyle style globally⟩
  | setSpace space globally => exact ⟨hinput, hcontext.setSpace space globally⟩
  | pushDirection | popDirection => exact ⟨hinput, hcontext.of_groups rfl⟩
  | setMagnification h _ globally => exact ⟨hinput, (hcontext.setMagnification h).setCount _ _ globally⟩
  | keepFont target name font fonts globally =>
    have hselects : Meaning.Proper (.primitive e.serial target.name (.command (.selectFont name))) := trivial
    have hmeaning := hcontext.setMeaning target (fun m hm => Option.some.inj hm ▸ hselects) globally
    have hfont : (Key.font target.name).Proper (some font) := trivial
    exact ⟨hinput, hmeaning.set hfont globally⟩
  | storeBox name box globally =>
    have hbox : (Key.box name).Proper box := trivial
    exact ⟨hinput, hcontext.set hbox globally⟩
  | deliverBox name keeps =>
    refine ⟨hinput, ?_⟩
    rcases e.deliverBox_context name keeps with heq | heq
    · exact heq ▸ hcontext
    · exact heq ▸ hcontext.set (k := .box name) (v := (none : Option Box)) trivial false
  | pushText text source => exact Engine.Proper.pushText ⟨hinput, hcontext⟩ text source
  | _ => exact ⟨hinput, hcontext⟩

/-- A change of what is neither a place for tokens nor a group keeps a state proper. -/
theorem Engine.Proper.of_eq (he : e.Proper) (hinput : e'.input = e.input)
    (hgroups : e'.context.groups = e.context.groups) :
    e'.Proper :=
  ⟨hinput ▸ he.input, he.context.of_groups hgroups⟩

/-- **A proper state stays proper.** -/
theorem Course.proper (h : Course strict l o e e') (hs : strict) (he : e.Proper) : e'.Proper := by
  induction h with
  | refl => exact he
  | scan _ hstep ih => exact hstep.proper hs (ih he)
  | work _ _ hstep ih => exact hstep.proper hs (ih he)
  | exhausted _ ih => exact ih he
  | forgive _ _ _ _ _ _ ih ih' => exact (ih' ((ih he).of_eq rfl rfl)).of_eq rfl rfl
  | stop _ _ ih | refuse _ _ _ ih | exceed _ _ _ _ ih | consult _ _ _ _ ih | answer _ _ _ ih | dismiss _ _ _ _ ih
  | say _ _ _ ih | consent _ ih | decline _ _ ih => exact (ih he).of_eq rfl rfl
  | restore _ hts ih => exact ⟨(ih he).input.pushTokens (hts hs), (ih he).context⟩
  | decide _ _ _ ih ih' => exact (ih' ((ih he).of_eq rfl rfl)).of_eq rfl rfl
  | branch _ _ _ _ ih ih' => exact (ih' ((ih he).of_eq rfl rfl)).of_eq rfl rfl
  | box _ _ _ _ _ ih ih' => exact (ih' ((ih he).of_eq rfl rfl)).of_eq rfl rfl

theorem WorkStep.keeps (h : WorkStep strict e e') : e.typesetter.Keeps e'.typesetter := by
  cases h with
  | typesetter h => exact h.keeps
  | pushText text source =>
    obtain ⟨input, heq⟩ := e.pushText_eq text source
    rw [heq]
    exact .refl _
  | _ => exact .refl _

/-- **A list in which a box is made stays open until the box is finished.** -/
theorem Course.keeps (h : Course strict l o e e') : e.typesetter.Keeps e'.typesetter := by
  induction h with
  | refl => exact .refl _
  | scan _ hstep ih =>
    rw [hstep.sameWork.typesetter]
    exact ih
  | work _ _ hstep ih => exact ih.trans hstep.keeps
  | exhausted _ ih => exact ih
  | stop _ _ ih | restore _ _ ih | refuse _ _ _ ih | exceed _ _ _ _ ih | consult _ _ _ _ ih | answer _ _ _ ih
  | dismiss _ _ _ _ ih | say _ _ _ ih | consent _ ih | decline _ _ ih => exact ih
  | forgive _ _ _ _ _ _ ih ih' => exact ih.trans ih'
  | decide _ _ _ ih ih' => exact ih.trans ih'
  | branch _ _ _ _ ih ih' => exact ih.trans ih'
  | @box l e e₁ e₂ m nodes t _ _ hm _ hclose ih ih' =>
    refine ih.trans fun m' ms hm' hs => ?_
    have hopen : (m :: e₁.typesetter.modes) <:+ e₂.typesetter.modes := ih' m _ hm List.suffix_rfl
    obtain ⟨nodes', t', hclose', hsuffix⟩ := Typesetter.closeList_ok hm hopen
    rw [hclose] at hclose'
    obtain rfl := (Prod.mk.inj hclose').2
    exact hs.trans hsuffix

theorem Course.closeList_ok {m : Mode} (hm : m.isBox = true)
    (h : Course strict l o (e.modifyTypesetter (·.openList m)) e') :
    ∃ nodes t, e'.typesetter.closeList = (.ok nodes, t) := by
  obtain ⟨nodes, t, hclose, -⟩ := Typesetter.closeList_ok hm (h.keeps m e.typesetter.modes hm List.suffix_rfl)
  exact ⟨nodes, t, hclose⟩

theorem Course.ne_internal (h : Course strict l o e e') (hs : strict) {d : Diagnostic} (ho : o = some (.diagnostic d)) :
    d.kind ≠ .internal := by
  induction h generalizing d with
  | refl | scan | work | consult | answer | say | consent | forgive | branch | box => cases ho
  | exhausted => cases ho
  | stop _ hd =>
    cases ho
    exact hd.2.2 hs
  | restore _ _ ih => exact ih ho
  | @refuse l o _ _ d' _ hraises _ ih =>
    cases ho
    cases o with
    | none => exact hraises.2.2 hs
    | some s => exact ih (d := d') (congrArg some hraises)
  | exceed =>
    cases ho
    simp [Engine.limit]
  | dismiss _ _ _ hd | decline _ hd =>
    cases ho
    simp [hd]
  | decide _ _ _ _ ih' => exact ih' ho

theorem Raises.ne_internal {d : Diagnostic} (h : Raises strict d o) (hcourse : Course strict l o e e') (hs : strict) :
    d.kind ≠ .internal := by
  cases o with
  | none => exact h.2.2 hs
  | some s => exact hcourse.ne_internal hs (congrArg some h)

theorem Notes.possible {new : List TraceEntry} (h : Notes strict e new) (hs : strict) : ∀ entry ∈ new, entry.Possible := by
  cases h with
  | nothing => simp
  | dispatched ht => simpa using possible_dispatched (ht hs) _
  | gathered ht word => simpa [TraceEntry.Possible] using possible_dispatched (ht hs) e.context.conditionals
  | groupExecuted hdepth => simpa [TraceEntry.Possible] using hdepth
  | mathToggled | listClosed | groupOpened | groupClosed | magnified | fontLoaded | boxStored | boxTaken =>
    simp [TraceEntry.Possible]

/-- **Nothing impossible gets into the trace.** -/
theorem Course.possible (h : Course strict l o e e') (hs : strict) (he : ∀ entry ∈ e.trace, entry.Possible) :
    ∀ entry ∈ e'.trace, entry.Possible := by
  induction h with
  | refl => exact he
  | scan _ hstep ih =>
    rw [hstep.trace_eq]
    exact ih he
  | work _ _ hstep ih =>
    obtain ⟨new, hnotes, heq⟩ := hstep.notes
    rw [heq]
    exact List.forall_mem_append.2 ⟨hnotes.possible hs, ih he⟩
  | exhausted _ ih => exact ih he
  | answer _ _ _ ih | say _ _ _ ih | consent _ ih => exact List.forall_mem_cons.2 ⟨trivial, ih he⟩
  | dismiss _ _ _ hd ih | decline _ hd ih =>
    exact List.forall_mem_cons.2 ⟨by simp [TraceEntry.Possible, hd], List.forall_mem_cons.2 ⟨trivial, ih he⟩⟩
  | forgive _ _ _ _ hdelete _ ih ih' =>
    exact List.forall_mem_cons.2 ⟨hdelete.ne_internal hs rfl, ih' (List.forall_mem_cons.2 ⟨trivial, ih he⟩)⟩
  | restore _ _ ih => exact ih he
  | stop _ hd ih => exact List.forall_mem_cons.2 ⟨hd.2.2 hs, ih he⟩
  | refuse h ho _ ih =>
    have hkind := ho.ne_internal h hs
    exact List.forall_mem_cons.2 ⟨hkind, List.forall_mem_cons.2 ⟨hkind, ih he⟩⟩
  | exceed h ho _ _ ih =>
    have hkind := ho.ne_internal h hs
    exact List.forall_mem_cons.2 ⟨by simp [TraceEntry.Possible, Engine.limit], List.forall_mem_cons.2 ⟨hkind, ih he⟩⟩
  | consult h ho _ _ ih =>
    have hkind := ho.ne_internal h hs
    exact List.forall_mem_cons.2 ⟨hkind, List.forall_mem_cons.2 ⟨hkind, ih he⟩⟩
  | decide _ _ _ ih ih' => exact ih' (ih he)
  | branch _ _ _ _ ih ih' => exact ih' (ih he)
  | box _ _ _ _ _ ih ih' => exact ih' (ih he)

end Invariants

end Compositor
