import Compositor.Declaration.Builtin
import Compositor.Proofs.Engine.Running

/-!
# What cannot happen

The engine has tests for situations which should never arise: a token which cannot be executed, a group to be executed
where none is open, a box without a list, a formula which the typesetter refuses to end. They stop a run with an
internal problem. `fresh_faultless` says that no run ever gets there: whatever the text, the files and the handler of
errors are, every entry in the trace of a run is possible.

* `Outcome.faultless` says so for runs from a proper state;
* `Engine.install_builtin` says that the built-in primitives can be installed, and leave an engine proper.
-/

namespace Compositor

/-! ## Runs -/

/-- What stops a procedure is no internal problem. -/
def Stop.Admissible : Stop → Prop
  | diagnostic d => d.kind ≠ .internal
  | outOfFuel => True

/-- Nothing impossible has happened. -/
def Engine.Untroubled (e : Engine) : Prop := ∀ entry ∈ e.trace, entry.Possible

/-- The run is stopped by no internal problem, if it is stopped at all, and nothing impossible has happened in it. -/
def Faultless : EStateM.Result (Interrupted Unit) Engine Unit → Prop
  | .ok _ e => e.Untroubled
  | .error i e => i.cause.Admissible ∧ e.Untroubled

theorem Course.admissible {l : Level} {s : Stop} {e e' : Engine} (h : Course True l (some s) e e') : s.Admissible := by
  cases s with
  | diagnostic d => exact h.ne_internal trivial rfl
  | outOfFuel => exact trivial

theorem Outcome.faultless {e : Engine} {r : EStateM.Result (Interrupted Unit) Engine Unit} (h : Outcome True e r)
    (he : e.Untroubled) : Faultless r := by
  cases h with
  | @unprepared d _ hd =>
    have hkind : d.kind ≠ .internal := by
      rcases hd with hd | hd <;> simp [hd]
    exact ⟨hkind, List.forall_mem_cons.2 ⟨hkind, he⟩⟩
  | stopped h => exact ⟨h.admissible, h.possible trivial he⟩
  | unclosed h hreport =>
    have huntroubled := h.possible trivial he
    exact ⟨hreport.admissible, hreport.possible trivial huntroubled⟩
  | ended h hreport =>
    have huntroubled := h.possible trivial he
    exact hreport.possible trivial huntroubled

theorem faultless_runText (n : Nat) (text source : String) {e : Engine} (he : e.Proper) (huntroubled : e.Untroubled) :
    Faultless (runText (machine n) text source e) := by
  have hpushed : (e.pushText text source).Untroubled := by
    obtain ⟨input, heq⟩ := e.pushText_eq text source
    rw [heq]
    exact huntroubled
  exact (run_outcome n fun _ => he.pushText text source).faultless hpushed

/-- A file which cannot be read is a recoverable problem, and what can be read is a text. -/
theorem faultless_runFile (n : Nat) (name : String) {e : Engine} (he : e.Proper) (huntroubled : e.Untroubled) :
    Faultless (runFile (machine n) name e) := by
  by_cases hstreams : e.hasStreams = true
  · have hpush : MeetsAt (.command True) (pushFile name) (fun _ => True) e := works_pushFile name e fun _ => he
    have hrun : runFile (machine n) name e = (pushFile name >>= fun _ => run (machine n)) e := by
      simp only [runFile, Proc.get_bind, hstreams, if_true]
    rw [hrun]
    cases h : pushFile name e with
    | error i e₁ =>
      rw [Proc.bind_error h]
      exact ⟨(hpush.error h).1.admissible, (hpush.error h).1.possible trivial huntroubled⟩
    | ok u e₁ =>
      have hcourse := (hpush.ok h).1
      rw [Proc.bind_ok h]
      exact (run_outcome n fun hs => hcourse.proper hs he).faultless (hcourse.possible trivial huntroubled)
  · have hrun : runFile (machine n) name e = run (machine n) e := by
      simp only [runFile, Proc.get_bind, hstreams]
      rfl
    rw [hrun]
    exact (run_outcome n fun _ => he).faultless huntroubled

/-! ## New engines -/

def Primitive.isProper (name : String) : Primitive → Bool
  | command c => c.Proper name
  | _ => true

theorem Primitive.proper {p : Primitive} {name : String} (h : p.isProper name = true) (id : Nat) :
    (Meaning.primitive id name p).Proper := by
  cases p with
  | command c =>
    have hc : c.Proper name := of_decide_eq_true h
    exact hc
  | _ => trivial

/-- The declaration can be installed, as a proper primitive, and does not set the register of the magnification. -/
def Declaration.isFaultless (d : Declaration) : Bool :=
  match d.build, d.default? with
  | .ok p, .ok v => p.isProper d.name && (v.isNone || d.name != "mag")
  | _, _ => false

theorem Declaration.isFaultless_of_mem_builtin : ∀ d ∈ builtin, d.isFaultless = true := by
  decide +kernel

namespace Engine

variable {e e' : Engine} {d : Declaration}

theorem bind_proper (he : e.Proper) (name : String) {meaning : Nat → Meaning} (h : ∀ id, (meaning id).Proper) :
    (e.bind name meaning).Proper :=
  ⟨he.input, he.context.setMeaning _ (fun _ hm => Option.some.inj hm ▸ h e.serial) true⟩

theorem setDefault_proper (he : e.Proper) (name : String) (v : DefaultValue) : (e.setDefault name v).Proper := by
  cases v with
  | count n => exact ⟨he.input, he.context.setCount name n true⟩
  | dimen l => exact ⟨he.input, he.context.set (k := .dimen name) trivial true⟩
  | glue g => exact ⟨he.input, he.context.set (k := .glue name) trivial true⟩

theorem setDefault_trace (e : Engine) (name : String) (v : DefaultValue) : (e.setDefault name v).trace = e.trace := by
  cases v <;> rfl

section Installed

variable {P : Engine → Prop}
  (hbind : ∀ e name p, Primitive.isProper name p = true → P e → P (e.bind name fun id => .primitive id name p))
  (hdefault : ∀ e name v, name ≠ "mag" → P e → P (e.setDefault name v))

include hbind hdefault

/-- A declaration without faults gives the engine one more primitive, which is proper. -/
theorem installOne_ok (hd : d.isFaultless = true) (he : P e) : ∃ e', e.installOne d = .ok e' ∧ P e' := by
  unfold Declaration.isFaultless at hd
  unfold installOne
  split at hd
  · rename_i p v hbuild hvalue
    obtain ⟨hp, hname⟩ := Bool.and_eq_true_iff.1 hd
    have hbound := hbind e d.name p hp he
    rw [hbuild, hvalue]
    cases v with
    | none => exact ⟨_, rfl, hbound⟩
    | some v => exact ⟨_, rfl, hdefault _ d.name v (by simpa using hname) hbound⟩
  · cases hd

/-- Declarations without faults can be installed. What holds of an engine whatever proper primitive it gets, and whatever
register but that of the magnification is set, holds afterwards. -/
theorem install_ok {ds : List Declaration} (hds : ∀ d ∈ ds, d.isFaultless = true) (he : P e) :
    ∃ e', e.install ds = .ok e' ∧ P e' := by
  induction ds generalizing e with
  | nil => exact ⟨e, rfl, he⟩
  | cons d ds ih =>
    obtain ⟨e₁, hone, he₁⟩ := installOne_ok hbind hdefault (hds d (by simp)) he
    obtain ⟨e₂, hrest, he₂⟩ := ih (fun d' hd' => hds d' (by simp [hd'])) he₁
    refine ⟨e₂, ?_, he₂⟩
    rw [install, List.foldlM_cons, hone]
    exact hrest

end Installed

theorem new_proper {c : Context} (hc : c.Proper) (settings : Settings) : (Engine.new c settings).Proper := by
  have hfrozen : Meaning.Proper .frozenRelax := trivial
  have hmeaning := hc.setMeaning frozenRelaxToken (fun _ hm => Option.some.inj hm ▸ hfrozen) true
  refine ⟨fun _ _ hmem => (List.not_mem_nil hmem).elim, ?_⟩
  refine (Context.Proper.setInteraction (Context.Proper.of_groups hmeaning ?_) settings.interaction true).of_groups rfl
  unfold Context.setMaxMagnification
  split <;> rfl

end Engine

theorem Context.new_proper (id : String) (moment : Moment) : (Context.new id moment).Proper := by
  have hempty : ({ id } : Context).Proper := by
    refine Context.proper_iff.2 ⟨by simp, ⟨fun k v hv => ?_, fun t ht => ?_⟩⟩
    · cases hv
    · cases ht
  exact ((((hempty.setCount _ _ true).setCount _ _ true).setCount _ _ true).setCount _ _ true).setCount _ _ true

/-- The built-in primitives can be installed in a new engine, whatever it is given for the run. Nothing has happened in
it, and its tokens are proper. -/
theorem Engine.install_builtin (id : String) (moment : Moment) (settings : Settings) (files : FileStore)
    (fonts : FontSource) (search : NameSearch) (handler : Handler) (console : Console) :
    ∃ e, Engine.install { Engine.new (Context.new id moment) settings with files, fonts, search, handler, console }
      Declaration.builtin = .ok e ∧ e.Proper ∧ e.trace = [] := by
  have hnew := Engine.new_proper (Context.new_proper id moment) settings
  refine install_ok (P := fun e => e.Proper ∧ e.trace = []) (fun e name p hp he => ?_) (fun e name v _ he => ?_)
    Declaration.isFaultless_of_mem_builtin ⟨⟨hnew.input, hnew.context⟩, rfl⟩
  · exact ⟨bind_proper he.1 name (Primitive.proper hp), he.2⟩
  · exact ⟨setDefault_proper he.1 name v, (setDefault_trace e name v).trans he.2⟩

/-! ## The main statement -/

/-- **What cannot happen does not happen.** A new engine with the built-in primitives runs every text and every file,
with any files to read from and any handler of errors, without ever executing a token of another category than 0–4, 6–8
and 10–13 or a group where none is open, without a request which the typesetter refuses, and without an internal
problem. The number `n` bounds how far the run is followed. -/
theorem fresh_faultless (id : String) (moment : Moment) (settings : Settings) (files : FileStore) (fonts : FontSource)
    (search : NameSearch) (handler : Handler) (console : Console) :
    ∃ e, Engine.install { Engine.new (Context.new id moment) settings with files, fonts, search, handler, console }
        Declaration.builtin = .ok e ∧
      (∀ n text source, Faultless (runText (machine n) text source e)) ∧
      ∀ n name, Faultless (runFile (machine n) name e) := by
  obtain ⟨e, hinstall, hproper, htrace⟩ := Engine.install_builtin id moment settings files fonts search handler console
  have huntroubled : e.Untroubled := by
    unfold Engine.Untroubled
    simp [htrace]
  refine ⟨e, hinstall, fun n text source => ?_, fun n name => ?_⟩
  · exact faultless_runText n text source hproper huntroubled
  · exact faultless_runFile n name hproper huntroubled

-- a box which ends within a formula: the list of the formula is closed in place of that of the box
example :
    (do
      let e ← ((Engine.new default {}).install [⟨"hbox", "makebox", [("kind", "h")]⟩]).toOption
      match runText (machine 30) "\\hbox\x7b$\x7d" "" e with
      | .ok _ e => some e.trace.reverse
      | .error _ _ => none) =
    some [.dispatched (.controlSequence "hbox" ""), .groupOpened, .groupExecuted 1, .dispatched (.character .mathShift '$'),
      .mathToggled none, .dispatched (.character .rightBrace '\x7d'), .groupClosed, .listClosed none,
      .dispatched .blank] := by
  decide +kernel

end Compositor
