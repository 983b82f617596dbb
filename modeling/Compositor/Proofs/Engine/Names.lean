import Compositor.Proofs.Engine.Meanings
import Compositor.Proofs.Engine.Reading
import Compositor.Proofs.Engine.Substitution

/-!
# Names which are not defined

Where a name between `csname` and `endcsname` has no meaning yet, its control sequence gets the meaning of a `relax`. This
one is new: it has a number of its own, and so it is not the same as the primitive of that name or as any other meaning
which is there. A copy of an undefined control sequence has a meaning, and keeps it.

* `nameCharacters_runs` reads a name which is spelled by characters;
* `Engine.named` is the engine after a name has been read, `controlSequenceName_of_name` says that nothing else happens;
* `undefined_name_differs` is the statement about all states of runs.
-/

namespace Compositor

/-! ## Comparing meanings -/

namespace Context

variable {c : Context} {t u : Token} {m : Meaning}

/-- Where an undefined token gets a meaning, the other ones keep theirs, also those which they have from the default name
space. -/
theorem meaning_setMeaning_of_undefined (ht : c.meaning t = none) (hu : c.meaning u = some m) (v : Option Meaning)
    (globally : Bool) : (c.setMeaning t v globally).meaning u = some m := by
  have hundefined : c.get (.meaning t) = none := by
    unfold meaning at ht
    split at ht
    · cases ht
    · assumption
  have hne : u ≠ t := by
    rintro rfl
    cases hu.symm.trans ht
  unfold meaning at hu ⊢
  rw [c.get_setMeaning_of_ne hne]
  split at hu
  · exact hu
  · split at hu
    · have hdefault : u.inSpace "" ≠ t := by
        intro heq
        cases (heq ▸ hu).symm.trans hundefined
      rw [if_pos ‹_›, c.get_setMeaning_of_ne hdefault]
      exact hu
    · cases hu

theorem meaning_of_resolve (hu : resolve c u = some m) (hcode : u.isCode = true) : c.meaning u = some m := by
  unfold resolve at hu
  rw [if_pos hcode] at hu
  split at hu
  · cases hu
  · exact hu

theorem resolve_of_not_isCode (c c' : Context) (hcode : u.isCode = false) : resolve c' u = resolve c u := by
  simp [resolve, hcode]

theorem resolve_setMeaning_of_undefined (ht : c.meaning t = none) (hu : resolve c u = some m) (v : Option Meaning)
    (globally : Bool) : resolve (c.setMeaning t v globally) u = some m := by
  cases hcode : u.isCode with
  | false => rw [resolve_of_not_isCode c _ hcode, hu]
  | true =>
    have hmeaning := meaning_of_resolve hu hcode
    have hkept := meaning_setMeaning_of_undefined ht hmeaning v globally
    rw [← hu]
    simp only [resolve, hcode, if_true, hkept, hmeaning]

end Context

theorem Meaning.same_primitive {id : Nat} {name : String} {p : Primitive} {m : Meaning}
    (h : (Meaning.primitive id name p).same m = true) : m.number? = some id := by
  have heq : Meaning.primitive id name p = m := by simpa [Meaning.same] using h
  rw [← heq]
  rfl

/-! ## Names -/

namespace Engine

/-- The engine after the control sequence of a name has been looked up. If it is undefined, it means a new `relax` now. -/
def named (e : Engine) (t : Token) : Engine :=
  if (e.context.meaning t).isNone then
    { e with
      serial := e.serial + 1
      context := e.context.setMeaning t (some (.primitive e.serial "relax" (.command .relax))) false }
  else e

variable {e : Engine} {t : Token}

theorem named_of_undefined (h : e.context.meaning t = none) :
    e.named t = { e with
      serial := e.serial + 1
      context := e.context.setMeaning t (some (.primitive e.serial "relax" (.command .relax))) false } := by
  simp [named, h]

theorem named_of_meaning {m : Meaning} (h : e.context.meaning t = some m) : e.named t = e := by simp [named, h]

/-- An undefined control sequence is not the same as any token which means something, after its name has been looked up. -/
theorem Numbered.differs (he : e.Numbered) (ht : t.isCode = true) (hundefined : resolve e.context t = none) {u : Token}
    {m : Meaning} (hu : resolve e.context u = some m) :
    resolve (e.named t).context u = some m ∧ sameMeaning (e.named t).context t u = false := by
  cases hmeaning : e.context.meaning t with
  | some copy =>
    -- a copy of an undefined control sequence, which stays one
    rw [named_of_meaning hmeaning]
    exact ⟨hu, by simp [sameMeaning, hundefined, hu]⟩
  | none =>
    let relax := Meaning.primitive e.serial "relax" (.command .relax)
    rw [named_of_undefined hmeaning]
    have hkept := Context.resolve_setMeaning_of_undefined hmeaning hu (some relax) false
    refine ⟨hkept, ?_⟩
    have hnew : resolve (e.context.setMeaning t (some relax) false) t = some relax := by
      simp only [resolve, ht, if_true, Context.meaning_setMeaning, relax]
    have heq : sameMeaning (e.context.setMeaning t (some relax) false) t u = relax.same m := by
      rw [sameMeaning, hnew, hkept]
    refine Bool.eq_false_iff.2 fun hsame => ?_
    rw [heq] at hsame
    have hnumber : m.number? = some e.serial := Meaning.same_primitive hsame
    cases hcode : u.isCode with
    | false =>
      obtain rfl : Meaning.character "" u = m := by simpa [resolve, hcode] using hu
      cases hnumber
    | true =>
      have hbinds := Context.binds_of_meaning (Context.meaning_of_resolve hu hcode)
      exact Nat.lt_irrefl _ (he m hbinds e.serial hnumber)

end Engine

section Reading

variable {m : Machine} {e e₁ : Engine} {name : String} {problem : Option Diagnostic}

/-- The end mark of a name is a control sequence or an active character which nothing replaces. -/
theorem isCode_of_isEndName {last : Token} (hlast : isEndName (e.context.meaning? last) = true) :
    last.isCode = true ∧ e.context.Unexpandable last := by
  unfold isEndName at hlast
  split at hlast
  · next hmeaning =>
    refine ⟨?_, by rw [Context.Unexpandable, hmeaning]; rfl⟩
    by_contra hcode
    rw [Context.meaning?_of_not_isCode _ (Bool.eq_false_iff.2 hcode)] at hmeaning
    cases hmeaning
  · cases hlast

/-- **Characters up to the end mark are a name.** -/
theorem nameCharacters_runs {ts : List Token} {last : Token} {rest : Input} (hts : ∀ t ∈ ts, t.isCode = false)
    (hlast : isEndName (e.context.meaning? last) = true) (hinput : e.input.Delivers e.context.lexicon (ts ++ [last]) rest) :
    Runs nameCharacters e (String.join (ts.map Token.name), none) (e.withInput rest) := by
  refine Loops.runs ?_
  rw [← String.empty_append (s := String.join (ts.map Token.name))]
  -- the name grows by a character in each turn of the loop
  generalize "" = sofar
  induction ts generalizing e sofar with
  | nil =>
    obtain ⟨input, hpull, rfl⟩ := hinput
    obtain ⟨hcode, hunexpandable⟩ := isCode_of_isEndName hlast
    refine .done ((nextExpanded_runs hpull hunexpandable).lift.bind (.of_eq fun m => ?_))
    simp [hcode, meaningOf_bind, hlast]
  | cons t ts ih =>
    obtain ⟨input, hpull, hinput⟩ := hinput
    have ht : t.isCode = false := hts t (by simp)
    have hread := nextExpanded_runs hpull (e.context.unexpandable_of_not_isCode ht)
    have hrest := ih (e := e.withInput input) (fun t ht => hts t (by simp [ht])) hlast hinput (sofar ++ t.name)
    rw [List.map_cons, String.join_cons, ← String.append_assoc]
    refine .again (hread.lift.bind (.of_eq fun m => ?_)) hrest
    simp [ht]

/-- After the name has been read, its control sequence is looked up. -/
theorem controlSequenceName_of_name (h : nameCharacters m e = .ok (name, problem) e₁) :
    controlSequenceName m e = .ok { tokens := [.controlSequence name e₁.context.space], problem }
      (e₁.named (.controlSequence name e₁.context.space)) := by
  rw [controlSequenceName, Proc.bind_ok h]
  simp only [Proc.context_bind]
  unfold Engine.named
  split <;> rfl

theorem expand_of_name (h : nameCharacters m e = .ok (name, none) e₁) {t : Token} {id : Nat} {csname : String}
    (ht : e.context.meaning? t = some (.primitive id csname (.expansion .controlSequenceName))) :
    expand m t e = .ok true ((e₁.named (.controlSequence name e₁.context.space)).pushTokens
      [.controlSequence name e₁.context.space]) := by
  let t₁ := Token.controlSequence name e₁.context.space
  have hreplacement :
      (replacement m .controlSequenceName).giving ({} : Replacement) e = .ok { tokens := [t₁] } (e₁.named t₁) :=
    Proc.leaving_eq_ok.2 (controlSequenceName_of_name h)
  have habsorb : absorb m ((replacement m .controlSequenceName).giving ({} : Replacement)) e =
      .ok { tokens := [t₁] } (e₁.named t₁) := by
    simp only [absorb, hreplacement]
  rw [expand, meaningOf_bind, ht]
  show (insertReplacement m (replacement m .controlSequenceName) >>= fun _ => pure true) e = _
  rw [insertReplacement, bind_assoc, Proc.bind_ok habsorb]
  rfl

end Reading

/-! ## The main statement -/

/-- No new meaning has a number which is still to be given, wherever a run with the built-in primitives gets to. -/
theorem Engine.install_builtin_numbered (id : String) (moment : Moment) (settings : Settings) (files : FileStore)
    (fonts : FontSource) (search : NameSearch) (handler : Handler) (console : Console) :
    ∃ e, Engine.install { Engine.new (Context.new id moment) settings with files, fonts, search, handler, console }
      Declaration.builtin = .ok e ∧ ∀ e₁, e.Visits e₁ → e₁.Numbered := by
  obtain ⟨e, hinstall, -, -⟩ := Engine.install_builtin id moment settings files fonts search handler console
  have hnew : ({ Engine.new (Context.new id moment) settings with files, fonts, search, handler, console } : Engine).Numbered :=
    Engine.new_numbered id moment settings
  exact ⟨e, hinstall, fun e₁ hvisits => (hnew.install hinstall).names hvisits.names⟩

/-- **An undefined name gets a meaning of its own.** In all states of all runs of a new engine with the built-in primitives,
the characters up to `endcsname` are a name, and whenever a name has been read, `csname` is replaced by its control sequence
in the current name space.

If this one is undefined, or a copy of an undefined one, then it is not the same as any token which means something, be it
`relax` or another one, and these mean what they have meant before. If it has no meaning it gets the one of a new `relax`:
it is not replaced, and does nothing when it is executed. If it has a meaning, also as a copy of an undefined one, nothing
is assigned. -/
theorem undefined_name_is_no_relax (id : String) (moment : Moment) (settings : Settings) (files : FileStore)
    (fonts : FontSource) (search : NameSearch) (handler : Handler) (console : Console) :
    ∃ e, Engine.install { Engine.new (Context.new id moment) settings with files, fonts, search, handler, console }
        Declaration.builtin = .ok e ∧
      ∀ e₁, e.Visits e₁ →
        (∀ ts last rest, (∀ t ∈ ts, t.isCode = false) → isEndName (e₁.context.meaning? last) = true →
          e₁.input.Delivers e₁.context.lexicon (ts ++ [last]) rest →
            Runs nameCharacters e₁ (String.join (ts.map Token.name), none) (e₁.withInput rest)) ∧
        ∀ n name problem mid, nameCharacters (machine n) e₁ = .ok (name, problem) mid →
          let t := Token.controlSequence name mid.context.space
          let e₂ := mid.named t
          controlSequenceName (machine n) e₁ = .ok { tokens := [t], problem } e₂ ∧
          (∀ u number csname, problem = none →
            e₁.context.meaning? u = some (.primitive number csname (.expansion .controlSequenceName)) →
              expand (machine n) u e₁ = .ok true (e₂.pushTokens [t])) ∧
          (resolve mid.context t = none → ∀ u meaning, resolve mid.context u = some meaning →
            resolve e₂.context u = some meaning ∧ sameMeaning e₂.context t u = false) ∧
          (mid.context.meaning t = none →
            e₂.context.meaning t = some (.primitive mid.serial "relax" (.command .relax)) ∧ ∀ m, e₂.Idles m t) ∧
          ∀ meaning, mid.context.meaning t = some meaning → e₂ = mid := by
  obtain ⟨e, hinstall, hnumbered⟩ := Engine.install_builtin_numbered id moment settings files fonts search handler console
  refine ⟨e, hinstall, fun e₁ hvisits => ⟨fun _ _ _ => nameCharacters_runs, fun n name problem mid hname => ?_⟩⟩
  intro t e₂
  have hmid : mid.Numbered := by
    let R : Regime := ⟨False, .scanning, False⟩
    have hmeets : MeetsAt R (nameCharacters (machine n)) _ e₁ := meets_nameCharacters (machine_sound n) e₁ False.elim
    exact (hnumbered e₁ hvisits).names (hmeets.ok hname).1.names
  refine ⟨controlSequenceName_of_name hname, ?_, fun hundefined u meaning hu => hmid.differs rfl hundefined hu, ?_, ?_⟩
  · rintro u number csname rfl hu
    exact expand_of_name hname hu
  · intro hnone
    have hmeaning : e₂.context.meaning t = some (.primitive mid.serial "relax" (.command .relax)) := by
      simp only [e₂, Engine.named_of_undefined hnone, Context.meaning_setMeaning]
    exact ⟨hmeaning, Engine.idles_of_relax rfl hmeaning⟩
  · exact fun meaning => Engine.named_of_meaning

/-- In a new engine, `x` gets a meaning which is not that of `relax`. -/
theorem undefined_name_is_no_relax_fresh :
    let x := Token.controlSequence "x" ""
    ∃ e, Engine.equipped = some e ∧ ∃ mid,
      nameCharacters (machine 20) (e.pushText "x\\endcsname" "") = .ok ("x", none) mid ∧ mid.context.meaning x = none ∧
        controlSequenceName (machine 20) (e.pushText "x\\endcsname" "") = .ok { tokens := [x] } (mid.named x) ∧
        sameMeaning (mid.named x).context x (.controlSequence "relax" "") = false := by
  intro x
  obtain ⟨e, hinstall, hnames⟩ := undefined_name_is_no_relax "" ⟨1776, 7, 4, 12, 0⟩ {} {} .schematic (fun _ _ => []) (.recorder 0) {}
  have hequipped := Engine.equipped_of_install hinstall
  have hread : (Engine.equipped.map fun e =>
      let r := nameCharacters (machine 20) (e.pushText "x\\endcsname" "")
      let mid := finalState r
      ((valueOf r, mid.context.space), (mid.context.meaning x, resolve mid.context (.controlSequence "relax" "")))) =
    some ((some ("x", none), ""), (none, some (.primitive 82 "relax" (.command .relax)))) := by
      decide +kernel
  rw [hequipped] at hread
  obtain ⟨hvalue, hmeanings⟩ := Prod.mk.inj (Option.some.inj hread)
  obtain ⟨hread, hspace⟩ := Prod.mk.inj hvalue
  obtain ⟨hnone, hrelax⟩ := Prod.mk.inj hmeanings
  have hname := eq_ok_of_valueOf hread
  generalize finalState (nameCharacters (machine 20) (e.pushText "x\\endcsname" "")) = mid at hname hspace hnone hrelax
  have hvisits : e.Visits (e.pushText "x\\endcsname" "") := .course .refl (.scan (.refl e) (.pushText _ _))
  obtain ⟨hfound, -, hdiffers, -⟩ := (hnames _ hvisits).2 20 "x" none mid hname
  rw [hspace] at hfound hdiffers
  have hundefined : resolve mid.context x = none := by simp [resolve, x, hnone, show x.isCode = true from rfl]
  exact ⟨e, hequipped, mid, hname, hnone, hfound, (hdiffers hundefined _ _ hrelax).2⟩

/-- `x` is undefined and `relax` is the primitive. After `x` has been named, `ifx` finds that it is not a `relax`, and the
second branch is executed. -/
theorem undefined_name_compared :
    (Engine.equipped.map fun e =>
      let e' := e.ran "\\expandafter\\ifx\\csname x\\endcsname\\relax y\\else n\\fi"
      let x := Token.controlSequence "x" ""
      let relax := Token.controlSequence "relax" ""
      (e.context.meaning x, e.context.meaning relax, e'.context.meaning relax, sameMeaning e'.context x relax,
        e'.typesetter.events.toList)) =
    some (none, some (.primitive 82 "relax" (.command .relax)), some (.primitive 82 "relax" (.command .relax)), false,
      [.letter 'n']) := by
  decide +kernel

end Compositor
