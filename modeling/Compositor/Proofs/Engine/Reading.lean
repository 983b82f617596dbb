import Compositor.Proofs.Engine.Runs

/-!
# Reading tokens with expansion

A token whose meaning is not expandable is delivered as it is when the input is read with expansion. This module says
what such a token is, and what the simplest scanners do with it:

* `Context.meaning?` is the meaning a token has for the engine, `Context.Unexpandable` says that nothing replaces it;
* `nextExpanded_runs` reads one unexpandable token;
* `Engine.Supplies` says which tokens a reader gives one after the other, `nonBlank_runs` and `nonBlankRaw_runs` skip the
  spaces among them;
* `Engine.Yields` says which tokens an engine reads with expansion, `Reads` follows its single steps.
-/

namespace Compositor

/-! ## Unexpandable tokens -/

/-- The meaning of a token. Characters which are not active have none. -/
def Context.meaning? (c : Context) (t : Token) : Option Meaning := if t.isCode then c.meaning t else none

/-- Tokens with this meaning are replaced by others. -/
def Meaning.isExpandable : Option Meaning → Bool
  | some (.definition _) => true
  | some (.primitive _ _ (.modifier _)) => false
  | some (.primitive _ _ (.command _)) => false
  | some (.primitive _ _ _) => true
  | _ => false

/-- The token is not replaced by others. -/
def Context.Unexpandable (c : Context) (t : Token) : Prop := Meaning.isExpandable (c.meaning? t) = false

instance (c : Context) (t : Token) : Decidable (c.Unexpandable t) := inferInstanceAs (Decidable (_ = _))

theorem Context.meaning?_of_not_isCode (c : Context) {t : Token} (h : t.isCode = false) : c.meaning? t = none := by
  simp [meaning?, h]

theorem Context.unexpandable_of_not_isCode (c : Context) {t : Token} (h : t.isCode = false) : c.Unexpandable t := by
  rw [Unexpandable, meaning?_of_not_isCode c h]
  rfl

theorem Context.unexpandable_of_space (c : Context) {b : Token} (h : b.cat = .space) : c.Unexpandable b :=
  c.unexpandable_of_not_isCode (by simp [Token.isCode, h])

theorem meaningOf_apply {β : Type} (t : Token) (e : Engine) :
    (meaningOf t : Proc β (Option Meaning)) e = .ok (e.context.meaning? t) e := by
  unfold meaningOf Context.meaning?
  split <;> rfl

theorem meaningOf_bind {β γ : Type} (t : Token) (f : Option Meaning → Proc β γ) (e : Engine) :
    (meaningOf t >>= f) e = f (e.context.meaning? t) e := Proc.bind_ok (meaningOf_apply t e)

theorem expand_unexpandable (m : Machine) {t : Token} {e : Engine} (h : e.context.Unexpandable t) :
    expand m t e = .ok false e := by
  rw [expand, meaningOf_bind]
  unfold Context.Unexpandable at h
  generalize e.context.meaning? t = meaning? at h ⊢
  rcases meaning? with _ | meaning
  · rfl
  · cases meaning with
    | primitive id name p =>
      cases p with
      | modifier | command => rfl
      | _ => cases h
    | definition => cases h
    | character | undefined | bare => rfl

/-! ## Single tokens -/

section Tokens

variable {e : Engine} {t : Token} {input : Input}

theorem readExpandedStep_token (hpull : e.input.pull e.context.lexicon = (.token t, input))
    (ht : e.context.Unexpandable t) : Runs readExpandedStep e (.done (some t)) (e.withInput input) := by
  refine Runs.bind (Runs.lift (next_runs hpull)) (Runs.bind (a := false) ?_ (Runs.of_eq fun m => rfl))
  exact Runs.giving (Runs.of_eq fun m => expand_unexpandable (e := e.withInput input) m ht) t

theorem readExpandedStep_expand {e₁ : Engine} (hpull : e.input.pull e.context.lexicon = (.token t, input))
    (hexpand : Runs (expand · t) (e.withInput input) true e₁) : Runs readExpandedStep e (.again ()) e₁ :=
  Runs.bind (Runs.lift (next_runs hpull)) (Runs.bind (hexpand.giving t) (Runs.of_eq fun _ => rfl))

/-- **An unexpandable token is read as it is.** -/
theorem nextExpanded_runs (hpull : e.input.pull e.context.lexicon = (.token t, input))
    (ht : e.context.Unexpandable t) : Runs Machine.nextExpanded e (some t) (e.withInput input) :=
  Runs.nextExpanded (Loops.runs (Loops.done (readExpandedStep_token hpull ht)))

end Tokens

/-! ## Many tokens -/

/-- The reader gives these tokens one after the other, and another engine is left. -/
def Engine.Supplies {β : Type} (read : Machine → Proc β (Option Token)) : Engine → List Token → Engine → Prop :=
  Along fun e t e' => Runs read e (some t) e'

section Supplies

variable {β : Type} {read : Machine → Proc β (Option Token)} {e e' : Engine} {t : Token} {ts us blanks : List Token}
  {rest : Input}

theorem Engine.Supplies.giving {γ : Type} (h : e.Supplies read ts e') (c : γ) :
    e.Supplies (fun m => (read m).giving c) ts e' := Along.map (fun ht => ht.giving c) h

/-- A reader which gives each of the tokens at the head of an input gives what the input delivers. -/
theorem supplies_of_delivers (hread : ∀ t ∈ ts, ∀ i j : Input, i.pull e.context.lexicon = (.token t, j) →
      Runs read (e.withInput i) (some t) (e.withInput j))
    (hinput : e.input.Delivers e.context.lexicon ts rest) : e.Supplies read ts (e.withInput rest) := by
  induction ts generalizing e with
  | nil =>
    rw [← show e.input = rest from hinput, e.withInput_self]
    exact rfl
  | cons t ts ih =>
    obtain ⟨input, hpull, hinput⟩ := hinput
    refine ⟨e.withInput input, hread t List.mem_cons_self e.input input hpull, ih (e := e.withInput input) ?_ hinput⟩
    exact fun u hu => hread u (List.mem_cons_of_mem t hu)

theorem supplies_next (hinput : e.input.Delivers e.context.lexicon ts rest) : e.Supplies Machine.next ts (e.withInput rest) :=
  supplies_of_delivers (fun _ _ i _ hpull => next_runs (e := e.withInput i) hpull) hinput

theorem supplies_nextExpanded (hts : ∀ t ∈ ts, e.context.Unexpandable t)
    (hinput : e.input.Delivers e.context.lexicon ts rest) : e.Supplies Machine.nextExpanded ts (e.withInput rest) :=
  supplies_of_delivers (fun t ht i _ hpull => nextExpanded_runs (e := e.withInput i) hpull (hts t ht)) hinput

/-! ### Spaces -/

theorem skipSpace_runs [Inhabited β] (h : e.Supplies read (blanks ++ [t]) e') (hblanks : ∀ b ∈ blanks, b.cat = .space)
    (hcat : t.cat ≠ .space) : Runs (fun m => iterate (fun _ => return skipSpace (← read m)) m.fuel ()) e (some t) e' := by
  refine Loops.runs ?_
  induction blanks generalizing e with
  | nil =>
    obtain ⟨_, ht, rfl⟩ := h
    refine Loops.done (Runs.bind ht (Runs.of_eq fun m => ?_))
    simp [skipSpace, hcat]
  | cons b blanks ih =>
    obtain ⟨mid, hread, h⟩ := h
    obtain ⟨hb, hblanks⟩ := List.forall_mem_cons.1 hblanks
    have hskip : Runs (fun m => return skipSpace (← read m)) e (.again ()) mid := by
      refine Runs.bind hread (Runs.of_eq fun m => ?_)
      simp [skipSpace, hb]
    exact Loops.again hskip (ih h hblanks)

/-- **The first token which is not a space is read.** -/
theorem nonBlank_runs (hblanks : ∀ b ∈ blanks, b.cat = .space)
    (hinput : e.input.Delivers e.context.lexicon (blanks ++ [t]) rest) (hcat : t.cat ≠ .space)
    (ht : e.context.Unexpandable t) : Runs nonBlank e (some t) (e.withInput rest) := by
  refine skipSpace_runs (supplies_nextExpanded (fun u hu => ?_) hinput) hblanks hcat
  rcases List.mem_append.1 hu with hblank | hlast
  · exact e.context.unexpandable_of_space (hblanks u hblank)
  · exact List.mem_singleton.1 hlast ▸ ht

/-- Without expansion it does not matter what the token means. -/
theorem nonBlankRaw_runs (hblanks : ∀ b ∈ blanks, b.cat = .space)
    (hinput : e.input.Delivers e.context.lexicon (blanks ++ [t]) rest) (hcat : t.cat ≠ .space) :
    Runs nonBlankRaw e (some t) (e.withInput rest) :=
  skipSpace_runs (supplies_next hinput) hblanks hcat

end Supplies

/-! ### Steps of reading -/

/-- Reading with expansion gives these tokens one after the other, and another engine is left. -/
def Engine.Yields : Engine → List Token → Engine → Prop
  | e, [], e' => e = e'
  | e, t :: ts, e' => ∃ mid, Runs Machine.nextExpanded e (some t) mid ∧ Yields mid ts e'

theorem yields_iff_supplies {e e' : Engine} {ts : List Token} : e.Yields ts e' ↔ e.Supplies Machine.nextExpanded ts e' := by
  induction ts generalizing e with
  | nil => exact Iff.rfl
  | cons t ts ih => simp only [Engine.Yields, Engine.Supplies, Along, ih]

/-- Some steps of reading with expansion, and the tokens which they give. A step gives a token or expands one. -/
inductive Reads : Engine → List Token → Engine → Prop
  | refl (e : Engine) : Reads e [] e
  | expand {e e₁ e₂ : Engine} {ts : List Token} :
      Runs readExpandedStep e (.again ()) e₁ → Reads e₁ ts e₂ → Reads e ts e₂
  | token {e e₁ e₂ : Engine} {t : Token} {ts : List Token} :
      Runs readExpandedStep e (.done (some t)) e₁ → Reads e₁ ts e₂ → Reads e (t :: ts) e₂

namespace Reads

variable {e e₁ e₂ : Engine} {ts us : List Token}

theorem trans (h : Reads e ts e₁) (h' : Reads e₁ us e₂) : Reads e (ts ++ us) e₂ := by
  induction h with
  | refl => exact h'
  | expand hstep _ ih => exact expand hstep (ih h')
  | token hstep _ ih => exact token hstep (ih h')

theorem expanded (h : Runs readExpandedStep e (.again ()) e₁) : Reads e [] e₁ := expand h (refl e₁)

theorem loops (h : Reads e ts e₁) {t : Token} (ht : Runs readExpandedStep e₁ (.done (some t)) e₂) :
    ∃ u us mid, ts ++ [t] = u :: us ∧ Loops (fun m (_ : Unit) => readExpandedStep m) () e (some u) mid ∧
      mid.Yields us e₂ := by
  induction h with
  | refl e => exact ⟨t, [], e₂, rfl, Loops.done ht, rfl⟩
  | expand hstep _ ih =>
    obtain ⟨u, us, mid, hts, hloop, hyields⟩ := ih ht
    exact ⟨u, us, mid, hts, Loops.again hstep hloop, hyields⟩
  | @token e e' _ u ts hstep _ ih =>
    obtain ⟨v, us, mid, hts, hloop, hyields⟩ := ih ht
    refine ⟨u, ts ++ [t], e', rfl, Loops.done hstep, ?_⟩
    rw [hts]
    exact ⟨mid, Runs.nextExpanded (Loops.runs hloop), hyields⟩

/-- **Single steps which end with a token make up calls of the reader.** -/
theorem yields (h : Reads e ts e₁) {t : Token} (ht : Runs readExpandedStep e₁ (.done (some t)) e₂) :
    e.Yields (ts ++ [t]) e₂ := by
  obtain ⟨u, us, mid, hts, hloop, hyields⟩ := h.loops ht
  rw [hts]
  exact ⟨mid, Runs.nextExpanded (Loops.runs hloop), hyields⟩

end Reads

end Compositor
