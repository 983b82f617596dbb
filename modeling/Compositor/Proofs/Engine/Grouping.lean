import Compositor.Proofs.Engine.Handling
import Compositor.Proofs.Engine.Omissions
import Compositor.Proofs.Engine.Substitution

/-!
# Texts in braces are read as groups

A text in braces may have any braces in it, as long as they are balanced. The scanner looks for a left brace after some
spaces, and then for the right brace which closes its group. It reads on if one of them is missing, but not without
reporting that.

* `IsPaddedGroup` says that a list of tokens is a group after some spaces;
* `Engine.missing` counts the reports of missing tokens, `Engine.Draws` says what a reader has given;
* `balancedText_draws`: if no token has been reported to be missing, a group has been read, whatever the reader is;
* `group_read_exactly` says both: groups are read, and nothing else is taken for one.
-/

namespace Compositor

/-- The list consists of spaces and a group around `inner`. -/
def IsPaddedGroup (ts inner : List Token) : Prop :=
  ∃ blanks group, (∀ b ∈ blanks, b.cat = .space) ∧ IsGroup group inner ∧ ts = blanks ++ group

/-! ## Missing tokens -/

/-- The number of tokens which have been reported to be missing. -/
def Engine.missing (e : Engine) : Nat := e.trace.countP TraceEntry.isMissing

section Missing

variable {α β : Type} {n : Nat} {e e' : Engine}

theorem Meets.missing_le {p : Proc β α} {Q : α → Prop} {a : α} (hp : Meets ⟨False, .scanning, False⟩ p Q)
    (h : p e = .ok a e') : e.missing ≤ e'.missing := by
  obtain ⟨o, hcourse⟩ := Attains.course (hp e False.elim)
  rw [h] at hcourse
  exact hcourse.trace_suffix.sublist.countP_le

theorem missing_of_reportHere {arguments : List Argument}
    (h : (reportHere (machine n) .missingToken arguments : Action Unit) e = .ok () e') : e'.missing = e.missing + 1 := by
  have hfilter := report_filter noAftermath_isMissing (omits_next n)
    { kind := .missingToken, place := e.locator, arguments } e
  rw [show report (machine n) { kind := .missingToken, place := e.locator, arguments } e = .ok () e' from h] at hfilter
  have hcount := congrArg List.length hfilter
  rw [List.length_append, ← List.countP_eq_length_filter, ← List.countP_eq_length_filter, ← List.countP_eq_length_filter,
    List.countP_singleton] at hcount
  rw [Engine.missing, Engine.missing, Nat.add_comm]
  exact hcount

end Missing

/-! ## What a reader has given -/

/-- The reader gives these tokens one after the other, with the fuel it has, and another engine is left. -/
def Engine.Draws {β : Type} (read : Proc β (Option Token)) : Engine → List Token → Engine → Prop :=
  Along fun e t e' => read e = .ok (some t) e'

section Draws

variable {β : Type} {read : Proc β (Option Token)} {n : Nat} {e e' : Engine} {t : Token} {ts us : List Token}

theorem nextToken_true_eq_ok {x : Option Token} :
    nextToken true (machine n) e = .ok x e' ↔ (machine n).nextExpanded e = .ok x e' := by
  rw [nextToken, if_pos rfl]
  exact Proc.leaving_eq_ok

theorem draws_nextToken : e.Draws (nextToken true (machine n)) ts e' ↔ e.Draws (machine n).nextExpanded ts e' :=
  ⟨Along.map nextToken_true_eq_ok.1, Along.map nextToken_true_eq_ok.2⟩

/-- Each of the tokens which are read with expansion is unexpandable when it is read. -/
theorem unexpandable_of_draws (h : e.Draws (machine n).nextExpanded ts e') {us vs : List Token} (hts : ts = us ++ t :: vs) :
    ∃ mid, e.Draws (machine n).nextExpanded (us ++ [t]) mid ∧ mid.context.Unexpandable t := by
  rw [hts] at h
  obtain ⟨e₁, hus, e₂, ht, -⟩ := along_append.1 h
  exact ⟨e₂, along_append.2 ⟨e₁, hus, e₂, ht, rfl⟩, unexpandable_of_nextExpanded ht⟩

/-- An input of unexpandable tokens gives them one after the other, be it read with expansion or not. -/
theorem draws_of_holds {expanded : Bool} (hinput : e.input.Holds e.context.lexicon ts)
    (hts : ∀ t ∈ ts, e.context.Unexpandable t) (h : e.Draws (nextToken expanded (machine n)) us e') :
    ∃ vs rest, ts = us ++ vs ∧ e' = e.withInput rest ∧ rest.Holds e.context.lexicon vs := by
  induction us generalizing e ts with
  | nil =>
    obtain rfl : e = e' := h
    exact ⟨ts, e.input, rfl, rfl, hinput⟩
  | cons u us ih =>
    obtain ⟨mid, hread, h⟩ := h
    have hpull : ∀ pulled rest, e.input.pull e.context.lexicon = (pulled, rest) → (∀ c place, pulled ≠ .invalid c place) →
        (∀ t ∈ pulled.token?, e.context.Unexpandable t) → some u = pulled.token? ∧ mid = e.withInput rest := by
      intro pulled rest hpull hvalid ht
      cases expanded with
      | false => exact next_of_pull hpull hvalid hread
      | true => exact nextExpanded_of_pull hpull hvalid ht (nextToken_true_eq_ok.1 hread)
    obtain ⟨rest, hdelivers, hend⟩ := hinput
    cases ts with
    | nil =>
      rw [show e.input = rest from hdelivers] at hpull
      cases (hpull _ _ hend (by simp) (by simp [Pulled.token?])).1
    | cons t ts =>
      obtain ⟨ht, hmore⟩ := List.forall_mem_cons.1 hts
      obtain ⟨input, hfirst, hdelivers⟩ := hdelivers
      obtain ⟨hu, rfl⟩ := hpull _ _ hfirst (by simp) (by simpa [Pulled.token?] using ht)
      cases hu
      obtain ⟨vs, rest', rfl, rfl, hvs⟩ := ih (e := e.withInput input) ⟨rest, hdelivers, hend⟩ hmore h
      exact ⟨vs, rest', rfl, rfl, hvs⟩

end Draws

/-! ## What has been read when nothing is missing -/

section Soundness

variable {n fuel level : Nat} {e e' : Engine} {t : Token} {acc body : List Token}

theorem skipSpace_draws {β : Type} [Inhabited β] {read : Proc β (Option Token)}
    (h : iterate (fun _ => return skipSpace (← read)) fuel () e = .ok (some t) e') :
    ∃ blanks : List Token, (∀ b ∈ blanks, b.cat = .space) ∧ e.Draws read (blanks ++ [t]) e' := by
  induction fuel generalizing e with
  | zero => cases h
  | succ fuel ih =>
    rw [iterate] at h
    obtain ⟨turn, mid, hturn, h⟩ := Proc.bind_eq_ok h
    obtain ⟨x, e₁, hread, hturn⟩ := Proc.bind_eq_ok hturn
    cases x with
    | none =>
      cases hturn
      cases h
    | some b =>
      by_cases hb : b.cat = .space
      · simp only [skipSpace, hb, if_true] at hturn
        cases hturn
        obtain ⟨blanks, hblanks, hdraws⟩ := ih h
        exact ⟨b :: blanks, List.forall_mem_cons.2 ⟨hb, hblanks⟩, mid, hread, hdraws⟩
      · simp only [skipSpace, hb, if_false] at hturn
        cases hturn
        cases h
        exact ⟨[], by simp, e', hread, rfl⟩

/-- If no left brace is reported to be missing, there is one after some spaces. -/
theorem openingBrace_draws (h : openingBrace (machine n) e = .ok () e') (hmissing : e'.missing ≤ e.missing) :
    ∃ (blanks : List Token) (left : Token), (∀ b ∈ blanks, b.cat = .space) ∧ left.cat = .leftBrace ∧
      e.Draws (machine n).nextExpanded (blanks ++ [left]) e' := by
  obtain ⟨x, e₁, hfirst, h⟩ := Proc.bind_eq_ok h
  rw [Proc.lift_eq_ok] at hfirst
  have hle : e.missing ≤ e₁.missing := (meets_nonBlank (machine_sound n)).missing_le hfirst
  cases x with
  | none =>
    have hreport := missing_of_reportHere (h : reportHere (machine n) .missingToken _ e₁ = .ok () e')
    omega
  | some t =>
    by_cases ht : t.cat = .leftBrace
    · simp only [ht, beq_self_eq_true] at h
      cases h
      obtain ⟨blanks, hblanks, hdraws⟩ := skipSpace_draws hfirst
      exact ⟨blanks, t, hblanks, ht, hdraws⟩
    · have hother : (t.cat == .leftBrace) = false := by simpa using ht
      simp only [hother, Bool.false_eq_true] at h
      have hreport := missing_of_reportHere (e := e₁.pushTokens [t])
        (h : reportHere (machine n) .missingToken _ (e₁.pushTokens [t]) = .ok () e')
      have hpush : (e₁.pushTokens [t]).missing = e₁.missing := rfl
      omega

/-- If no right brace is reported to be missing, the text is balanced and there is one after it. The induction is on the
turns of the loop: `level` groups are open after the tokens in `acc`. -/
theorem textStep_draws {next : Action (Option Token)} (hnext : ∀ {x e₁ e₂}, next e₁ = .ok x e₂ → e₁.missing ≤ e₂.missing)
    (h : iterate (textStep (machine n) next) fuel (level, acc) e = .ok body e') (hmissing : e'.missing ≤ e.missing) :
    ∃ (us : List Token) (right : Token), body = acc ++ us ∧ levelAfter level us = some 0 ∧ right.cat = .rightBrace ∧
      e.Draws next (us ++ [right]) e' := by
  induction fuel generalizing level acc e with
  | zero => cases h
  | succ fuel ih =>
    rw [iterate] at h
    obtain ⟨turn, mid, hturn, h⟩ := Proc.bind_eq_ok h
    obtain ⟨x, e₁, hread, hturn⟩ := Proc.bind_eq_ok hturn
    replace hread := Proc.leaving_eq_ok.1 hread
    have hle : e.missing ≤ e₁.missing := hnext hread
    cases x with
    | none =>
      obtain ⟨_, e₂, hreport, hdone⟩ := Proc.bind_eq_ok hturn
      cases hdone
      cases h
      have hreport := missing_of_reportHere (Proc.leaving_eq_ok.1 hreport)
      omega
    | some t =>
      cases hnest : t.nest level with
      | none =>
        simp only [hnest] at hturn
        cases hturn
        cases h
        obtain ⟨ht, rfl⟩ := Token.nest_eq_none hnest
        exact ⟨[], t, by simp, rfl, ht, e', hread, rfl⟩
      | some level' =>
        simp only [hnest] at hturn
        cases hturn
        obtain ⟨us, right, rfl, hus, hright, hdraws⟩ := ih h (hmissing.trans hle)
        refine ⟨t :: us, right, by simp, ?_, hright, mid, hread, hdraws⟩
        rw [levelAfter_cons, hnest]
        exact hus

/-- **A text in braces is a group after some spaces**, unless a token is reported to be missing. -/
theorem balancedText_draws {expanded : Bool} (h : balancedText (machine n) expanded e = .ok body e')
    (hmissing : e'.missing = e.missing) :
    ∃ opening rest mid, IsPaddedGroup (opening ++ rest) body ∧ e.Draws (machine n).nextExpanded opening mid ∧
      mid.Draws (nextToken expanded (machine n)) rest e' := by
  have hm := machine_sound n
  obtain ⟨_, mid, hopening, htext⟩ := Proc.bind_eq_ok h
  rw [Proc.lift_eq_ok] at hopening
  have hnext : Meets ⟨False, .scanning, False⟩ (nextToken expanded (machine n)) fun x => ∀ t ∈ x, False → t.Proper := by
    cases expanded with
    | false => exact hm.next
    | true => exact hm.nextExpanded.giving ()
  have hle : e.missing ≤ mid.missing := (meets_openingBrace hm).missing_le hopening
  have hle' : mid.missing ≤ e'.missing := (meets_untilRightBrace hm hnext).missing_le htext
  obtain ⟨blanks, left, hblanks, hleft, hfirst⟩ := openingBrace_draws hopening (by omega)
  obtain ⟨us, right, heq, hbalanced, hright, hdraws⟩ := textStep_draws hnext.missing_le htext (by omega)
  obtain rfl : body = us := heq
  refine ⟨blanks ++ [left], body ++ [right], mid, ?_, hfirst, hdraws⟩
  exact ⟨blanks, left :: (body ++ [right]), hblanks, ⟨left, right, hleft, hright, hbalanced, rfl⟩, by simp⟩

end Soundness

/-! ## Groups -/

section Groups

variable {e e' : Engine} {ts inner : List Token} {rest : Input}

/-- A group is read as it is, whatever its tokens mean. -/
theorem balancedText_of_delivers (h : IsPaddedGroup ts inner) (hinput : e.input.Delivers e.context.lexicon ts rest) :
    Runs (balancedText · false) e inner (e.withInput rest) := by
  obtain ⟨blanks, group, hblanks, ⟨left, right, hleft, hright, hbalanced, rfl⟩, rfl⟩ := h
  exact balancedText_runs hblanks hleft hright hbalanced (by simp) hinput

/-- A group which comes from reading with expansion is read with expansion. -/
theorem balancedText_of_yields (h : IsPaddedGroup ts inner) (hyields : e.Yields ts e') :
    Runs (balancedText · true) e inner e' := by
  obtain ⟨blanks, group, hblanks, ⟨left, right, hleft, hright, hbalanced, rfl⟩, rfl⟩ := h
  rw [← List.singleton_append, ← List.append_assoc] at hyields
  obtain ⟨mid, hopening, hbody⟩ := along_append.1 (yields_iff_supplies.1 hyields)
  exact balancedText_supplied hblanks hleft hright hbalanced hopening (Engine.Supplies.giving hbody ())

end Groups

/-- **Exactly the groups are read.** Without expansion a group after some spaces is read from the input, and nothing else is
changed. With expansion the same holds if the group is what reading with expansion gives. Conversely, what is read from an
input of unexpandable tokens is a group after some spaces at its start, and the other tokens are left, unless a token has
been reported to be missing. With expansion, what reading with expansion has given is such a group, and none of its tokens
could have been expanded when it was read. -/
theorem group_read_exactly (e : Engine) :
    (∀ ts inner rest, IsPaddedGroup ts inner → e.input.Delivers e.context.lexicon ts rest →
      Runs (balancedText · false) e inner (e.withInput rest)) ∧
    (∀ ts inner e', IsPaddedGroup ts inner → e.Yields ts e' → Runs (balancedText · true) e inner e') ∧
    (∀ ts, e.input.Holds e.context.lexicon ts → (∀ t ∈ ts, e.context.Unexpandable t) → ∀ n expanded inner e',
      balancedText (machine n) expanded e = .ok inner e' → e'.missing = e.missing →
      ∃ us vs rest, ts = us ++ vs ∧ IsPaddedGroup us inner ∧ e' = e.withInput rest ∧ rest.Holds e.context.lexicon vs) ∧
    (∀ n inner e', balancedText (machine n) true e = .ok inner e' → e'.missing = e.missing →
      ∃ ts, IsPaddedGroup ts inner ∧ e.Draws (machine n).nextExpanded ts e' ∧
        ∀ us t vs, ts = us ++ t :: vs →
          ∃ mid, e.Draws (machine n).nextExpanded (us ++ [t]) mid ∧ mid.context.Unexpandable t) := by
  refine ⟨fun _ _ _ => balancedText_of_delivers, fun _ _ _ => balancedText_of_yields, ?_, ?_⟩
  · intro ts hinput hts n expanded inner e' h hmissing
    obtain ⟨opening, body, mid, hgroup, hopening, hbody⟩ := balancedText_draws h hmissing
    obtain ⟨us, input, rfl, rfl, hus⟩ := draws_of_holds hinput hts (draws_nextToken.2 hopening)
    have hrest : ∀ t ∈ us, e.context.Unexpandable t := fun t ht => hts t (List.mem_append_right opening ht)
    obtain ⟨vs, rest, rfl, rfl, hvs⟩ := draws_of_holds (e := e.withInput input) hus hrest hbody
    exact ⟨opening ++ body, vs, rest, (List.append_assoc ..).symm, hgroup, rfl, hvs⟩
  · intro n inner e' h hmissing
    obtain ⟨opening, body, mid, hgroup, hopening, hbody⟩ := balancedText_draws h hmissing
    have hdraws := along_append.2 ⟨mid, hopening, draws_nextToken.1 hbody⟩
    exact ⟨opening ++ body, hgroup, hdraws, fun us t vs hts => unexpandable_of_draws hdraws hts⟩

/-- Braces within the text belong to it. -/
theorem group_read_exactly_nested :
    let inner : List Token := [.letter 'a', .leftBrace, .letter 'b', .rightBrace]
    let ts : List Token := .blank :: .leftBrace :: (inner ++ [.rightBrace])
    let rest := Input.pushTokens [] [.letter 'c']
    let e : Engine := { context := {}, input := rest.pushTokens ts }
    Runs (balancedText · false) e inner (e.withInput rest) ∧ Runs (balancedText · true) e inner (e.withInput rest) ∧
    (∃ us vs left, ts ++ [.letter 'c'] = us ++ vs ∧ IsPaddedGroup us inner ∧ e.withInput rest = e.withInput left ∧
      left.Holds e.context.lexicon vs) ∧
    (∃ n us, IsPaddedGroup us inner ∧ e.Draws (machine n).nextExpanded us (e.withInput rest)) := by
  intro inner ts rest e
  obtain ⟨hraw, hexpanded, hplain, hdrawn⟩ := group_read_exactly e
  have hgroup : IsPaddedGroup ts inner :=
    ⟨[.blank], .leftBrace :: (inner ++ [.rightBrace]), by decide, ⟨.leftBrace, .rightBrace, rfl, rfl, by decide, rfl⟩, rfl⟩
  have hinput : e.input.Delivers e.context.lexicon ts rest := rest.delivers_pushTokens ts
  have hread : e.Yields ts (e.withInput rest) := yields_iff_supplies.2 (supplies_nextExpanded (by decide) hinput)
  have hruns := hexpanded ts inner _ hgroup hread
  obtain ⟨n, hn⟩ := id hruns
  refine ⟨hraw ts inner rest hgroup hinput, hruns, ?_, n, ?_⟩
  · have hholds : e.input.Holds e.context.lexicon (ts ++ [.letter 'c']) :=
      Input.holds_pushTokens ts (Input.holds_pushTokens [.letter 'c'] Input.holds_nil)
    exact hplain _ hholds (by decide) n true inner _ (hn n (Nat.le_refl n)) rfl
  · obtain ⟨us, hus, hdraws, -⟩ := hdrawn n inner _ (hn n (Nat.le_refl n)) rfl
    exact ⟨us, hus, hdraws⟩

end Compositor
