import Compositor.Proofs.Engine.Constants
import Mathlib.Data.List.Forall2

/-!
# Scanners on lists of tokens

A scanner puts back what it has read too much, so what is left of an input is not always a part of it. What matters is
which tokens are going to be read next. `Parses e p ts a us` says of a scanner that from an input which delivers the tokens
`ts` it gets the value `a`, and leaves an input which delivers `us`; nothing else changes in the engine.

* `Parses.bind` joins two scanners, `ParsesLoop` is the same notion for a loop;
* there is a lemma for each of the simplest scanners: `optionalSpace`, `nonBlank`, `signs` and `keyword`. A keyword which
  is not there leaves the tokens as they were, but for spaces in front of them.
-/

namespace Compositor

variable {α β γ σ ρ : Type}

/-! ## Scanners -/

/-- From an input which delivers `ts` the scanner gets `a`, and leaves an input which delivers `us`. -/
def Parses (e : Engine) (p : Machine → Proc β α) (ts : List Token) (a : α) (us : List Token) : Prop :=
  ∀ input rest, input.Delivers e.context.lexicon ts rest →
    ∃ input', Runs p (e.withInput input) a (e.withInput input') ∧ input'.Delivers e.context.lexicon us rest

/-- The same for a loop which starts with `s` and ends with `r`. -/
def ParsesLoop [Inhabited β] (e : Engine) (step : Machine → σ → Proc β (Turn σ ρ)) (s : σ) (ts : List Token) (r : ρ)
    (us : List Token) : Prop :=
  ∀ input rest, input.Delivers e.context.lexicon ts rest →
    ∃ input', Loops step s (e.withInput input) r (e.withInput input') ∧ input'.Delivers e.context.lexicon us rest

variable {e : Engine} {ts us vs : List Token}

namespace Parses

variable {p : Machine → Proc β α} {a : α}

theorem of_eq (h : ∀ m input, p m (e.withInput input) = .ok a (e.withInput input)) : Parses e p ts a ts :=
  fun input _ hinput => ⟨input, .of_eq fun m => h m input, hinput⟩

theorem pure (a : α) : Parses e (fun _ => (Pure.pure a : Proc β α)) ts a ts := of_eq fun _ _ => rfl

theorem congr {q : Machine → Proc β α} (h : Parses e q ts a us)
    (hpq : ∀ m input, p m (e.withInput input) = q m (e.withInput input)) : Parses e p ts a us := by
  intro input rest hinput
  obtain ⟨input', hruns, hleft⟩ := h input rest hinput
  exact ⟨input', hruns.congr fun m => hpq m input, hleft⟩

theorem bind {q : Machine → α → Proc β γ} {c : γ} (hp : Parses e p ts a us) (hq : Parses e (fun m => q m a) us c vs) :
    Parses e (fun m => p m >>= q m) ts c vs := by
  intro input rest hinput
  obtain ⟨input', hruns, hleft⟩ := hp input rest hinput
  obtain ⟨input'', hruns', hleft'⟩ := hq input' rest hleft
  exact ⟨input'', hruns.bind hruns', hleft'⟩

/-- A scanner whose fuel, or whose value when it is stopped, is another one. -/
theorem map {p' : Machine → Proc γ ρ} {b : ρ} (h : Parses e p ts a us)
    (hruns : ∀ {e₁ e₂}, Runs p e₁ a e₂ → Runs p' e₁ b e₂) : Parses e p' ts b us := by
  intro input rest hinput
  obtain ⟨input', hrun, hleft⟩ := h input rest hinput
  exact ⟨input', hruns hrun, hleft⟩

theorem leaving (h : Parses e p ts a us) (f : β → γ) : Parses e (fun m => (p m).leaving f) ts a us :=
  h.map fun hrun => hrun.leaving f

theorem giving (h : Parses e p ts a us) (c : γ) : Parses e (fun m => (p m).giving c) ts a us := h.leaving _

theorem lift [Inhabited γ] (h : Parses e p ts a us) : Parses e (fun m => (monadLift (p m) : Proc γ α)) ts a us :=
  h.giving default

theorem mapBoth {p : Machine → Proc α α} (h : Parses e p ts a us) (f : α → γ) :
    Parses e (fun m => (p m).mapBoth f) ts (f a) us :=
  h.map fun hrun => hrun.mapBoth f

theorem onStop (h : Parses e p ts a us) (f : Machine → Engine → Engine) :
    Parses e (fun m => (p m).onStop (f m)) ts a us := by
  refine h.map fun {e₁ e₂} hrun => ?_
  obtain ⟨k, hk⟩ := hrun
  exact ⟨k, fun n hn => by simp only [Proc.onStop, hk n hn]⟩

theorem runs_of_pull {t : Token} {input rest : Input} (h : Parses e p [t] a [])
    (hpull : input.pull e.context.lexicon = (.token t, rest)) : Runs p (e.withInput input) a (e.withInput rest) := by
  obtain ⟨_, hruns, rfl⟩ := h input rest ⟨rest, hpull, rfl⟩
  exact hruns

end Parses

namespace ParsesLoop

variable [Inhabited β] {step : Machine → σ → Proc β (Turn σ ρ)} {s s' : σ} {r : ρ}

theorem done (h : Parses e (step · s) ts (.done r) us) : ParsesLoop e step s ts r us := by
  intro input rest hinput
  obtain ⟨input', hruns, hleft⟩ := h input rest hinput
  exact ⟨input', .done hruns, hleft⟩

theorem again (h : Parses e (step · s) ts (.again s') us) (hrest : ParsesLoop e step s' us r vs) :
    ParsesLoop e step s ts r vs := by
  intro input rest hinput
  obtain ⟨input', hruns, hleft⟩ := h input rest hinput
  obtain ⟨input'', hloops, hleft'⟩ := hrest input' rest hleft
  exact ⟨input'', .again hruns hloops, hleft'⟩

theorem parses (h : ParsesLoop e step s ts r us) : Parses e (fun m => iterate (step m) m.fuel s) ts r us := by
  intro input rest hinput
  obtain ⟨input', hloops, hleft⟩ := h input rest hinput
  exact ⟨input', hloops.runs, hleft⟩

end ParsesLoop

/-! ## Single tokens -/

section Tokens

variable {t : Token}

theorem nextExpanded_parses (ht : e.context.Unexpandable t) : Parses e Machine.nextExpanded (t :: ts) (some t) ts := by
  rintro input rest ⟨input', hpull, hleft⟩
  exact ⟨input', nextExpanded_runs (e := e.withInput input) hpull ht, hleft⟩

theorem pushTokens_parses (us : List Token) :
    Parses e (fun _ => (pushTokens us : Proc β Unit)) ts () (us ++ ts) := by
  intro input rest hinput
  refine ⟨input.pushTokens us, .of_eq fun _ => rfl, ?_⟩
  exact Input.delivers_append.2 ⟨input, input.delivers_pushTokens us, hinput⟩

theorem pushBack_parses (t : Token) : Parses e (fun _ => (pushBack t : Proc β Unit)) ts () (t :: ts) :=
  pushTokens_parses [t]

theorem nonBlank_parses (blanks : List Token) (hblanks : ∀ b ∈ blanks, b.cat = .space) (hcat : t.cat ≠ .space)
    (ht : e.context.Unexpandable t) : Parses e nonBlank (blanks ++ t :: ts) (some t) ts := by
  intro input rest hinput
  rw [← List.singleton_append, ← List.append_assoc, Input.delivers_append] at hinput
  obtain ⟨input', hread, hleft⟩ := hinput
  exact ⟨input', nonBlank_runs (e := e.withInput input) hblanks hread hcat ht, hleft⟩

theorem signs_parses (signs : List SignToken) (blanks : List Token) (hblanks : ∀ b ∈ blanks, b.cat = .space)
    (hcat : t.cat ≠ .space) (ht : e.context.Unexpandable t) (hminus : t.isOther '-' = false)
    (hplus : t.isOther '+' = false) :
    Parses e Compositor.signs (signs.flatMap SignToken.tokens ++ (blanks ++ t :: ts))
      (signs.countP (·.token.isOther '-') % 2 == 1, some t) ts := by
  intro input rest hinput
  rw [← List.singleton_append, ← List.append_assoc, ← List.append_assoc, Input.delivers_append] at hinput
  obtain ⟨input', hread, hleft⟩ := hinput
  rw [List.append_assoc] at hread
  have hloops := signs_loops (e := e.withInput input) signs hblanks hcat ht hminus hplus false hread
  rw [Bool.false_xor] at hloops
  exact ⟨input', hloops.runs, hleft⟩

theorem optionalSpace_parses {blanks : List Token} (hblanks : ∀ b ∈ blanks, b.cat = .space) (hlength : blanks.length ≤ 1)
    (hcat : t.cat ≠ .space) (ht : e.context.Unexpandable t) :
    Parses e optionalSpace (blanks ++ t :: ts) () (t :: ts) := by
  match blanks, hlength with
  | [], _ =>
    refine (nextExpanded_parses ht).lift.bind ?_
    simp only [ne_eq, hcat, not_false_eq_true, if_true]
    exact pushBack_parses t
  | [b], _ =>
    have hb : b.cat = .space := hblanks b (by simp)
    refine (nextExpanded_parses (e.context.unexpandable_of_space hb)).lift.bind ?_
    simp only [ne_eq, hb, not_true_eq_false, if_false]
    exact .pure ()

end Tokens

/-! ## Keywords -/

section Keywords

variable {t : Token}

theorem spells_other (c : Char) : spells (.other c) c = true := by
  simp [spells, Token.other, Token.character, Token.isCode, Token.char]

theorem isCode_of_spells {c : Char} (h : spells t c = true) : t.isCode = false := by
  unfold spells at h
  simpa using (Bool.and_eq_true_iff.1 h).1

theorem isLower_iff_toNat {c : Char} : c.isLower = true ↔ 97 ≤ c.toNat ∧ c.toNat ≤ 122 := by
  show (Decidable.decide (c.val ≥ 'a'.val) && Decidable.decide (c.val ≤ 'z'.val)) = true ↔ _
  rw [Bool.and_eq_true, decide_eq_true_iff, decide_eq_true_iff]
  exact and_congr UInt32.le_iff_toNat_le UInt32.le_iff_toNat_le

theorem toNat_char_of_spells {c : Char} (hc : c.isLower = true) (h : spells t c = true) :
    t.char.toNat = c.toNat ∨ t.char.toNat + 32 = c.toNat := by
  obtain ⟨hlow, hhigh⟩ := isLower_iff_toNat.1 hc
  have hupper : (charOfCode (Text.toUpper c.toNat)).toNat + 32 = c.toNat := by
    have hvalid : (c.toNat - 32).isValidChar := .inl (by omega)
    have hcode : Text.toUpper c.toNat = c.toNat - 32 := by
      simp only [Text.toUpper]
      simp [show c.toNat < 128 by omega, hlow, hhigh]
    rw [hcode, charOfCode, dif_pos hvalid]
    have hchar : (Char.ofNatAux (c.toNat - 32) hvalid).toNat = c.toNat - 32 := rfl
    omega
  simp only [spells, Bool.and_eq_true, Bool.or_eq_true, beq_iff_eq] at h
  rcases h.2 with h | h <;> rw [h]
  · exact .inl rfl
  · exact .inr hupper

theorem spells_unique {c c' : Char} (hc : c.isLower = true) (hc' : c'.isLower = true) (h : spells t c = true)
    (h' : spells t c' = true) : c = c' := by
  have hrange := isLower_iff_toNat.1 hc
  have hrange' := isLower_iff_toNat.1 hc'
  have hcase := toNat_char_of_spells hc h
  have hcase' := toNat_char_of_spells hc' h'
  exact Char.toNat_inj.1 (by omega)

/-- The tokens are the letters of a word, in lower or upper case. -/
def Spelled (letters : List Token) (word : List Char) : Prop := List.Forall₂ (fun t c => spells t c = true) letters word

theorem spelled_other (word : List Char) : Spelled (word.map Token.other) word := by
  induction word with
  | nil => exact .nil
  | cons c word ih => exact .cons (spells_other c) ih

theorem spells_blank {c : Char} (hc : c.isLower = true) : spells .blank c = false := by
  have hrange := isLower_iff_toNat.1 hc
  rcases h : spells .blank c with _ | _
  · rfl
  · have hcase := toNat_char_of_spells hc h
    have hspace : Token.blank.char.toNat = 32 := rfl
    omega

theorem keywordStep_blank {c : Char} (hspace : spells .blank c = false) (letters : List Char) :
    Parses e (keywordStep · ([], c :: letters)) (.blank :: ts) (.again ([], c :: letters)) ts := by
  have hnext : Parses e Machine.nextExpanded (.blank :: ts) (some .blank) ts :=
    nextExpanded_parses (e.context.unexpandable_of_space rfl)
  refine ((hnext.giving false).onStop fun _ => (·.pushTokens [])).bind ?_
  simp only [hspace, Bool.false_eq_true, if_false]
  exact .pure _

theorem keywordStep_skips {blanks : List Token} (hblanks : ∀ b ∈ blanks, b = .blank) {c : Char} {letters : List Char}
    (hspace : spells .blank c = false) {found : Bool}
    (h : ParsesLoop e keywordStep ([], c :: letters) ts found us) :
    ParsesLoop e keywordStep ([], c :: letters) (blanks ++ ts) found us := by
  induction blanks with
  | nil => exact h
  | cons b blanks ih =>
    obtain ⟨rfl, hmore⟩ := List.forall_mem_cons.1 hblanks
    exact .again (keywordStep_blank hspace letters) (ih hmore)

theorem keyword_parses_blanks {blanks : List Token} (hblanks : ∀ b ∈ blanks, b = .blank) {word : String} (hword : word.toList ≠ [])
    (hlower : ∀ c ∈ word.toList, c.isLower = true) {found : Bool}
    (h : ParsesLoop e keywordStep ([], word.toList) ts found us) : Parses e (keyword · word) (blanks ++ ts) found us := by
  unfold keyword
  generalize word.toList = letters at hword hlower h
  obtain ⟨c, letters, rfl⟩ := List.exists_cons_of_ne_nil hword
  exact (keywordStep_skips hblanks (spells_blank (hlower c (List.mem_cons_self ..))) h).parses

theorem keywordStep_letter {c : Char} (h : spells t c = true) (matched : List Token) (letters : List Char) :
    Parses e (keywordStep · (matched, c :: letters)) (t :: ts) (.again (matched ++ [t], letters)) ts := by
  have hnext : Parses e Machine.nextExpanded (t :: ts) (some t) ts :=
    nextExpanded_parses (e.context.unexpandable_of_not_isCode (isCode_of_spells h))
  refine ((hnext.giving false).onStop fun _ => (·.pushTokens matched)).bind ?_
  simp only [h, if_true]
  exact .pure _

/-- A token which is not the next letter is put back, with all letters in front of it. -/
theorem keywordStep_other {c : Char} {matched : List Token} (ht : e.context.Unexpandable t)
    (hcat : t.cat = .space → matched ≠ []) (h : spells t c = false) (letters : List Char) :
    Parses e (keywordStep · (matched, c :: letters)) (t :: ts) (.done false) (matched ++ t :: ts) := by
  have hother : (Decidable.decide (t.cat = .space) && matched.isEmpty) = false := by simpa using hcat
  refine (((nextExpanded_parses ht).giving false).onStop fun _ => (·.pushTokens matched)).bind ?_
  simp only [h, hother, Bool.false_eq_true, if_false]
  exact (pushBack_parses t).bind ((pushTokens_parses matched).bind (.pure _))

theorem keywordStep_spelled {letters : List Token} {word : List Char} (h : Spelled letters word) (matched : List Token) :
    ParsesLoop e keywordStep (matched, word) (letters ++ ts) true ts := by
  induction h generalizing matched with
  | nil => exact .done (.pure _)
  | cons hl _ ih => exact .again (keywordStep_letter hl matched _) (ih _)

/-- **The letters of a keyword are scanned.** -/
theorem keyword_parses_spelled {letters : List Token} (word : String) (h : Spelled letters word.toList) :
    Parses e (keyword · word) (letters ++ ts) true ts := (keywordStep_spelled h []).parses

theorem keyword_parses (word : String) : Parses e (keyword · word) (word.toList.map Token.other ++ ts) true ts :=
  keyword_parses_spelled word (spelled_other word.toList)

/-- Some letter of a word is another one than that at its place in the other word. -/
def Differ : List Char → List Char → Bool
  | c :: cs, c' :: cs' => c != c' || Differ cs cs'
  | _, _ => false

theorem keywordStep_differ {letters : List Token} {word other : List Char} (h : Spelled letters other)
    (hdiffer : Differ word other = true) (hlower : ∀ c ∈ word, c.isLower = true)
    (hother : ∀ c ∈ other, c.isLower = true) (hcats : ∀ l ∈ letters, l.cat ≠ .space) (matched : List Token) :
    ParsesLoop e keywordStep (matched, word) (letters ++ ts) false (matched ++ (letters ++ ts)) := by
  induction h generalizing matched word with
  | nil => simp [Differ] at hdiffer
  | @cons l c' letters other hl _ ih =>
    obtain ⟨hcat, hcats⟩ := List.forall_mem_cons.1 hcats
    obtain ⟨hc', hothers⟩ := List.forall_mem_cons.1 hother
    match word with
    | [] => simp [Differ] at hdiffer
    | c :: word =>
      obtain ⟨hlowerc, hlower⟩ := List.forall_mem_cons.1 hlower
      by_cases hc : c = c'
      · subst hc
        have hmore := ih (by simpa [Differ] using hdiffer) hlower hothers hcats (matched ++ [l])
        rw [List.append_assoc] at hmore
        exact .again (keywordStep_letter hl matched word) hmore
      · have hspells : spells l c = false :=
          Bool.eq_false_iff.2 fun hlc => hc (spells_unique hlowerc hc' hlc hl)
        exact .done (keywordStep_other (e.context.unexpandable_of_not_isCode (isCode_of_spells hl)) (absurd · hcat) hspells word)

/-- **A keyword is not there.** Another word is there, whose first letters may be those of the keyword. All of it is put
back. -/
theorem keyword_parses_differ {letters : List Token} (word : String) {other : List Char} (h : Spelled letters other)
    (hdiffer : Differ word.toList other = true) (hlower : ∀ c ∈ word.toList, c.isLower = true)
    (hother : ∀ c ∈ other, c.isLower = true) (hcats : ∀ l ∈ letters, l.cat ≠ .space) :
    Parses e (keyword · word) (letters ++ ts) false (letters ++ ts) :=
  (keywordStep_differ h hdiffer hlower hother hcats []).parses

/-- **A keyword is not there.** Its first letter is missing, and only the spaces in front of it are taken. -/
theorem keyword_parses_false (word : String) {c : Char} {letters : List Char} (hword : word.toList = c :: letters)
    (blanks : List Token) (hblanks : ∀ b ∈ blanks, b = .blank) (hspace : spells .blank c = false) (hcat : t.cat ≠ .space)
    (ht : e.context.Unexpandable t) (hspells : spells t c = false) :
    Parses e (keyword · word) (blanks ++ t :: ts) false (t :: ts) := by
  unfold keyword
  rw [hword]
  exact (keywordStep_skips hblanks hspace (.done (keywordStep_other ht (absurd · hcat) hspells letters))).parses

end Keywords

end Compositor
