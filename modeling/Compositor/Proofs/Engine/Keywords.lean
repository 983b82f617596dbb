import Compositor.Proofs.Engine.Dimensions
import Mathlib.Data.List.DropRight

/-!
# Keywords are scanned as a whole

A keyword is there if the next tokens after some spaces are its letters, each in lower or upper case. Then the scanner
takes these tokens, and else nothing but the spaces: the letters which it has read up to the first one which is another
are put back, even if the input ends among them. That is why keywords can be tried one after the other.

* `Spells` says that a word is there, `spelled_or` where the reading of one ends which is not there;
* `keyword_advances` follows the loop over the letters, `keyword_found` and `keyword_missing` say how it ends;
* `keyword_all_or_nothing` joins them, and follows a number of attempts in vain.
-/

namespace Compositor

def pastBlanks (ts : List Token) : List Token := ts.dropWhile (·.cat = .space)

/-- The tokens start with the letters of a word, and the others are `rest`. -/
def Spells (word : List Char) (ts rest : List Token) : Prop := ∃ letters, ts = letters ++ rest ∧ Spelled letters word

variable {e : Engine} {ts us letters blanks : List Token} {word more : List Char} {c : Char} {input mid : Input}

/-! ## Spaces -/

/-- Tokens which are read as they are. The only spaces among them are blanks. -/
structure Context.ReadsAs (c : Context) (ts : List Token) : Prop where
  unexpandable : ∀ t ∈ ts, c.Unexpandable t
  blank : ∀ t ∈ ts, t.cat = .space → t = .blank

theorem pastBlanks_suffix (ts : List Token) : pastBlanks ts <:+ ts := List.dropWhile_suffix _

theorem cat_ne_of_head_pastBlanks {t : Token} (h : t ∈ (pastBlanks ts).head?) : t.cat ≠ .space := by
  have hnot := List.head?_dropWhile_not (fun t => Decidable.decide (t.cat = .space)) ts
  rw [show (ts.dropWhile fun t => Decidable.decide (t.cat = .space)).head? = some t from h] at hnot
  simpa using hnot

theorem pastBlanks_pastBlanks (ts : List Token) : pastBlanks (pastBlanks ts) = pastBlanks ts :=
  List.dropWhile_idempotent _ ts

namespace Context.ReadsAs

theorem pastBlanks (h : e.context.ReadsAs ts) : e.context.ReadsAs (pastBlanks ts) where
  unexpandable t ht := h.unexpandable t ((pastBlanks_suffix ts).mem ht)
  blank t ht := h.blank t ((pastBlanks_suffix ts).mem ht)

theorem exists_blanks (h : e.context.ReadsAs ts) :
    ∃ blanks, ts = blanks ++ Compositor.pastBlanks ts ∧ ∀ b ∈ blanks, b = .blank := by
  refine ⟨ts.takeWhile (·.cat = .space), List.takeWhile_append_dropWhile.symm, fun b hb => ?_⟩
  refine h.blank b ((List.takeWhile_prefix _).mem hb) ?_
  simpa using List.all_eq_true.1 List.all_takeWhile b hb

end Context.ReadsAs

/-! ## Reading the letters -/

/-- A word is there, or only some of its letters are and the next token, if there is one, is not the next letter. -/
theorem spelled_or (word : List Char) (ts : List Token) :
    (∃ rest, Spells word ts rest) ∨ ∃ letters rest first c more,
      ts = letters ++ rest ∧ word = first ++ c :: more ∧ Spelled letters first ∧ ∀ t ∈ rest.head?, spells t c = false := by
  induction word generalizing ts with
  | nil => exact .inl ⟨ts, [], rfl, .nil⟩
  | cons c word ih =>
    have hnone (h : ∀ t ∈ ts.head?, spells t c = false) : ∃ letters rest first c' more, ts = letters ++ rest ∧
        c :: word = first ++ c' :: more ∧ Spelled letters first ∧ ∀ t ∈ rest.head?, spells t c' = false :=
      ⟨[], ts, [], c, word, rfl, rfl, .nil, h⟩
    match ts with
    | [] => exact .inr (hnone (by simp))
    | t :: ts =>
      cases ht : spells t c with
      | false => exact .inr (hnone (by simpa using ht))
      | true =>
        rcases ih ts with ⟨rest, letters, rfl, h⟩ | ⟨letters, rest, first, c', more, rfl, rfl, h, hnext⟩
        · exact .inl ⟨rest, t :: letters, rfl, .cons ht h⟩
        · exact .inr ⟨t :: letters, rest, c :: first, c', more, rfl, rfl, .cons ht h, hnext⟩

theorem keyword_advances (h : Spelled letters word) (matched : List Token)
    (hinput : input.Delivers e.context.lexicon letters mid) :
    Advances keywordStep (matched, word ++ more) (e.withInput input) (matched ++ letters, more) (e.withInput mid) := by
  induction h generalizing matched input with
  | nil =>
    obtain rfl : input = mid := hinput
    rw [List.append_nil]
    exact .refl _ _
  | @cons t c letters word ht _ ih =>
    obtain ⟨next, hpull, hinput⟩ := hinput
    have hrest := ih (matched ++ [t]) hinput
    rw [List.append_assoc] at hrest
    exact .again ((keywordStep_letter ht matched (word ++ more)).runs_of_pull hpull) hrest

theorem keyword_advances_blanks (hblanks : ∀ b ∈ blanks, b = .blank) (hlower : c.isLower = true)
    (hinput : input.Delivers e.context.lexicon blanks mid) :
    Advances keywordStep ([], c :: more) (e.withInput input) ([], c :: more) (e.withInput mid) := by
  induction blanks generalizing input with
  | nil =>
    obtain rfl : input = mid := hinput
    exact .refl _ _
  | cons b blanks ih =>
    obtain ⟨rfl, hmore⟩ := List.forall_mem_cons.1 hblanks
    obtain ⟨next, hpull, hinput⟩ := hinput
    exact .again ((keywordStep_blank (spells_blank hlower) more).runs_of_pull hpull) (ih hmore hinput)

/-- The input ends where the next letter should be. The letters before it are put back. -/
theorem keywordStep_end (matched : List Token) (hend : mid.pull e.context.lexicon = (.exhausted, [])) :
    Runs (keywordStep · (matched, c :: more)) (e.withInput mid) (.done false) (e.withInput (Input.pushTokens [] matched)) := by
  have hnext := Context.gives_none (c := e.context) hend e rfl
  obtain ⟨k, hk⟩ := hnext.giving false
  refine ⟨k, fun n hn => ?_⟩
  have hread : (Proc.giving (machine n).nextExpanded false).onStop (·.pushTokens matched) (e.withInput mid) =
      .ok none (e.withInput []) := Proc.onStop_eq_ok.2 (hk n hn)
  exact Proc.bind_ok hread

/-! ## Whole keywords -/

/-- **A keyword which is there is taken from the input.** -/
theorem keyword_found {word : String} {rest : List Token} (hne : word.toList ≠ [])
    (hlower : ∀ c ∈ word.toList, c.isLower = true) (hinput : input.Holds e.context.lexicon ts) (hts : e.context.ReadsAs ts)
    (h : Spells word.toList (pastBlanks ts) rest) :
    ∃ left, Runs (keyword · word) (e.withInput input) true (e.withInput left) ∧ left.Holds e.context.lexicon rest := by
  obtain ⟨letters, hspelled, hletters⟩ := h
  obtain ⟨blanks, heq, hblanks⟩ := hts.exists_blanks
  rw [heq, hspelled, ← List.append_assoc, ← List.append_nil letters] at hinput
  obtain ⟨left, hread, hleft⟩ := hinput.split
  have hparses : Parses e (keyword · word) (blanks ++ (letters ++ [])) true [] :=
    keyword_parses_blanks hblanks hne hlower (keywordStep_spelled hletters [])
  obtain ⟨left', hruns, heq'⟩ := hparses input left hread
  exact ⟨left', hruns, heq' ▸ hleft⟩

/-- **A keyword which is not there leaves all but the spaces.** -/
theorem keyword_missing {word : String} (hlower : ∀ c ∈ word.toList, c.isLower = true)
    (hinput : input.Holds e.context.lexicon ts) (hts : e.context.ReadsAs ts)
    (hmissing : ∀ rest, ¬ Spells word.toList (pastBlanks ts) rest) :
    ∃ left, Runs (keyword · word) (e.withInput input) false (e.withInput left) ∧
      left.Holds e.context.lexicon (pastBlanks ts) := by
  unfold keyword
  generalize word.toList = w at hlower hmissing
  obtain ⟨blanks, heq, hblanks⟩ := hts.exists_blanks
  obtain ⟨letters, us, first, c, more, hsplit, rfl, hletters, hnext⟩ :=
    (spelled_or w (pastBlanks ts)).resolve_left fun ⟨rest, h⟩ => hmissing rest h
  rw [heq] at hinput
  obtain ⟨mid, hskipped, hmid⟩ := hinput.split
  rw [hsplit] at hmid ⊢
  obtain ⟨next, hread, rest, hus, hend⟩ := hmid.split
  have hskip : Advances keywordStep ([], first ++ c :: more) (e.withInput input) ([], first ++ c :: more) (e.withInput mid) := by
    obtain ⟨d, ds, hword⟩ := List.exists_cons_of_ne_nil (l := first ++ c :: more) (by simp)
    rw [hword] at hlower ⊢
    exact keyword_advances_blanks hblanks (hlower d List.mem_cons_self) hskipped
  have hadvances : Advances keywordStep ([], first ++ c :: more) (e.withInput mid) (letters, c :: more) (e.withInput next) :=
    keyword_advances hletters [] hread
  cases us with
  | nil =>
    obtain rfl : next = rest := hus
    refine ⟨_, (hskip.loops (hadvances.loops (.done (keywordStep_end letters hend)))).runs, ?_⟩
    exact Input.holds_pushTokens letters Input.holds_nil
  | cons t us =>
    have ht : e.context.Unexpandable t := hts.pastBlanks.unexpandable t (by simp [hsplit])
    have hother : spells t c = false := hnext t rfl
    have hcat : t.cat = .space → letters ≠ [] := by
      rintro hspace rfl
      exact cat_ne_of_head_pastBlanks (show t ∈ (pastBlanks ts).head? by rw [hsplit]; rfl) hspace
    obtain ⟨left, hstep, hleft⟩ := keywordStep_other ht hcat hother more next rest hus
    exact ⟨left, (hskip.loops (hadvances.loops (.done hstep))).runs, rest, hleft, hend⟩

/-! ## Attempts -/

theorem Spells.unique {rest rest' : List Token} (h : Spells word ts rest) (h' : Spells word ts rest') : rest = rest' := by
  obtain ⟨letters, rfl, hletters⟩ := h
  obtain ⟨letters', heq, hletters'⟩ := h'
  exact (List.append_inj heq (hletters.length_eq.trans hletters'.length_eq.symm)).2

theorem keywords_missing {words : List String} (hinput : input.Holds e.context.lexicon ts) (hts : e.context.ReadsAs ts)
    (hlower : ∀ word ∈ words, ∀ c ∈ word.toList, c.isLower = true)
    (hmissing : ∀ word ∈ words, ∀ rest, ¬ Spells word.toList (pastBlanks ts) rest) :
    ∃ left, Runs (fun m => words.mapM (keyword m)) (e.withInput input) (words.map fun _ => false) (e.withInput left) ∧
      left.Holds e.context.lexicon (if words = [] then ts else pastBlanks ts) := by
  induction words generalizing ts input with
  | nil => exact ⟨input, .of_eq fun m => rfl, hinput⟩
  | cons word words ih =>
    obtain ⟨hlower, hlowers⟩ := List.forall_mem_cons.1 hlower
    obtain ⟨hmissing, hothers⟩ := List.forall_mem_cons.1 hmissing
    obtain ⟨mid, hruns, hmid⟩ := keyword_missing hlower hinput hts hmissing
    obtain ⟨left, hmore, hleft⟩ := ih hmid hts.pastBlanks hlowers (by rwa [pastBlanks_pastBlanks])
    refine ⟨left, ?_, by simpa [pastBlanks_pastBlanks] using hleft⟩
    simp only [List.mapM_cons]
    exact hruns.bind (hmore.bind (.of_eq fun m => rfl))

/-- **A keyword is scanned as a whole or not at all.** The scanner finds a keyword if the tokens after the spaces spell it,
and takes the spaces and these tokens. Otherwise it takes only the spaces, also if the input ends within the keyword. The
keyword without letters is always there, and nothing is taken. Any number of attempts in vain takes no other tokens, and
leaves them in their order. -/
theorem keyword_all_or_nothing (e : Engine) {ts : List Token} (hinput : e.input.Holds e.context.lexicon ts)
    (hts : e.context.ReadsAs ts) :
    (∀ word : String, word ≠ "" → (∀ c ∈ word.toList, c.isLower = true) →
      ∃ found left, Runs (keyword · word) e found (e.withInput left) ∧
        (found = true ↔ ∃ rest, Spells word.toList (pastBlanks ts) rest) ∧
        (∀ rest, Spells word.toList (pastBlanks ts) rest → left.Holds e.context.lexicon rest) ∧
        (found = false → left.Holds e.context.lexicon (pastBlanks ts))) ∧
    Runs (keyword · "") e true e ∧
    (∀ words : List String, words ≠ [] → (∀ word ∈ words, ∀ c ∈ word.toList, c.isLower = true) →
      (∀ word ∈ words, ∀ rest, ¬ Spells word.toList (pastBlanks ts) rest) →
      ∃ left, Runs (fun m => words.mapM (keyword m)) e (words.map fun _ => false) (e.withInput left) ∧
        left.Holds e.context.lexicon (pastBlanks ts)) := by
  refine ⟨fun word hne hlower => ?_, (Loops.done (.of_eq fun m => rfl)).runs, fun words hwords hlower hmissing => ?_⟩
  · by_cases h : ∃ rest, Spells word.toList (pastBlanks ts) rest
    · obtain ⟨rest, hrest⟩ := id h
      obtain ⟨left, hruns, hleft⟩ := keyword_found (by simpa using hne) hlower hinput hts hrest
      exact ⟨true, left, hruns, by simp [h], fun rest' h' => h'.unique hrest ▸ hleft, by simp⟩
    · have hmissing : ∀ rest, ¬ Spells word.toList (pastBlanks ts) rest := fun rest hrest => h ⟨rest, hrest⟩
      obtain ⟨left, hruns, hleft⟩ := keyword_missing hlower hinput hts hmissing
      exact ⟨false, left, hruns, by simp [h], fun rest hrest => absurd hrest (hmissing rest), fun _ => hleft⟩
  · have hattempts := keywords_missing hinput hts hlower hmissing
    rwa [if_neg hwords] at hattempts

/-- The keyword is there in other letters, and another one is not, because the input ends too early. -/
theorem keyword_all_or_nothing_tr :
    let ts : List Token := [.blank, .blank, .letter 'T', .other 'r']
    let e : Engine := { context := {}, input := Input.pushTokens [] ts }
    (∃ left, Runs (keyword · "t") e true (e.withInput left) ∧ left.Holds e.context.lexicon [.other 'r']) ∧
    (∃ left, Runs (keyword · "true") e false (e.withInput left) ∧ left.Holds e.context.lexicon [.letter 'T', .other 'r']) := by
  intro ts e
  have hts : e.context.ReadsAs ts := ⟨by decide, by decide⟩
  obtain ⟨hwords, -, -⟩ := keyword_all_or_nothing e (Input.holds_pushTokens ts Input.holds_nil) hts
  constructor
  · obtain ⟨found, left, hruns, hfound, hleft, -⟩ := hwords "t" (by decide) (List.all_eq_true.1 rfl)
    have hspells : Spells "t".toList (pastBlanks ts) [.other 'r'] := ⟨[.letter 'T'], rfl, .cons (by decide) .nil⟩
    obtain rfl : found = true := hfound.2 ⟨_, hspells⟩
    exact ⟨left, hruns, hleft _ hspells⟩
  · obtain ⟨found, left, hruns, hfound, -, hleft⟩ := hwords "true" (by decide) (List.all_eq_true.1 rfl)
    have hmissing : ¬ ∃ rest, Spells "true".toList (pastBlanks ts) rest := by
      rintro ⟨rest, letters, heq, hletters⟩
      have hlength := congrArg List.length heq
      have hfour : letters.length = 4 := hletters.length_eq
      have htwo : (pastBlanks ts).length = 2 := rfl
      rw [List.length_append] at hlength
      omega
    obtain rfl : found = false := Bool.eq_false_iff.2 fun h => hmissing (hfound.1 h)
    exact ⟨left, hruns, hleft rfl⟩

/-- The keyword without letters is there after the space, but finding it does not take the space. -/
theorem empty_keyword_leaves_space :
    let ts : List Token := [.blank, .letter 'x']
    let e : Engine := { context := {}, input := Input.pushTokens [] ts }
    Spells "".toList (pastBlanks ts) [.letter 'x'] ∧
      ¬ ∃ left, Runs (keyword · "") e true (e.withInput left) ∧ left.Holds e.context.lexicon [.letter 'x'] := by
  intro ts e
  refine ⟨⟨[], rfl, .nil⟩, ?_⟩
  rintro ⟨left, ⟨k, hk⟩, rest, ⟨mid, hpull, -⟩, -⟩
  have hkeyword : (.ok true e : EStateM.Result (Interrupted Bool) Engine Bool) = .ok true (e.withInput left) :=
    hk (k + 2) (by omega)
  injection hkeyword with _ he
  obtain rfl : left = e.input := (congrArg Engine.input he).symm
  cases hpull

end Compositor
