import Compositor.Proofs.Token.Turns

/-!
# Reading a text makes progress

Every turn of a search for a lexeme reads a character or starts a line, so a search ends, and what it finds lies behind the
position where it was started. So the number of lexemes of a text is bounded by that of its characters and lines, whatever
happens to the scopes between the calls. A text which has come to its end stays there.

* `Locator.Precedes` compares positions, `Tokenizer.Takes.precedes` is the progress of a call;
* `lineCount` counts the lines of a text, `unread_ofText` bounds what there is to read;
* `reading_progresses` is the statement about all series of calls.
-/

namespace Compositor

/-- The position is in an earlier line, or further to the left in the same line. -/
def Locator.Precedes (l l' : Locator) : Prop := l.line < l'.line ∨ l.line = l'.line ∧ l.column < l'.column

theorem Locator.Precedes.trans {l l₁ l' : Locator} (h : l.Precedes l₁) (h' : l₁.Precedes l') : l.Precedes l' := by
  unfold Precedes at *
  omega

namespace Tokenizer

variable {lexicon : Lexicon} {t t' t₁ : Tokenizer} {lexeme : Lexeme} {turns : Nat} {calls : List Call}

/-! ## A call -/

theorem MovesOn.precedes (h : t.MovesOn t') : t.locator.Precedes t'.locator := by
  obtain ⟨rest, state, hlt, rfl⟩ := h
  refine .inr ⟨rfl, ?_⟩
  simp only [locator, advance]
  omega

theorem Passes.precedes (h : Passes lexicon t t₁) : t.locator.Precedes t₁.locator := by
  rcases h.startLine_or_movesOn with ⟨-, line, lines, -, rfl⟩ | hmoves
  · refine .inl ?_
    simp only [locator, Tokenizer.startLine]
    omega
  · exact hmoves.precedes

/-- **A lexeme ends behind the position where the search was started.** -/
theorem Takes.precedes (h : Takes lexicon turns t lexeme t') (hlexeme : lexeme ≠ .finished) :
    t.locator.Precedes t'.locator := by
  induction h with
  | finished => exact absurd rfl hlexeme
  | found h => exact h.movesOn.precedes
  | pass h _ ih => exact h.precedes.trans (ih hlexeme)

/-- No character is read twice, and each lexeme has one of its own. -/
theorem Takes.unread_le (h : Takes lexicon turns t lexeme t') :
    t'.unread + (if lexeme = .finished then 0 else 1) ≤ t.unread := by
  induction h with
  | finished => exact Nat.le_refl _
  | @found t t' lexeme h =>
    have hlt := h.movesOn.unread_lt
    split <;> omega
  | @pass t t₁ _ _ _ h _ ih =>
    have hle : t₁.unread ≤ t.unread := by
      rcases h.startLine_or_movesOn with ⟨hrest, line, lines, hlines, rfl⟩ | hmoves
      · simp [unread, Tokenizer.startLine, hrest, hlines]
      · exact Nat.le_of_lt hmoves.unread_lt
    exact Nat.le_trans ih hle

def IsAtEnd (t : Tokenizer) : Prop := t.rest = [] ∧ t.lines = []

theorem Takes.isAtEnd (h : Takes lexicon turns t .finished t') : t'.IsAtEnd := by
  generalize hfinished : Lexeme.finished = lexeme at h
  induction h with
  | finished hrest hlines => exact ⟨hrest, hlines⟩
  | found h =>
    subst hfinished
    cases h
  | pass _ _ ih => exact ih hfinished

theorem IsAtEnd.takes (ht : t.IsAtEnd) (h : Takes lexicon turns t lexeme t') : lexeme = .finished ∧ t' = t := by
  have hfinished : Takes lexicon 1 t .finished t := .finished ht.1 ht.2
  exact Prod.mk.inj (h.read_eq.symm.trans hfinished.read_eq)

/-! ## Series of calls -/

theorem Reading.unread_le (h : t.Reading calls t') : t'.unread + calls.countP (·.lexeme ≠ .finished) ≤ t.unread := by
  induction h with
  | nil => exact Nat.le_refl _
  | @call calls t₁ t₂ lexicon lexeme turns _ htakes ih =>
    have hcall := htakes.unread_le
    have hcount : [(⟨lexicon, lexeme, t₂.locator⟩ : Call)].countP (·.lexeme ≠ .finished) =
        if lexeme = .finished then 0 else 1 := by
      by_cases hlexeme : lexeme = .finished <;> simp [hlexeme]
    rw [List.countP_append, hcount]
    omega

/-- After the end of the text has been delivered, the tokenizer stays where it is. -/
theorem Reading.isAtEnd (h : t.Reading calls t') {d : Call} (hd : d ∈ calls) (hlexeme : d.lexeme = .finished) :
    t'.IsAtEnd ∧ t'.locator = d.place := by
  induction h with
  | nil => cases hd
  | call _ htakes ih =>
    rcases List.mem_append.1 hd with hold | hnew
    · obtain ⟨hend, hplace⟩ := ih hold
      obtain ⟨-, rfl⟩ := hend.takes htakes
      exact ⟨hend, hplace⟩
    · obtain rfl := List.mem_singleton.1 hnew
      obtain rfl : _ = Lexeme.finished := hlexeme
      exact ⟨htakes.isAtEnd, rfl⟩

/-- The end of the text is delivered again and again. -/
theorem Reading.finished_pairwise (h : t.Reading calls t') :
    calls.Pairwise fun d later => d.lexeme = .finished → later.lexeme = .finished ∧ later.place = d.place := by
  induction h with
  | nil => exact .nil
  | call h htakes ih =>
    refine List.pairwise_append.2 ⟨ih, List.pairwise_singleton _ _, fun d hd later hlater hlexeme => ?_⟩
    obtain rfl := List.mem_singleton.1 hlater
    obtain ⟨hend, hplace⟩ := h.isAtEnd hd hlexeme
    obtain ⟨rfl, rfl⟩ := hend.takes htakes
    exact ⟨rfl, hplace⟩

end Tokenizer

/-! ## Texts -/

/-- The number of lines: one for each line feed, and one for what comes after the last of them. -/
def lineCount (cs : List Char) : Nat :=
  cs.count '\n' + if cs.getLast? = none ∨ cs.getLast? = some '\n' then 0 else 1

theorem lineCount_pos {cs : List Char} (h : cs ≠ []) : 0 < lineCount cs := by
  unfold lineCount
  split
  · next hlast =>
    have hfeed : cs.getLast? = some '\n' := hlast.resolve_left fun hnone => h (List.getLast?_eq_none_iff.1 hnone)
    have hmem : '\n' ∈ cs := List.mem_of_getLast? hfeed
    have hcount : 0 < cs.count '\n' := List.count_pos_iff.2 hmem
    omega
  · omega

theorem lineCount_feed (cs : List Char) : lineCount ('\n' :: cs) = lineCount cs + 1 := by
  cases cs with
  | nil => rfl
  | cons c cs => simp only [lineCount, List.count_cons_self, List.getLast?_cons_cons, Nat.add_right_comm]

theorem lineCount_cons {c : Char} (hc : c ≠ '\n') (cs : List Char) : lineCount (c :: cs) = max (lineCount cs) 1 := by
  cases cs with
  | nil => simp [lineCount, hc]
  | cons d cs =>
    have hsame : lineCount (c :: d :: cs) = lineCount (d :: cs) := by
      simp only [lineCount, List.getLast?_cons_cons, List.count_cons_of_ne hc]
    have hpos : 0 < lineCount (d :: cs) := lineCount_pos (List.cons_ne_nil d cs)
    omega

namespace Tokenizer

theorem splitLines_feed (cs : List Char) : splitLines ('\n' :: cs) = [] :: splitLines cs := rfl

theorem splitLines_cons {c : Char} (hc : c ≠ '\n') (cs : List Char) :
    splitLines (c :: cs) = (c :: (splitLines cs).head?.getD []) :: (splitLines cs).tail := by
  rw [splitLines]
  · cases splitLines cs <;> rfl
  · rintro rfl
    exact hc rfl

theorem length_splitLines (cs : List Char) : (splitLines cs).length = lineCount cs := by
  induction cs with
  | nil => rfl
  | cons c cs ih =>
    by_cases hc : c = '\n'
    · subst hc
      rw [splitLines_feed, lineCount_feed, List.length_cons, ih]
    · rw [splitLines_cons hc, lineCount_cons hc, List.length_cons, List.length_tail, ih]
      omega

/-- The pieces of a text have no more characters than the text. -/
theorem length_flatten_splitLines_le (cs : List Char) : (splitLines cs).flatten.length ≤ cs.length := by
  induction cs with
  | nil => exact Nat.le_refl _
  | cons c cs ih =>
    by_cases hc : c = '\n'
    · subst hc
      rw [splitLines_feed, List.flatten_cons, List.nil_append, List.length_cons]
      exact Nat.le_succ_of_le ih
    · rw [splitLines_cons hc, List.length_cons]
      cases hlines : splitLines cs with
      | nil => simp
      | cons line lines =>
        rw [hlines] at ih
        simp only [List.flatten_cons, List.length_append, List.head?_cons, Option.getD_some, List.tail_cons,
          List.length_cons] at ih ⊢
        omega

theorem length_normalizeLine_le (line : List Char) : (normalizeLine line).length ≤ line.length + 1 := by
  have hreturns := (Text.dropTail_sublist (fun c => c == '\r' || c == '\n') line).length_le
  have hblanks := (Text.dropTail_sublist (· == ' ') (Text.dropTail (fun c => c == '\r' || c == '\n') line)).length_le
  simp only [normalizeLine, List.length_append, List.length_singleton]
  omega

/-- There is no more to read than the characters of the text, and an end for each line. -/
theorem unread_ofText (text source : String) :
    (ofText text source).unread ≤ text.toList.length + lineCount text.toList := by
  have hnormalized : ∀ lines : List (List Char),
      (lines.map normalizeLine).flatten.length ≤ lines.flatten.length + lines.length := by
    intro lines
    induction lines with
    | nil => exact Nat.le_refl _
    | cons line lines ih =>
      have hline := length_normalizeLine_le line
      simp only [List.map_cons, List.flatten_cons, List.length_append, List.length_cons]
      omega
  have hlines := hnormalized (splitLines text.toList)
  have hflatten := length_flatten_splitLines_le text.toList
  rw [length_splitLines] at hlines
  simp only [unread, ofText, List.length_nil, Nat.zero_add]
  omega

end Tokenizer

/-! ## The main statement -/

open Tokenizer in
/-- **Reading a text makes progress.** Whatever the scopes are in each of the calls, a call of the tokenizer comes to its end
after a number of turns which is bounded by what is left of the text, and if it delivers a token or an invalid character,
the position moves to the right or to a later line. So there are at most as many such calls as there are characters and
lines in the text. As soon as the end of the text has been delivered, all later calls deliver it as well, and the position
stays the same. -/
theorem reading_progresses (text source : String) (schedule : List Call → Lexicon) (n : Nat) :
    let s := (ofText text source).session schedule n
    (∀ lexicon, ∃ turns ≤ s.tokenizer.unread + s.tokenizer.lines.length + 1, ∃ lexeme t,
      Takes lexicon turns s.tokenizer lexeme t ∧ s.tokenizer.read lexicon = (lexeme, t) ∧
        (lexeme ≠ .finished → s.tokenizer.locator.Precedes t.locator)) ∧
    s.calls.countP (·.lexeme ≠ .finished) ≤ text.toList.length + lineCount text.toList ∧
    s.calls.Pairwise fun d later => d.lexeme = .finished → later.lexeme = .finished ∧ later.place = d.place := by
  intro s
  have hreading : (ofText text source).Reading s.calls s.tokenizer := reading_session _ schedule n
  refine ⟨fun lexicon => ?_, ?_, hreading.finished_pairwise⟩
  · obtain ⟨turns, hturns, lexeme, t, htakes⟩ := exists_takes lexicon s.tokenizer
    exact ⟨turns, hturns, lexeme, t, htakes, htakes.read_eq, htakes.precedes⟩
  · have hcount := hreading.unread_le
    have hunread := unread_ofText text source
    omega

end Compositor
