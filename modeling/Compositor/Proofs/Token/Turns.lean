import Compositor.Token.Tokenizer

/-!
# Reading in turns

A tokenizer looks for the next lexeme in turns. In each of them it reads a single character, with the name after it if this
is an escape character, or it starts a line if the current one is at its end. The turn finds a lexeme, or the search goes
on.

* `Tokenizer.Finds` and `Tokenizer.Passes` are the two kinds of turns, with a rule for each of the categories;
* `Tokenizer.Takes` counts the turns up to a lexeme; a search has an end (`Tokenizer.exists_takes`), and `read` is what it
  finds (`Tokenizer.Takes.read_eq`);
* `Tokenizer.session` is a series of calls, and `Tokenizer.Reading` is what all such series have in common. The scopes
  may change between two calls, in dependence on what has been delivered.
-/

namespace Compositor

namespace Tokenizer

variable {lexicon : Lexicon} {t t' t₁ : Tokenizer} {lexeme : Lexeme} {n : Nat}

/-! ## Single turns -/

/-- The turn finds a lexeme. -/
inductive Finds (lexicon : Lexicon) (t : Tokenizer) : Lexeme → Tokenizer → Prop where
  | controlSequence {c : Char} {rest rest' name : List Char} {state : LineState}
      (hchar : takeChar lexicon.catcode t.rest = some (c, rest)) (hcat : lexicon.catcode c = .escape)
      (hname : takeName lexicon.catcode rest = (name, rest', state)) :
      Finds lexicon t (.token (.controlSequence (String.ofList name) lexicon.space)) (t.advance rest' state)
  | active {c : Char} {rest : List Char} (hchar : takeChar lexicon.catcode t.rest = some (c, rest))
      (hcat : lexicon.catcode c = .active) : Finds lexicon t (.token (.activeChar c lexicon.space)) (t.advance rest .middle)
  /-- The line ends before anything but blanks has been read. -/
  | paragraph {c : Char} {rest : List Char} (hchar : takeChar lexicon.catcode t.rest = some (c, rest))
      (hcat : lexicon.catcode c = .endLine) (hstate : t.state = .newLine) :
      Finds lexicon t (.token (.controlSequence "par" lexicon.space)) (t.advance [] t.state)
  | lineEnd {c : Char} {rest : List Char} (hchar : takeChar lexicon.catcode t.rest = some (c, rest))
      (hcat : lexicon.catcode c = .endLine) (hstate : t.state = .middle) :
      Finds lexicon t (.token .blank) (t.advance [] t.state)
  | blank {c : Char} {rest : List Char} (hchar : takeChar lexicon.catcode t.rest = some (c, rest))
      (hcat : lexicon.catcode c = .space) (hstate : t.state = .middle) :
      Finds lexicon t (.token .blank) (t.advance rest .skipBlanks)
  | invalid {c : Char} {rest : List Char} (hchar : takeChar lexicon.catcode t.rest = some (c, rest))
      (hcat : lexicon.catcode c = .invalid) : Finds lexicon t (.invalid c t.locator) (t.advance rest t.state)
  | character {c : Char} {rest : List Char} (hchar : takeChar lexicon.catcode t.rest = some (c, rest))
      (hcat : lexicon.catcode c ∉ [.escape, .active, .endLine, .space, .ignored, .comment, .invalid]) :
      Finds lexicon t (.token (.character (lexicon.catcode c) c)) (t.advance rest .middle)

/-- The turn finds nothing, and the search goes on. -/
inductive Passes (lexicon : Lexicon) (t : Tokenizer) : Tokenizer → Prop where
  | startLine {line : List Char} {lines : List (List Char)} (hrest : t.rest = []) (hlines : t.lines = line :: lines) :
      Passes lexicon t (t.startLine line lines)
  | blank {c : Char} {rest : List Char} (hchar : takeChar lexicon.catcode t.rest = some (c, rest))
      (hcat : lexicon.catcode c = .space) (hstate : t.state ≠ .middle) : Passes lexicon t (t.advance rest t.state)
  | ignored {c : Char} {rest : List Char} (hchar : takeChar lexicon.catcode t.rest = some (c, rest))
      (hcat : lexicon.catcode c = .ignored) : Passes lexicon t (t.advance rest t.state)
  | comment {c : Char} {rest : List Char} (hchar : takeChar lexicon.catcode t.rest = some (c, rest))
      (hcat : lexicon.catcode c = .comment) : Passes lexicon t (t.advance [] t.state)
  | lineEnd {c : Char} {rest : List Char} (hchar : takeChar lexicon.catcode t.rest = some (c, rest))
      (hcat : lexicon.catcode c = .endLine) (hstate : t.state = .skipBlanks) : Passes lexicon t (t.advance [] t.state)

/-- The lexeme is found in `n` turns. The end of the text takes a turn as well. -/
inductive Takes (lexicon : Lexicon) : Nat → Tokenizer → Lexeme → Tokenizer → Prop where
  | finished {t : Tokenizer} (hrest : t.rest = []) (hlines : t.lines = []) : Takes lexicon 1 t .finished t
  | found {t t' : Tokenizer} {lexeme : Lexeme} (h : Finds lexicon t lexeme t') : Takes lexicon 1 t lexeme t'
  | pass {t t₁ t' : Tokenizer} {lexeme : Lexeme} {n : Nat} (h : Passes lexicon t t₁) (hrest : Takes lexicon n t₁ lexeme t') :
      Takes lexicon (n + 1) t lexeme t'

theorem takeChar_eq_none {catcode : Char → Catcode} {cs : List Char} : takeChar catcode cs = none ↔ cs = [] := by
  constructor
  · intro h
    match cs with
    | [] => rfl
    | [c] => simp [takeChar] at h
    | c :: d :: cs =>
      simp only [takeChar] at h
      split at h
      · split at h <;> cases h
      · cases h
  · rintro rfl
    rfl

/-- There is a turn unless the text is at its end. -/
theorem turn_cases (lexicon : Lexicon) (t : Tokenizer) :
    (t.rest = [] ∧ t.lines = []) ∨ (∃ lexeme t', Finds lexicon t lexeme t') ∨ ∃ t', Passes lexicon t t' := by
  cases hchar : takeChar lexicon.catcode t.rest with
  | none =>
    have hrest := takeChar_eq_none.1 hchar
    cases hlines : t.lines with
    | nil => exact .inl ⟨hrest, rfl⟩
    | cons line lines => exact .inr (.inr ⟨_, .startLine hrest hlines⟩)
  | some found =>
    obtain ⟨c, rest⟩ := found
    refine .inr ?_
    cases hcat : lexicon.catcode c with
    | escape =>
      rcases hname : takeName lexicon.catcode rest with ⟨name, rest', state⟩
      exact .inl ⟨_, _, .controlSequence hchar hcat hname⟩
    | active => exact .inl ⟨_, _, .active hchar hcat⟩
    | endLine =>
      cases hstate : t.state with
      | newLine => exact .inl ⟨_, _, .paragraph hchar hcat hstate⟩
      | middle => exact .inl ⟨_, _, .lineEnd hchar hcat hstate⟩
      | skipBlanks => exact .inr ⟨_, .lineEnd hchar hcat hstate⟩
    | space =>
      by_cases hstate : t.state = .middle
      · exact .inl ⟨_, _, .blank hchar hcat hstate⟩
      · exact .inr ⟨_, .blank hchar hcat hstate⟩
    | ignored => exact .inr ⟨_, .ignored hchar hcat⟩
    | comment => exact .inr ⟨_, .comment hchar hcat⟩
    | invalid => exact .inl ⟨_, _, .invalid hchar hcat⟩
    | _ => exact .inl ⟨_, _, .character hchar (by simp [hcat])⟩

/-! ## What a search finds -/

theorem readLine_nil (h : t.rest = []) : t.readLine lexicon = (none, t) := by
  rw [readLine]
  split
  · rfl
  · rename_i hchar
    rw [takeChar_eq_none.2 h] at hchar
    cases hchar

theorem Finds.readLine_eq (h : Finds lexicon t lexeme t') : t.readLine lexicon = (some lexeme, t') := by
  rw [readLine]
  split
  · cases h <;> simp_all
  · cases h <;> simp_all

theorem readFrom_congr (h : t.readLine lexicon = t₁.readLine lexicon) (lines : List (List Char)) :
    t.readFrom lexicon lines = t₁.readFrom lexicon lines := by
  cases lines <;> simp only [readFrom, h]

theorem Finds.read_eq (h : Finds lexicon t lexeme t') : t.read lexicon = (lexeme, t') := by
  rw [read]
  cases t.lines <;> simp only [readFrom, h.readLine_eq]

/-- A search which goes on finds the same as it does from there. -/
theorem Passes.read_eq (h : Passes lexicon t t₁) : t.read lexicon = t₁.read lexicon := by
  have hcongr : t.readLine lexicon = t₁.readLine lexicon → t₁.lines = t.lines → t.read lexicon = t₁.read lexicon := by
    intro hline hlines
    rw [read, read, hlines, readFrom_congr hline]
  cases h with
  | startLine hrest hlines =>
    rw [read, hlines, readFrom, readLine_nil hrest]
    rfl
  | blank hchar hcat hstate =>
    refine hcongr ?_ rfl
    rw [readLine]
    split <;> simp_all
  | ignored hchar hcat =>
    refine hcongr ?_ rfl
    rw [readLine]
    split <;> simp_all
  | comment hchar hcat =>
    refine hcongr ?_ rfl
    rw [readLine_nil (t := t.advance [] t.state) rfl, readLine]
    split <;> simp_all
  | lineEnd hchar hcat hstate =>
    refine hcongr ?_ rfl
    rw [readLine_nil (t := t.advance [] t.state) rfl, readLine]
    split <;> simp_all

/-- **What is found is what is read.** -/
theorem Takes.read_eq (h : Takes lexicon n t lexeme t') : t.read lexicon = (lexeme, t') := by
  induction h with
  | finished hrest hlines => simp only [read, hlines, readFrom, readLine_nil hrest]
  | found h => exact h.read_eq
  | pass h _ ih => rw [h.read_eq, ih]

/-! ## What is left of a text -/

theorem takeLetters_rest_le (catcode : Char → Catcode) (cs : List Char) :
    (takeLetters catcode cs).2.length ≤ cs.length := by
  fun_induction takeLetters catcode cs with
  | case1 cs c rest hchar _ letters rest' heq ih =>
    rw [heq] at ih
    exact Nat.le_trans ih (Nat.le_of_lt (takeChar_rest_lt hchar))
  | case2 | case3 => exact Nat.le_refl _

theorem takeName_rest_le {catcode : Char → Catcode} {cs name rest : List Char} {state : LineState}
    (h : takeName catcode cs = (name, rest, state)) : rest.length ≤ cs.length := by
  unfold takeName at h
  split at h
  · cases h
    exact Nat.le_refl _
  · next hchar =>
    split at h
    · cases h
      exact takeLetters_rest_le catcode cs
    · cases h
      exact Nat.le_of_lt (takeChar_rest_lt hchar)

/-- Some of the current line is read. -/
def MovesOn (t t' : Tokenizer) : Prop := ∃ rest state, rest.length < t.rest.length ∧ t' = t.advance rest state

theorem Finds.movesOn (h : Finds lexicon t lexeme t') : t.MovesOn t' := by
  have hlt : ∀ {c : Char} {rest : List Char}, takeChar lexicon.catcode t.rest = some (c, rest) →
      rest.length < t.rest.length := takeChar_rest_lt
  cases h with
  | controlSequence hchar _ hname => exact ⟨_, _, Nat.lt_of_le_of_lt (takeName_rest_le hname) (hlt hchar), rfl⟩
  | active hchar | blank hchar | invalid hchar | character hchar => exact ⟨_, _, hlt hchar, rfl⟩
  | paragraph hchar | lineEnd hchar => exact ⟨[], _, Nat.zero_lt_of_lt (hlt hchar), rfl⟩

/-- A turn which goes on reads some of the line, or starts the next one. -/
theorem Passes.startLine_or_movesOn (h : Passes lexicon t t₁) :
    (t.rest = [] ∧ ∃ line lines, t.lines = line :: lines ∧ t₁ = t.startLine line lines) ∨ t.MovesOn t₁ := by
  have hlt : ∀ {c : Char} {rest : List Char}, takeChar lexicon.catcode t.rest = some (c, rest) →
      rest.length < t.rest.length := takeChar_rest_lt
  cases h with
  | startLine hrest hlines => exact .inl ⟨hrest, _, _, hlines, rfl⟩
  | blank hchar | ignored hchar => exact .inr ⟨_, _, hlt hchar, rfl⟩
  | comment hchar | lineEnd hchar => exact .inr ⟨[], _, Nat.zero_lt_of_lt (hlt hchar), rfl⟩

/-- The number of characters which have not been read, with those at the ends of lines. -/
def unread (t : Tokenizer) : Nat := t.rest.length + t.lines.flatten.length

theorem MovesOn.unread_lt (h : t.MovesOn t') : t'.unread < t.unread := by
  obtain ⟨rest, state, hlt, rfl⟩ := h
  exact Nat.add_lt_add_right hlt _

theorem MovesOn.lines_eq (h : t.MovesOn t') : t'.lines = t.lines := by
  obtain ⟨rest, state, -, rfl⟩ := h
  rfl

theorem MovesOn.lineNumber_eq (h : t.MovesOn t') : t'.lineNumber = t.lineNumber := by
  obtain ⟨rest, state, -, rfl⟩ := h
  rfl

/-- A turn which goes on leaves fewer characters and lines. -/
theorem Passes.unread_lt (h : Passes lexicon t t₁) : t₁.unread + t₁.lines.length < t.unread + t.lines.length := by
  rcases h.startLine_or_movesOn with ⟨hrest, line, lines, hlines, rfl⟩ | hmoves
  · simp only [unread, Tokenizer.startLine, hrest, hlines, List.flatten_cons, List.length_append, List.length_cons,
      List.length_nil]
    omega
  · rw [hmoves.lines_eq]
    exact Nat.add_lt_add_right hmoves.unread_lt _

/-- **A search for a lexeme has an end.** It takes no more turns than there are characters and lines left, and one. -/
theorem exists_takes (lexicon : Lexicon) (t : Tokenizer) :
    ∃ n ≤ t.unread + t.lines.length + 1, ∃ lexeme t', Takes lexicon n t lexeme t' := by
  induction hsize : t.unread + t.lines.length using Nat.strongRecOn generalizing t with
  | _ size ih =>
    rcases turn_cases lexicon t with ⟨hrest, hlines⟩ | ⟨lexeme, t', hfinds⟩ | ⟨t₁, hpasses⟩
    · exact ⟨1, Nat.le_add_left 1 _, _, _, .finished hrest hlines⟩
    · exact ⟨1, Nat.le_add_left 1 _, _, _, .found hfinds⟩
    · have hlt := hpasses.unread_lt
      obtain ⟨n, hn, lexeme, t', htakes⟩ := ih _ (hsize ▸ hlt) t₁ rfl
      exact ⟨n + 1, by omega, lexeme, t', .pass hpasses htakes⟩

/-- **What is read is found.** -/
theorem takes_read (lexicon : Lexicon) (t : Tokenizer) :
    ∃ n ≤ t.unread + t.lines.length + 1, Takes lexicon n t (t.read lexicon).1 (t.read lexicon).2 := by
  obtain ⟨n, hn, lexeme, t', htakes⟩ := exists_takes lexicon t
  refine ⟨n, hn, ?_⟩
  rw [htakes.read_eq]
  exact htakes

/-! ## Series of calls -/

/-- A call of a tokenizer. -/
structure Call where
  /-- What the tokenizer had to know about the scopes. -/
  lexicon : Lexicon
  /-- What was delivered. -/
  lexeme : Lexeme
  /-- The position after the call. -/
  place : Locator

/-- A tokenizer after some calls, the first one first. -/
structure Session where
  tokenizer : Tokenizer
  calls : List Call := []

def Session.next (s : Session) (lexicon : Lexicon) : Session where
  tokenizer := (s.tokenizer.read lexicon).2
  calls := s.calls ++ [⟨lexicon, (s.tokenizer.read lexicon).1, (s.tokenizer.read lexicon).2.locator⟩]

/-- The session of `n` calls. The schedule says what the scopes are before a call, given the calls up to then. -/
def session (t : Tokenizer) (schedule : List Call → Lexicon) : Nat → Session
  | 0 => { tokenizer := t }
  | n + 1 => (t.session schedule n).next (schedule (t.session schedule n).calls)

/-- Some calls of a tokenizer, whatever the scopes are, and the tokenizer after them. -/
inductive Reading (t : Tokenizer) : List Call → Tokenizer → Prop where
  | nil : Reading t [] t
  | call {calls : List Call} {t₁ t₂ : Tokenizer} {lexicon : Lexicon} {lexeme : Lexeme} {turns : Nat}
      (h : Reading t calls t₁) (htakes : Takes lexicon turns t₁ lexeme t₂) :
      Reading t (calls ++ [⟨lexicon, lexeme, t₂.locator⟩]) t₂

theorem reading_session (t : Tokenizer) (schedule : List Call → Lexicon) (n : Nat) :
    t.Reading (t.session schedule n).calls (t.session schedule n).tokenizer := by
  induction n with
  | zero => exact .nil
  | succ n ih =>
    obtain ⟨turns, -, htakes⟩ := takes_read (schedule (t.session schedule n).calls) (t.session schedule n).tokenizer
    exact ih.call htakes

end Tokenizer

end Compositor
