import Compositor.Proofs.Token.Turns
import Mathlib.Data.List.Chain

/-!
# Blanks in a text

However many blanks there are between two words, there is a single space between their tokens, and there is none at the
start of a line and none after a control word. A line with nothing but blanks ends a paragraph.

The states of a tokenizer see to that. A space is found only in the middle of a line, which is where the last token was
neither a space nor a control word (`Tokenizer.Reading.spaced`), and where a line is started there is no middle.

* `Call.IsSpace` and `Call.IsControlWord` say what a call has delivered, `tokensOf` leaves out all but the tokens;
* `spelled` gives the characters which a line denotes, `IsBlankLine` says that they are blanks;
* `spaces_normalized` is the statement about all series of calls.
-/

namespace Compositor

namespace Tokenizer

variable {lexicon : Lexicon} {t t' t₁ : Tokenizer} {lexeme : Lexeme} {turns : Nat} {calls : List Call}

/-! ## Spaces and control words -/

def Call.isToken (d : Call) : Bool :=
  match d.lexeme with
  | .token _ => true
  | _ => false

def tokensOf (calls : List Call) : List Call := calls.filter Call.isToken

def Call.IsSpace (d : Call) : Prop := ∃ u, d.lexeme = .token u ∧ u.cat = .space

/-- The call has delivered a control sequence whose name is made of letters. -/
def Call.IsControlWord (d : Call) : Prop :=
  ∃ u, d.lexeme = .token u ∧ u.cat = .escape ∧ u.name.toList ≠ [] ∧ ∀ c ∈ u.name.toList, d.lexicon.catcode c = .letter

/-- There is something left of a line from which a character token was the last one. -/
def InMiddle (t : Tokenizer) : Prop := t.state = .middle ∧ t.rest ≠ []

theorem takeName_letters {catcode : Char → Catcode} {cs name rest : List Char} {state : LineState}
    (h : takeName catcode cs = (name, rest, state)) (hname : name ≠ []) (hletters : ∀ c ∈ name, catcode c = .letter) :
    state = .skipBlanks := by
  unfold takeName at h
  split at h
  · cases h
    exact absurd rfl hname
  · next c rest' _ =>
    split at h
    · cases h
      rfl
    · next hletter =>
      cases h
      exact absurd (hletters c (List.mem_singleton_self c)) hletter

theorem ne_nil_of_takeChar {catcode : Char → Catcode} {cs rest : List Char} {c : Char}
    (h : takeChar catcode cs = some (c, rest)) : cs ≠ [] := by
  rintro rfl
  cases h

/-- **A space is found in the middle of a line only**, and it is not the middle any more then. -/
theorem Finds.of_space {u : Token} (h : Finds lexicon t (.token u) t') (hu : u.cat = .space) :
    u = .blank ∧ t.InMiddle ∧ t'.lineNumber = t.lineNumber ∧ ¬ t'.InMiddle := by
  cases h with
  | controlSequence | active | paragraph => cases hu
  | lineEnd hchar _ hstate => exact ⟨rfl, ⟨hstate, ne_nil_of_takeChar hchar⟩, rfl, fun hmiddle => hmiddle.2 rfl⟩
  | blank hchar _ hstate => exact ⟨rfl, ⟨hstate, ne_nil_of_takeChar hchar⟩, rfl, fun hmiddle => nomatch hmiddle.1⟩
  | @character c rest hchar hcat =>
    have hspace : lexicon.catcode c = .space := by
      simp only [Token.character] at hu
      split at hu
      · cases hu
      · exact hu
    simp [hspace] at hcat

/-- A token after which a line is in its middle is no space and no control word. -/
theorem Finds.of_inMiddle {u : Token} (h : Finds lexicon t (.token u) t') (hmiddle : t'.InMiddle) (place : Locator) :
    ¬ (⟨lexicon, .token u, place⟩ : Call).IsSpace ∧ ¬ (⟨lexicon, .token u, place⟩ : Call).IsControlWord := by
  constructor
  · rintro ⟨v, hv, hspace⟩
    cases hv
    exact (h.of_space hspace).2.2.2 hmiddle
  · rintro ⟨v, hv, hescape, hname, hletters⟩
    cases hv
    cases h with
    | @controlSequence c rest rest' name state _ _ hread =>
      have htoList : (Token.controlSequence (String.ofList name) lexicon.space).name.toList = name := String.toList_ofList
      rw [htoList] at hname hletters
      have hskips := takeName_letters hread hname hletters
      exact nomatch hskips.symm.trans hmiddle.1
    | paragraph => exact hmiddle.2 rfl
    | character =>
      simp only [Token.character] at hescape
      split at hescape
      · cases hescape
      · exact absurd hescape ‹_›
    | active | lineEnd | blank => cases hescape

/-- Where a line has not been started, its middle has been there before the turn. -/
theorem Passes.of_inMiddle (h : Passes lexicon t t₁) (hmiddle : t₁.InMiddle) :
    t.InMiddle ∧ t₁.lineNumber = t.lineNumber := by
  cases h with
  | startLine => cases hmiddle.1
  | blank _ _ hstate => exact absurd hmiddle.1 hstate
  | ignored hchar => exact ⟨⟨hmiddle.1, ne_nil_of_takeChar hchar⟩, rfl⟩
  | comment | lineEnd => exact absurd rfl hmiddle.2

theorem Takes.of_space {u : Token} (h : Takes lexicon turns t (.token u) t') (hu : u.cat = .space) :
    u = .blank ∧ t.InMiddle ∧ t'.lineNumber = t.lineNumber ∧ ¬ t'.InMiddle := by
  generalize hlexeme : Lexeme.token u = lexeme at h
  induction h with
  | finished => cases hlexeme
  | found h =>
    subst hlexeme
    exact h.of_space hu
  | pass h _ ih =>
    obtain ⟨hblank, hmiddle, hline, hend⟩ := ih hlexeme
    obtain ⟨hmiddle, hsame⟩ := h.of_inMiddle hmiddle
    exact ⟨hblank, hmiddle, hline.trans hsame, hend⟩

/-- A line is in its middle after a token which is no space and no control word, or it has been there before. -/
theorem Takes.of_inMiddle (h : Takes lexicon turns t lexeme t') (hmiddle : t'.InMiddle) (place : Locator) :
    let d : Call := ⟨lexicon, lexeme, place⟩
    (∃ u, lexeme = .token u ∧ ¬ d.IsSpace ∧ ¬ d.IsControlWord) ∨
      d.isToken = false ∧ t.InMiddle ∧ t'.lineNumber = t.lineNumber := by
  induction h with
  | finished => exact .inr ⟨rfl, hmiddle, rfl⟩
  | @found t t' lexeme h =>
    cases lexeme with
    | token u => exact .inl ⟨u, rfl, h.of_inMiddle hmiddle place⟩
    | finished => cases h
    | invalid c at_ =>
      cases h with
      | invalid hchar => exact .inr ⟨rfl, ⟨hmiddle.1, ne_nil_of_takeChar hchar⟩, rfl⟩
  | pass h _ ih =>
    refine (ih hmiddle).imp_right fun ⟨hinvalid, hmiddle, hline⟩ => ?_
    obtain ⟨hmiddle, hsame⟩ := h.of_inMiddle hmiddle
    exact ⟨hinvalid, hmiddle, hline.trans hsame⟩

/-! ## Series of calls -/

/-- A space comes after a token of its line which is no space and no control word. -/
def Call.Admits (d next : Call) : Prop :=
  next.IsSpace → d.place.line = next.place.line ∧ ¬ d.IsSpace ∧ ¬ d.IsControlWord

/-- There is no space which is not a blank, and none but after a token of its line which is no space and no control word. -/
structure Spaced (tokens : List Call) : Prop where
  blank : ∀ d ∈ tokens, d.IsSpace → d.lexeme = .token .blank
  first : ∀ d ∈ tokens.head?, ¬ d.IsSpace
  chain : tokens.IsChain Call.Admits

theorem tokensOf_append_token {d : Call} (hd : d.isToken = true) (calls : List Call) :
    tokensOf (calls ++ [d]) = tokensOf calls ++ [d] := by
  rw [tokensOf, List.filter_append, List.filter_cons_of_pos hd]
  rfl

theorem tokensOf_append_of_not {d : Call} (hd : d.isToken = false) (calls : List Call) :
    tokensOf (calls ++ [d]) = tokensOf calls := by
  rw [tokensOf, List.filter_append, List.filter_cons_of_neg (by simp [hd])]
  exact List.append_nil _

/-- A token may be added if it is no space, or a blank which the last token admits. -/
theorem Spaced.append {tokens : List Call} (h : Spaced tokens) {d : Call}
    (hd : d.IsSpace → d.lexeme = .token .blank ∧ ∃ a ∈ tokens.getLast?, a.Admits d) : Spaced (tokens ++ [d]) where
  blank a ha hspace := by
    rcases List.mem_append.1 ha with hold | hnew
    · exact h.blank a hold hspace
    · obtain rfl := List.mem_singleton.1 hnew
      exact (hd hspace).1
  first a ha hspace := by
    cases htokens : tokens with
    | nil =>
      obtain rfl : d = a := by simpa [htokens] using ha
      obtain ⟨-, b, hb, -⟩ := hd hspace
      simp [htokens] at hb
    | cons b tokens' =>
      refine h.first a ?_ hspace
      simpa [htokens] using ha
  chain := by
    refine List.isChain_append.2 ⟨h.chain, List.isChain_singleton d, fun a ha b hb hspace => ?_⟩
    obtain rfl : d = b := by simpa using hb
    obtain ⟨-, a', ha', hadmits⟩ := hd hspace
    obtain rfl : a' = a := Option.some.inj (ha'.symm.trans ha)
    exact hadmits hspace

/-- **Spaces stand between words.** Where a line is in its middle, there may be one after the last token. -/
theorem Reading.spaced (h : t.Reading calls t') (ht : ¬ t.InMiddle) :
    Spaced (tokensOf calls) ∧ (t'.InMiddle → ∃ d ∈ (tokensOf calls).getLast?, d.place.line = (t'.lineNumber : Int) ∧
      ¬ d.IsSpace ∧ ¬ d.IsControlWord) := by
  induction h with
  | nil => exact ⟨⟨by simp [tokensOf], by simp [tokensOf], .nil⟩, fun hmiddle => absurd hmiddle ht⟩
  | @call calls t₁ t₂ lexicon lexeme turns h htakes ih =>
    obtain ⟨hspaced, hready⟩ := ih
    let d : Call := ⟨lexicon, lexeme, t₂.locator⟩
    have hmiddle : t₂.InMiddle → _ := fun hmiddle => htakes.of_inMiddle hmiddle t₂.locator
    cases htoken : d.isToken with
    | false =>
      rw [tokensOf_append_of_not htoken]
      refine ⟨hspaced, fun hin => ?_⟩
      rcases hmiddle hin with ⟨u, rfl, -⟩ | ⟨-, hin, hline⟩
      · cases htoken
      · rw [hline]
        exact hready hin
    | true =>
      rw [tokensOf_append_token htoken]
      refine ⟨hspaced.append fun ⟨u, hu, hspace⟩ => ?_, fun hin => ⟨d, by simp, rfl, ?_⟩⟩
      · obtain rfl : lexeme = .token u := hu
        obtain ⟨rfl, hin, hline, -⟩ := htakes.of_space hspace
        obtain ⟨a, ha, hsame, hkind⟩ := hready hin
        exact ⟨rfl, a, ha, fun _ => ⟨hsame.trans (congrArg Nat.cast hline.symm), hkind⟩⟩
      · rcases hmiddle hin with ⟨u, -, hkind⟩ | ⟨hnone, -⟩
        · exact hkind
        · cases htoken.symm.trans hnone

/-! ## Lines of blanks -/

/-- The line has nothing but blanks and ignored characters before its end. -/
inductive Blank (catcode : Char → Catcode) : List Char → Prop where
  | lineEnd {cs rest : List Char} {c : Char} (hchar : takeChar catcode cs = some (c, rest))
      (hcat : catcode c = .endLine) : Blank catcode cs
  | skipped {cs rest : List Char} {c : Char} (hchar : takeChar catcode cs = some (c, rest))
      (hcat : catcode c = .space ∨ catcode c = .ignored) (hrest : Blank catcode rest) : Blank catcode cs

/-- A character denotes itself unless it is a superscript mark. -/
theorem takeChar_cons {catcode : Char → Catcode} {c : Char} (hc : catcode c ≠ .supMark) (cs : List Char) :
    takeChar catcode (c :: cs) = some (c, cs) := by
  cases cs with
  | nil => rfl
  | cons d cs => simp [takeChar, hc]

/-- The category of each character of the text is all that matters. -/
theorem blank_normalizeLine {catcode : Char → Catcode} {line : List Char} (hend : catcode endLineChar = .endLine)
    (hline : ∀ c ∈ line, catcode c = .space ∨ catcode c = .ignored) : Blank catcode (normalizeLine line) := by
  have hblank : ∀ cs : List Char, (∀ c ∈ cs, catcode c = .space ∨ catcode c = .ignored) →
      Blank catcode (cs ++ [endLineChar]) := by
    intro cs hcs
    induction cs with
    | nil => exact .lineEnd rfl hend
    | cons c cs ih =>
      have hc := hcs c List.mem_cons_self
      refine .skipped (takeChar_cons ?_ _) hc (ih fun d hd => hcs d (List.mem_cons_of_mem c hd))
      rcases hc with hc | hc <;> rw [hc] <;> decide
  refine hblank _ fun c hc => hline c ?_
  exact (Text.dropTail_sublist _ _).subset ((Text.dropTail_sublist _ _).subset hc)

/-- A search at the start of such a line ends at the end of the line. -/
theorem Blank.takes (h : Blank lexicon.catcode t.rest) (hstate : t.state = .newLine) :
    ∃ turns t', Takes lexicon turns t (.token (.controlSequence "par" lexicon.space)) t' ∧
      t'.lineNumber = t.lineNumber ∧ t'.rest = [] := by
  generalize hcs : t.rest = cs at h
  induction h generalizing t with
  | lineEnd hchar hcat =>
    rw [← hcs] at hchar
    exact ⟨1, _, .found (.paragraph hchar hcat hstate), rfl, rfl⟩
  | @skipped _ rest _ hchar hcat _ ih =>
    rw [← hcs] at hchar
    obtain ⟨turns, t', htakes, hline, hrest⟩ := ih (t := t.advance rest t.state) hstate rfl
    have hpass : Passes lexicon t (t.advance rest t.state) := by
      rcases hcat with hcat | hcat
      · exact .blank hchar hcat (by simp [hstate])
      · exact .ignored hchar hcat
    exact ⟨turns + 1, t', .pass hpass htakes, hline, hrest⟩

/-- **A search which comes to a line of blanks finds the end of a paragraph there.** -/
theorem Takes.of_blank (h : Takes lexicon turns t lexeme t') {i : Nat} {line : List Char} (hline : t.lines[i]? = some line)
    (hblank : Blank lexicon.catcode line) (hreach : t.lineNumber + i < t'.lineNumber) :
    lexeme = .token (.controlSequence "par" lexicon.space) ∧ t'.lineNumber = t.lineNumber + i + 1 ∧ t'.rest = [] := by
  induction h generalizing i with
  | finished => omega
  | found h =>
    have hsame := h.movesOn.lineNumber_eq
    omega
  | @pass t t₁ t' lexeme _ h htakes ih =>
    rcases h.startLine_or_movesOn with ⟨-, first, lines, hlines, rfl⟩ | hmoves
    · rw [hlines] at hline
      cases i with
      | zero =>
        obtain rfl : first = line := by simpa using hline
        obtain ⟨_, t₂, hfound, hnumber, hrest⟩ := Blank.takes (t := t.startLine first lines) hblank rfl
        obtain ⟨rfl, rfl⟩ := Prod.mk.inj (htakes.read_eq.symm.trans hfound.read_eq)
        exact ⟨rfl, hnumber, hrest⟩
      | succ i =>
        have hnumber : (t.startLine first lines).lineNumber = t.lineNumber + 1 := rfl
        rw [List.getElem?_cons_succ] at hline
        obtain ⟨hpar, hnext, hrest⟩ := ih (i := i) hline (by omega)
        exact ⟨hpar, by omega, hrest⟩
    · rw [← hmoves.lines_eq] at hline
      rw [← hmoves.lineNumber_eq] at hreach ⊢
      exact ih hline hreach

theorem Takes.exists_drop (h : Takes lexicon turns t lexeme t') :
    ∃ k, t'.lineNumber = t.lineNumber + k ∧ t'.lines = t.lines.drop k := by
  induction h with
  | finished => exact ⟨0, rfl, rfl⟩
  | found h => exact ⟨0, h.movesOn.lineNumber_eq, h.movesOn.lines_eq⟩
  | @pass t t₁ _ _ _ h _ ih =>
    obtain ⟨k, hnumber, hdrop⟩ := ih
    rcases h.startLine_or_movesOn with ⟨-, line, lines, hlines, rfl⟩ | hmoves
    · refine ⟨k + 1, ?_, by rw [hdrop, hlines, List.drop_succ_cons, Tokenizer.startLine]⟩
      simp only [hnumber, Tokenizer.startLine]
      omega
    · exact ⟨k, by rw [hnumber, hmoves.lineNumber_eq], by rw [hdrop, hmoves.lines_eq]⟩

/-- At the end of a line, the next lexeme comes from a later one. -/
theorem Takes.of_rest_nil (h : Takes lexicon turns t lexeme t') (hrest : t.rest = []) :
    lexeme = .finished ∧ t' = t ∨ t.lineNumber < t'.lineNumber := by
  cases h with
  | finished => exact .inl ⟨rfl, rfl⟩
  | found h =>
    obtain ⟨_, _, hlt, -⟩ := h.movesOn
    simp [hrest] at hlt
  | pass h htakes =>
    rcases h.startLine_or_movesOn with ⟨-, line, lines, -, rfl⟩ | ⟨_, _, hlt, -⟩
    · obtain ⟨k, hnumber, -⟩ := htakes.exists_drop
      have hstart : (t.startLine line lines).lineNumber = t.lineNumber + 1 := rfl
      exact .inr (by omega)
    · simp [hrest] at hlt

theorem Reading.exists_drop (h : t.Reading calls t') : ∃ k, t'.lineNumber = t.lineNumber + k ∧ t'.lines = t.lines.drop k := by
  induction h with
  | nil => exact ⟨0, rfl, rfl⟩
  | call _ htakes ih =>
    obtain ⟨k, hnumber, hdrop⟩ := ih
    obtain ⟨j, hnumber', hdrop'⟩ := htakes.exists_drop
    exact ⟨k + j, by omega, by rw [hdrop', hdrop, List.drop_drop]⟩

/-- A series of calls may be taken apart at any of them. -/
theorem Reading.split {before after : List Call} {d : Call} (h : t.Reading (before ++ d :: after) t') :
    ∃ t₁ turns t₂, t.Reading before t₁ ∧ Takes d.lexicon turns t₁ d.lexeme t₂ ∧ d.place = t₂.locator ∧
      t₂.Reading after t' := by
  generalize hcalls : before ++ d :: after = calls at h
  induction h generalizing after with
  | nil => simp at hcalls
  | @call calls t₁ t₂ lexicon lexeme turns h htakes ih =>
    rcases List.eq_nil_or_concat after with rfl | ⟨later, last, rfl⟩
    · obtain ⟨rfl, hlast⟩ := List.append_inj' hcalls rfl
      obtain rfl := List.head_eq_of_cons_eq hlast
      exact ⟨t₁, turns, t₂, h, htakes, rfl, .nil⟩
    · rw [List.concat_eq_append, ← List.cons_append, ← List.append_assoc] at hcalls
      obtain ⟨hold, hlast⟩ := List.append_inj' hcalls rfl
      obtain rfl := List.head_eq_of_cons_eq hlast
      obtain ⟨s₁, turns', s₂, hbefore, hd, hplace, hafter⟩ := ih hold
      rw [List.concat_eq_append]
      exact ⟨s₁, turns', s₂, hbefore, hd, hplace, hafter.call htakes⟩

theorem Reading.lineNumber_le (h : t.Reading calls t') {k : Nat} (ht : t.lineNumber ≤ k)
    (hcalls : ∀ d ∈ calls, d.place.line ≤ (k : Int)) : t'.lineNumber ≤ k := by
  cases h with
  | nil => exact ht
  | call =>
    have hline := hcalls _ (List.mem_append_right _ (List.mem_singleton_self _))
    exact Int.ofNat_le.1 hline

/-- After the end of a line nothing more is delivered from it. -/
theorem Reading.of_rest_nil (h : t.Reading calls t') (hrest : t.rest = []) :
    (t' = t ∨ t.lineNumber < t'.lineNumber) ∧
      ∀ d ∈ tokensOf calls, (t.lineNumber : Int) < d.place.line := by
  induction h with
  | nil => exact ⟨.inl rfl, by simp [tokensOf]⟩
  | @call calls t₁ t₂ lexicon lexeme turns _ htakes ih =>
    obtain ⟨hplace, htokens⟩ := ih
    have hstep : lexeme = .finished ∧ t₂ = t₁ ∨ t.lineNumber < t₂.lineNumber := by
      obtain ⟨k, hnumber, -⟩ := htakes.exists_drop
      rcases hplace with rfl | hlt
      · exact htakes.of_rest_nil hrest
      · exact .inr (by omega)
    refine ⟨?_, fun d hd => ?_⟩
    · rcases hstep with ⟨-, rfl⟩ | hlt
      · exact hplace
      · exact .inr hlt
    · obtain ⟨hmem, htoken⟩ := List.mem_filter.1 hd
      rcases List.mem_append.1 hmem with hold | hnew
      · exact htokens d (List.mem_filter.2 ⟨hold, htoken⟩)
      · obtain rfl := List.mem_singleton.1 hnew
        rcases hstep with ⟨rfl, -⟩ | hlt
        · cases htoken
        · exact Int.ofNat_lt.2 hlt

/-- Where the reading comes to a line of blanks, this is the end of a paragraph and nothing else. -/
theorem Reading.of_blank {before after : List Call} {d : Call} (h : t.Reading (before ++ d :: after) t')
    (hstart : t.lineNumber = 0) {k : Nat} {line : List Char} (hline : t.lines[k]? = some line)
    (hblank : Blank d.lexicon.catcode line) (hbefore : ∀ a ∈ before, a.place.line ≤ (k : Int))
    (hreach : (k : Int) < d.place.line) :
    d.lexeme = .token (.controlSequence "par" d.lexicon.space) ∧
      (tokensOf (before ++ d :: after)).filter (fun a => a.place.line = (k : Int) + 1) = [d] := by
  obtain ⟨t₁, turns, t₂, hreading, htakes, hplace, hafter⟩ := h.split
  have hnumber := hreading.lineNumber_le (k := k) (by omega) hbefore
  obtain ⟨j, hj, hdrop⟩ := hreading.exists_drop
  have hahead : t₁.lines[k - t₁.lineNumber]? = some line := by
    rw [hdrop, List.getElem?_drop, ← hline]
    congr 1
    omega
  rw [hplace] at hreach
  have hreach : k < t₂.lineNumber := Int.ofNat_lt.1 hreach
  obtain ⟨hpar, hnext, hrest⟩ := htakes.of_blank hahead hblank (by omega)
  have hdline : d.place.line = (k : Int) + 1 := by
    rw [hplace]
    simp only [locator]
    omega
  -- the calls before have not come to the line, and the line is left with the end of the paragraph
  have hearlier : (tokensOf before).filter (fun a => a.place.line = (k : Int) + 1) = [] := by
    refine List.filter_eq_nil_iff.2 fun a ha => ?_
    have hle := hbefore a (List.mem_of_mem_filter ha)
    simp only [decide_eq_true_eq]
    omega
  have hlater : (tokensOf after).filter (fun a => a.place.line = (k : Int) + 1) = [] := by
    refine List.filter_eq_nil_iff.2 fun a ha => ?_
    have hlt := (hafter.of_rest_nil hrest).2 a ha
    simp only [decide_eq_true_eq]
    omega
  have hd : d.isToken = true := by rw [Call.isToken, hpar]
  have htokens : tokensOf (before ++ d :: after) = tokensOf before ++ d :: tokensOf after := by
    rw [tokensOf, List.filter_append, List.filter_cons_of_pos hd, tokensOf, tokensOf]
  refine ⟨hpar, ?_⟩
  rw [htokens, List.filter_append, hearlier, List.filter_cons_of_pos (by simpa using hdline), hlater]
  rfl

end Tokenizer

/-! ## The main statement -/

open Tokenizer in
/-- **Spaces are normalized.** Whatever the scopes are in each of the calls of a tokenizer, the tokens of category *space*
among those which it delivers are blanks, none of them is the first one of a text, and each of them comes right after a token
of its line which is neither a space nor a control word. Where the call comes to a line which has nothing but blanks and
ignored characters before its end, it delivers `\par`, and there is no other token of this line. -/
theorem spaces_normalized (text source : String) (schedule : List Call → Lexicon) (n : Nat) :
    let s := (ofText text source).session schedule n
    Spaced (tokensOf s.calls) ∧
    ∀ (k : Nat) (line : List Char) (before after : List Call) (d : Call), (splitLines text.toList)[k]? = some line →
      s.calls = before ++ d :: after → (∀ a ∈ before, a.place.line ≤ (k : Int)) → (k : Int) < d.place.line →
      Blank d.lexicon.catcode (normalizeLine line) →
      d.lexeme = .token (.controlSequence "par" d.lexicon.space) ∧
        (tokensOf s.calls).filter (fun a => a.place.line = (k : Int) + 1) = [d] := by
  intro s
  have hreading : (ofText text source).Reading s.calls s.tokenizer := reading_session _ schedule n
  refine ⟨(hreading.spaced fun hmiddle => hmiddle.2 rfl).1, fun k line before after d hline hcalls hbefore hreach hblank => ?_⟩
  have hnormal : (ofText text source).lines[k]? = some (normalizeLine line) := by
    rw [ofText, List.getElem?_map, hline]
    rfl
  rw [hcalls] at hreading ⊢
  exact hreading.of_blank rfl hnormal hblank hbefore hreach

open Tokenizer in
/-- A tabulator makes a line of blanks as well. -/
theorem spaces_normalized_tabulator :
    let lexicon : Lexicon := ⟨fun c => if c = '\t' then .space else if c = endLineChar then .endLine else .other, ""⟩
    let d : Call := ⟨lexicon, .token (.controlSequence "par" ""), ⟨"text", 1, 3⟩⟩
    let s := (ofText "\t\nx" "text").session (fun _ => lexicon) 1
    s.calls = [d] ∧ (tokensOf s.calls).filter (fun a => a.place.line = 1) = [d] := by
  intro lexicon d s
  have hline : (splitLines "\t\nx".toList)[0]? = some ['\t'] := rfl
  have hstart : Passes lexicon (ofText "\t\nx" "text") ⟨"text", ['\t', '\r'], [['x', '\r']], 1, 0, .newLine⟩ :=
    .startLine rfl rfl
  have htakes : Takes lexicon 3 (ofText "\t\nx" "text") d.lexeme ⟨"text", [], [['x', '\r']], 1, 2, .newLine⟩ :=
    .pass hstart (.pass (.blank rfl rfl (by decide)) (.found (.paragraph rfl rfl rfl)))
  have hcalls : s.calls = [] ++ d :: [] :=
    congrArg (fun result : Lexeme × Tokenizer => [(⟨lexicon, result.1, result.2.locator⟩ : Call)]) htakes.read_eq
  have htabulator : ∀ c ∈ ['\t'], lexicon.catcode c = .space ∨ lexicon.catcode c = .ignored := by
    intro c hc
    obtain rfl := List.mem_singleton.1 hc
    exact .inl rfl
  have hblank : Blank d.lexicon.catcode (normalizeLine ['\t']) := blank_normalizeLine rfl htabulator
  exact ⟨hcalls, ((spaces_normalized "\t\nx" "text" (fun _ => lexicon) 1).2 0 ['\t'] [] [] d hline hcalls (by simp)
    (by decide) hblank).2⟩

end Compositor
