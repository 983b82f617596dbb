import Compositor.Proofs.Token.LineEnds
import Compositor.Proofs.Token.Spacing
import Compositor.Scope.Context

/-!
# Token lists as they are written

`Token.formatList` writes a list of tokens on a line, with blanks after control words. Where the line is read with the
categories which characters have at first, the tokens come back, but for one case: no blank is written after a control
sequence of a single letter which is not one of ASCII, so that the letters after it are read into its name.

* `Token.IsWordOrLetter` says of which tokens the list consists, `Token.RunsOn` which of them take letters into their names;
* `joined` is the list with those letters in the names, `lineOf` the line without the blank at its end;
* `Tokenizer.StandsBefore` says that such a line is going to be read, and `StandsBefore.gives` what comes of it;
* `written_tokens_read` says that the joined list is read, and when this is the list which was written.
-/

namespace Compositor

/-- What a tokenizer knows of the scopes before anything has been assigned. -/
def Lexicon.initial : Lexicon := ({} : Context).lexicon

abbrev IsInitialLetter (c : Char) : Prop := Lexicon.initial.catcode c = .letter

/-! ## Words and letters -/

namespace Token

/-- A control sequence of the default name space which is named by letters, or a letter. -/
inductive IsWordOrLetter : Token → Prop where
  | word {name : List Char} (hname : name ≠ []) (hletters : ∀ c ∈ name, IsInitialLetter c) :
      IsWordOrLetter (.controlSequence (String.ofList name) "")
  | letter {c : Char} (hc : IsInitialLetter c) : IsWordOrLetter (.letter c)

/-- The token is a control sequence of a single character, which is no letter of ASCII. -/
def RunsOn (t : Token) : Prop := t.isControlSymbol = true ∧ Text.isAsciiLetter t.char.toNat = false

instance (t : Token) : Decidable t.RunsOn := inferInstanceAs (Decidable (_ ∧ _))

def isLetter (t : Token) : Bool := t.cat == .letter

theorem isAsciiLetter_char (c : Char) :
    Text.isAsciiLetter c.toNat = (('a' ≤ c && c ≤ 'z') || ('A' ≤ c && c ≤ 'Z')) := by
  simp only [Text.isAsciiLetter, Char.le_def, UInt32.le_iff_toNat_le]
  rfl

/-- No blank is written after these control sequences, and one after all others. -/
theorem needsSeparator_iff {t : Token} (ht : t.isControlSequence = true) : t.needsSeparator = true ↔ ¬ t.RunsOn := by
  unfold needsSeparator RunsOn
  rw [ht, Bool.or_assoc, ← isAsciiLetter_char]
  cases t.isControlSymbol <;> simp

end Token

/-! ## Lists which are read as others -/

/-- The tokens with the letters after a control sequence in its name, where no blank separates them. -/
def joined : List Token → List Token
  | [] => []
  | t :: ts =>
    if t.RunsOn then
      .controlSequence (t.name ++ String.join ((ts.takeWhile Token.isLetter).map Token.name)) t.space ::
        joined (ts.dropWhile Token.isLetter)
    else t :: joined ts
termination_by ts => ts.length
decreasing_by
  · exact Nat.lt_succ_of_le (List.dropWhile_suffix _).length_le
  · exact Nat.lt_succ_self _

theorem length_joined_le (ts : List Token) : (joined ts).length ≤ ts.length := by
  fun_induction joined ts with
  | case1 => exact Nat.le_refl 0
  | case2 t ts ht ih =>
    have hdrop := (List.dropWhile_suffix Token.isLetter (l := ts)).length_le
    simp only [List.length_cons]
    omega
  | case3 t ts ht ih => exact Nat.succ_le_succ ih

/-- **Nothing is joined** unless a letter comes right after such a control sequence. -/
theorem joined_eq_self_iff (ts : List Token) : joined ts = ts ↔ ts.IsChain fun t u => ¬ (t.RunsOn ∧ u.isLetter = true) := by
  fun_induction joined ts with
  | case1 => simp
  | case2 t ts ht ih =>
    have hself : Token.controlSequence t.name t.space = t := by
      have hcat : t.cat = .escape := by simpa [Token.isControlSymbol, Token.isControlSequence] using (Bool.and_eq_true_iff.1 ht.1).1
      rw [Token.controlSequence, ← hcat]
    cases ts with
    | nil => simpa [joined] using hself
    | cons u ts =>
      by_cases hu : u.isLetter = true
      · -- the letter is not there any more
        have hshorter := length_joined_le (ts.dropWhile Token.isLetter)
        have hdrop := (List.dropWhile_suffix Token.isLetter (l := ts)).length_le
        simp only [List.dropWhile_cons_of_pos hu, List.isChain_cons_cons, ht, hu]
        constructor
        · intro h
          have hlength := congrArg List.length h
          simp only [List.length_cons] at hlength
          omega
        · rintro ⟨hno, -⟩
          exact absurd ⟨trivial, trivial⟩ hno
      · rw [List.takeWhile_cons_of_neg hu, List.dropWhile_cons_of_neg hu] at *
        simp only [List.map_nil, String.join_nil, String.append_empty, hself, List.cons.injEq, true_and,
          List.isChain_cons_cons, hu]
        simp [ih]
  | case3 t ts ht ih =>
    rw [List.cons.injEq, List.isChain_cons]
    simp [ih, ht]

/-! ## The line -/

/-- The characters which are written, without a blank at their end. -/
def lineOf : List Token → List Char
  | [] => []
  | t :: ts => t.format.toList ++ (if t.needsSeparator = true ∧ ts ≠ [] then ' ' :: lineOf ts else lineOf ts)

theorem lineOf_cons_cons (t u : Token) (ts : List Token) : lineOf (t :: u :: ts) =
    t.format.toList ++ (if t.needsSeparator = true then [' '] else []) ++ lineOf (u :: ts) := by
  have hcons : lineOf (t :: u :: ts) = t.format.toList ++
      (if t.needsSeparator = true ∧ u :: ts ≠ [] then ' ' :: lineOf (u :: ts) else lineOf (u :: ts)) := rfl
  rw [hcons]
  by_cases h : t.needsSeparator = true <;> simp [h]

section Line

variable {c : Char} {t : Token} {ts : List Token}

theorem IsInitialLetter.ne (hc : IsInitialLetter c) {d : Char} (hd : Lexicon.initial.catcode d ≠ .letter) : c ≠ d := by
  rintro rfl
  exact hd hc

namespace Token

theorem toList_format_word (name : List Char) :
    (controlSequence (String.ofList name) "").format.toList = '\\' :: name := by
  simp [format, isControlSequence, controlSequence]

theorem toList_format_letter (c : Char) : (letter c).format.toList = [c] := by
  simp [format, isControlSequence, letter, character]

theorem needsSeparator_letter (c : Char) : (letter c).needsSeparator = false := rfl

theorem IsWordOrLetter.written (ht : t.IsWordOrLetter) :
    ∃ d ds, t.format.toList = d :: ds ∧ d ≠ ' ' ∧ (d = '\\' ∨ IsInitialLetter d) ∧ ∀ c ∈ ds, IsInitialLetter c := by
  cases ht with
  | @word name hname hletters => exact ⟨_, name, toList_format_word name, by decide, .inl rfl, hletters⟩
  | @letter c hc => exact ⟨c, [], toList_format_letter c, hc.ne (by decide), .inr hc, by simp⟩

end Token

theorem toList_formatList_cons (t : Token) (ts : List Token) : (Token.formatList (t :: ts)).toList =
    t.format.toList ++ ((if t.needsSeparator = true then [' '] else []) ++ (Token.formatList ts).toList) := by
  rw [Token.formatList, List.map_cons, String.join_cons, String.toList_append, ← Token.formatList]
  by_cases h : t.needsSeparator = true <;> simp [h]

theorem lineOf_ne_nil (ht : t.IsWordOrLetter) (ts : List Token) : lineOf (t :: ts) ≠ [] := by
  obtain ⟨d, ds, hformat, -⟩ := ht.written
  simp [lineOf, hformat]

/-- A blank after the last token is dropped, and no other one. -/
theorem dropTail_formatList (hts : ∀ t ∈ ts, t.IsWordOrLetter) :
    Text.dropTail (· == ' ') (Token.formatList ts).toList = lineOf ts := by
  induction ts with
  | nil => rfl
  | cons t ts ih =>
    obtain ⟨ht, hts⟩ := List.forall_mem_cons.1 hts
    have hformat : Text.dropTail (· == ' ') t.format.toList = t.format.toList := by
      obtain ⟨d, ds, hformat, hd, -, hds⟩ := ht.written
      refine Text.dropTail_eq_self fun c hc => beq_eq_false_iff_ne.2 ?_
      rw [hformat] at hc
      rcases List.mem_cons.1 hc with rfl | hc
      · exact hd
      · exact (hds c hc).ne (by decide)
    rw [toList_formatList_cons]
    cases ts with
    | nil =>
      by_cases h : t.needsSeparator = true
      · simpa [lineOf, h, Token.formatList] using (Text.dropTail_append_of_pos _ rfl).trans hformat
      · simpa [lineOf, h, Token.formatList] using hformat
    | cons u ts =>
      have hne : lineOf (u :: ts) ≠ [] := lineOf_ne_nil (hts u List.mem_cons_self) ts
      rw [← List.append_assoc, Text.dropTail_append_of_ne_nil _ (by rwa [ih hts]), ih hts, lineOf_cons_cons]

theorem mem_formatList (hts : ∀ t ∈ ts, t.IsWordOrLetter) (hc : c ∈ (Token.formatList ts).toList) :
    c = ' ' ∨ c = '\\' ∨ IsInitialLetter c := by
  induction ts with
  | nil => simp [Token.formatList] at hc
  | cons t ts ih =>
    obtain ⟨ht, hts⟩ := List.forall_mem_cons.1 hts
    obtain ⟨d, ds, hformat, -, hd, hds⟩ := ht.written
    rw [toList_formatList_cons, hformat] at hc
    rcases List.mem_append.1 hc with hc | hc
    · rcases List.mem_cons.1 hc with rfl | hc
      · exact .inr hd
      · exact .inr (.inr (hds c hc))
    · rcases List.mem_append.1 hc with hc | hc
      · split at hc
        · exact .inl (List.mem_singleton.1 hc)
        · simp at hc
      · exact ih hts hc

open Tokenizer in
/-- **The line which a tokenizer gets.** -/
theorem normalizeLine_formatList (hts : ∀ t ∈ ts, t.IsWordOrLetter) :
    normalizeLine (Token.formatList ts).toList = lineOf ts ++ [endLineChar] := by
  have hends : ∀ c ∈ (Token.formatList ts).toList, (c == '\r' || c == '\n') = false := by
    intro c hc
    have hne : c ≠ '\r' ∧ c ≠ '\n' := by
      rcases mem_formatList hts hc with rfl | rfl | hletter
      · decide
      · decide
      · exact ⟨hletter.ne (by decide), hletter.ne (by decide)⟩
    simp [hne]
  rw [normalizeLine, Text.dropTail_eq_self hends, dropTail_formatList hts]

end Line

/-! ## Names -/

namespace Tokenizer

variable {c : Char} {t : Token} {ts : List Token}

theorem takeLetters_append {catcode : Char → Catcode} {name : List Char} (hname : ∀ c ∈ name, catcode c = .letter)
    (hc : catcode c ≠ .letter) (hsup : catcode c ≠ .supMark) (rest : List Char) :
    takeLetters catcode (name ++ c :: rest) = (name, c :: rest) := by
  induction name with
  | nil =>
    rw [List.nil_append, takeLetters]
    split
    · next hchar =>
      rw [takeChar_cons hsup] at hchar
      cases hchar
      rw [if_neg hc]
    · rfl
  | cons d name ih =>
    obtain ⟨hd, hname⟩ := List.forall_mem_cons.1 hname
    rw [List.cons_append, takeLetters]
    split
    · next hchar =>
      rw [takeChar_cons (by simp [hd])] at hchar
      cases hchar
      rw [if_pos hd, ih hname]
    · next hchar => cases (takeChar_cons (by simp [hd]) _).symm.trans hchar

/-- **A name takes all letters which come right after it.** -/
theorem takeLetters_lineOf (hts : ∀ t ∈ ts, t.IsWordOrLetter) {name : List Char} (hname : ∀ c ∈ name, IsInitialLetter c) :
    takeLetters Lexicon.initial.catcode (name ++ (lineOf ts ++ [endLineChar])) =
      (name ++ (String.join ((ts.takeWhile Token.isLetter).map Token.name)).toList,
        lineOf (ts.dropWhile Token.isLetter) ++ [endLineChar]) := by
  induction ts generalizing name with
  | nil => simpa [lineOf] using takeLetters_append hname (c := endLineChar) (by decide) (by decide) []
  | cons t ts ih =>
    obtain ⟨ht, hothers⟩ := List.forall_mem_cons.1 hts
    cases ht with
    | @word word hword hletters =>
      have hline : ∃ rest, lineOf (.controlSequence (String.ofList word) "" :: ts) = '\\' :: rest :=
        ⟨_, by rw [lineOf, Token.toList_format_word]; rfl⟩
      obtain ⟨rest, hrest⟩ := hline
      have hstop : (Token.controlSequence (String.ofList word) "").isLetter = false := rfl
      rw [List.takeWhile_cons_of_neg (by simp [hstop]), List.dropWhile_cons_of_neg (by simp [hstop]), hrest]
      simpa using takeLetters_append hname (c := '\\') (by decide) (by decide) (rest ++ [endLineChar])
    | @letter c hc =>
      have hletter : (Token.letter c).isLetter = true := rfl
      have hline : lineOf (.letter c :: ts) = c :: lineOf ts := by
        simp [lineOf, Token.toList_format_letter, Token.needsSeparator_letter]
      have hmore : ∀ d ∈ name ++ [c], IsInitialLetter d := by
        intro d hd
        rcases List.mem_append.1 hd with hd | hd
        · exact hname d hd
        · exact List.mem_singleton.1 hd ▸ hc
      have htake := ih hothers hmore
      rw [List.append_assoc] at htake
      rw [List.takeWhile_cons_of_pos hletter, List.dropWhile_cons_of_pos hletter, hline]
      simpa [Token.letter, Token.character] using htake

/-- The name of a control sequence which begins with a letter is all that belongs to it. -/
theorem takeName_eq {catcode : Char → Catcode} {cs name rest : List Char} (hc : catcode c = .letter)
    (h : takeLetters catcode (c :: cs) = (name, rest)) : takeName catcode (c :: cs) = (name, rest, .skipBlanks) := by
  rw [takeName, takeChar_cons (by simp [hc])]
  simp only [hc, if_true, h]

/-! ## Series of calls with the same scopes -/

/-- What the first calls of a tokenizer deliver, where the scopes do not change. -/
def lexemes (lexicon : Lexicon) (k : Tokenizer) (n : Nat) : List Lexeme :=
  (k.session (fun _ => lexicon) n).calls.map Call.lexeme

/-- The lexemes are delivered one after the other. -/
inductive Gives (lexicon : Lexicon) : Tokenizer → List Lexeme → Tokenizer → Prop where
  | nil {k : Tokenizer} : Gives lexicon k [] k
  | cons {k k₁ k' : Tokenizer} {turns : Nat} {lexeme : Lexeme} {ls : List Lexeme} (h : Takes lexicon turns k lexeme k₁)
      (hrest : Gives lexicon k₁ ls k') : Gives lexicon k (lexeme :: ls) k'

theorem session_succ (lexicon : Lexicon) (k : Tokenizer) (n : Nat) :
    (k.session (fun _ => lexicon) (n + 1)).tokenizer = ((k.read lexicon).2.session (fun _ => lexicon) n).tokenizer ∧
      k.lexemes lexicon (n + 1) = (k.read lexicon).1 :: (k.read lexicon).2.lexemes lexicon n := by
  induction n with
  | zero => exact ⟨rfl, rfl⟩
  | succ n ih =>
    obtain ⟨hsame, hlexemes⟩ := ih
    have hnext : ∀ j : Tokenizer, ∀ i, (j.session (fun _ => lexicon) (i + 1)).tokenizer =
        ((j.session (fun _ => lexicon) i).tokenizer.read lexicon).2 := fun _ _ => rfl
    have hlast : ∀ j : Tokenizer, ∀ i, j.lexemes lexicon (i + 1) =
        j.lexemes lexicon i ++ [((j.session (fun _ => lexicon) i).tokenizer.read lexicon).1] := by
      intro j i
      simp [lexemes, session, Session.next]
    constructor
    · rw [hnext, hsame, hnext]
    · rw [hlast, hlexemes, hsame, hlast, List.cons_append]

theorem Gives.lexemes_eq {lexicon : Lexicon} {k k' : Tokenizer} {ls : List Lexeme} (h : Gives lexicon k ls k') :
    k.lexemes lexicon ls.length = ls := by
  induction h with
  | nil => rfl
  | cons h _ ih => rw [List.length_cons, (session_succ _ _ _).2, h.read_eq, ih]

theorem Gives.pass {lexicon : Lexicon} {k k₁ k' : Tokenizer} {ls : List Lexeme} (h : Passes lexicon k k₁)
    (hrest : Gives lexicon k₁ ls k') (hne : ls ≠ []) : Gives lexicon k ls k' := by
  cases hrest with
  | nil => exact absurd rfl hne
  | cons htakes hmore => exact .cons (.pass h htakes) hmore

/-! ## Reading the line -/

variable {k k' k₁ : Tokenizer} {lexeme : Lexeme} {turns : Nat}

/-- The line of these tokens is going to be read, perhaps after a blank which is skipped. -/
inductive StandsBefore (k : Tokenizer) (ts : List Token) : Prop where
  | line (hlines : k.lines = []) (hrest : k.rest = lineOf ts ++ [endLineChar]) (hstate : ts = [] → k.state ≠ .newLine)
  | blank (hlines : k.lines = []) (hrest : k.rest = ' ' :: (lineOf ts ++ [endLineChar])) (hstate : k.state = .skipBlanks)
      (hts : ts ≠ [])

/-- What is found on the line is found after a blank, too. -/
theorem StandsBefore.takes {P : Tokenizer → Prop} (h : k.StandsBefore ts)
    (hline : ∀ k₁ : Tokenizer, k₁.lines = [] → k₁.rest = lineOf ts ++ [endLineChar] → (ts = [] → k₁.state ≠ .newLine) →
      ∃ k', Finds Lexicon.initial k₁ lexeme k' ∧ P k') :
    ∃ turns k', Takes Lexicon.initial turns k lexeme k' ∧ P k' := by
  cases h with
  | line hlines hrest hstate =>
    obtain ⟨k', hfinds, hk'⟩ := hline k hlines hrest hstate
    exact ⟨1, k', .found hfinds, hk'⟩
  | blank hlines hrest hstate hts =>
    have hchar : takeChar Lexicon.initial.catcode k.rest = some (' ', lineOf ts ++ [endLineChar]) := by
      rw [hrest]
      exact takeChar_cons (by decide) _
    have hpass : Passes Lexicon.initial k (k.advance (lineOf ts ++ [endLineChar]) k.state) :=
      .blank hchar (by decide) (by simp [hstate])
    obtain ⟨k', hfinds, hk'⟩ := hline (k.advance (lineOf ts ++ [endLineChar]) k.state) hlines rfl fun hnil => absurd hnil hts
    exact ⟨2, k', .pass hpass (.found hfinds), hk'⟩

theorem StandsBefore.takes_letter {c : Char} (hc : IsInitialLetter c) (h : k.StandsBefore (.letter c :: ts)) :
    ∃ turns k', Takes Lexicon.initial turns k (.token (.letter c)) k' ∧ k'.StandsBefore ts := by
  refine h.takes fun k₁ hlines hrest _ => ?_
  have hchar : takeChar Lexicon.initial.catcode k₁.rest = some (c, lineOf ts ++ [endLineChar]) := by
    rw [hrest, lineOf, Token.toList_format_letter]
    simp only [Token.needsSeparator_letter, Bool.false_eq_true, false_and, if_false, List.cons_append]
    exact takeChar_cons (by simp [hc]) _
  have hfinds := Finds.character (t := k₁) hchar (by simp [hc])
  rw [hc] at hfinds
  exact ⟨_, hfinds, .line hlines rfl fun _ => by simp [advance]⟩

theorem finds_word {c : Char} {cs name rest : List Char} (hrest : k.rest = '\\' :: c :: cs) (hc : IsInitialLetter c)
    (hname : takeLetters Lexicon.initial.catcode (c :: cs) = (name, rest)) :
    Finds Lexicon.initial k (.token (.controlSequence (String.ofList name) "")) (k.advance rest .skipBlanks) := by
  have hchar : takeChar Lexicon.initial.catcode k.rest = some ('\\', c :: cs) := by
    rw [hrest]
    exact takeChar_cons (by decide) _
  exact .controlSequence hchar (by decide) (takeName_eq hc hname)

section Words

variable {t : Token} {c : Char} {cs : List Char} (ht : t = .controlSequence (String.ofList (c :: cs)) "")
  (hletters : ∀ d ∈ c :: cs, IsInitialLetter d)

include ht hletters

/-- A control sequence without a blank after it is read with the letters which come right after it. -/
theorem StandsBefore.takes_joined (hruns : t.RunsOn) (hts : ∀ t ∈ ts, t.IsWordOrLetter) (h : k.StandsBefore (t :: ts)) :
    ∃ turns k', Takes Lexicon.initial turns k (.token (.controlSequence
        (t.name ++ String.join ((ts.takeWhile Token.isLetter).map Token.name)) t.space)) k' ∧
      k'.StandsBefore (ts.dropWhile Token.isLetter) := by
  have hformat : t.format.toList = '\\' :: c :: cs := by rw [ht, Token.toList_format_word]
  have hname : t.name = String.ofList (c :: cs) := by rw [ht, Token.controlSequence]
  have hspace : t.space = "" := by rw [ht, Token.controlSequence]
  have hno : ¬ t.needsSeparator = true := fun hyes => (Token.needsSeparator_iff (by rw [ht]; rfl)).1 hyes hruns
  refine h.takes fun k₁ hlines hrest _ => ?_
  have hline : k₁.rest = '\\' :: c :: (cs ++ (lineOf ts ++ [endLineChar])) := by simp [hrest, lineOf, hformat, hno]
  have hfinds := finds_word hline (hletters c List.mem_cons_self) (takeLetters_lineOf hts hletters)
  rw [String.ofList_append, String.ofList_toList, ← hname, ← hspace] at hfinds
  exact ⟨_, hfinds, .line hlines rfl fun _ => by simp [advance]⟩

/-- A control sequence with a blank after it is read with its own name. -/
theorem StandsBefore.takes_separated (hruns : ¬ t.RunsOn) (h : k.StandsBefore (t :: ts)) :
    ∃ turns k', Takes Lexicon.initial turns k (.token t) k' ∧ k'.StandsBefore ts := by
  have hformat : t.format.toList = '\\' :: c :: cs := by rw [ht, Token.toList_format_word]
  have hyes : t.needsSeparator = true := (Token.needsSeparator_iff (by rw [ht]; rfl)).2 hruns
  have hc : IsInitialLetter c := hletters c List.mem_cons_self
  refine h.takes fun k₁ hlines hrest _ => ?_
  rw [ht]
  cases ts with
  | nil =>
    have hline : k₁.rest = '\\' :: c :: (cs ++ [endLineChar]) := by simp [hrest, lineOf, hformat]
    have hname := takeLetters_append hletters (c := endLineChar) (by decide) (by decide) []
    exact ⟨_, finds_word hline hc hname, .line hlines rfl fun _ => by simp [advance]⟩
  | cons u us =>
    have hline : k₁.rest = '\\' :: c :: (cs ++ ' ' :: (lineOf (u :: us) ++ [endLineChar])) := by
      simp [hrest, lineOf_cons_cons, hformat, hyes]
    have hname := takeLetters_append hletters (c := ' ') (by decide) (by decide) (lineOf (u :: us) ++ [endLineChar])
    exact ⟨_, finds_word hline hc hname, .blank hlines rfl rfl (List.cons_ne_nil u us)⟩

end Words

/-- At the end of the line there is a space after a letter, and none after a control sequence. -/
theorem StandsBefore.takes_end (h : k.StandsBefore []) : ∃ spaces, (spaces = [] ∨ spaces = [Token.blank]) ∧
    ∃ k', Gives Lexicon.initial k (spaces.map Lexeme.token ++ [.finished]) k' := by
  cases h with
  | blank hlines hrest hstate hts => exact absurd rfl hts
  | line hlines hrest hstate =>
    have hchar : takeChar Lexicon.initial.catcode k.rest = some (endLineChar, []) := by rw [hrest]; rfl
    have hend : Takes Lexicon.initial 1 (k.advance [] k.state) .finished (k.advance [] k.state) := .finished rfl hlines
    cases hcase : k.state with
    | newLine => exact absurd hcase (hstate rfl)
    | middle =>
      have hspace : Takes Lexicon.initial 1 k (.token .blank) (k.advance [] k.state) :=
        .found (.lineEnd hchar (by decide) hcase)
      exact ⟨[.blank], .inr rfl, _, .cons hspace (.cons hend .nil)⟩
    | skipBlanks =>
      exact ⟨[], .inl rfl, _, .cons (.pass (.lineEnd hchar (by decide) hcase) hend) .nil⟩

/-- **The line is read**: the tokens which are joined, and perhaps a space at its end. -/
theorem StandsBefore.gives (hts : ∀ t ∈ ts, t.IsWordOrLetter) (h : k.StandsBefore ts) :
    ∃ spaces, (spaces = [] ∨ spaces = [Token.blank]) ∧
      ∃ k', Gives Lexicon.initial k ((joined ts ++ spaces).map Lexeme.token ++ [.finished]) k' := by
  fun_induction joined ts generalizing k with
  | case1 => exact h.takes_end
  | case2 t ts hruns ih =>
    obtain ⟨ht, hothers⟩ := List.forall_mem_cons.1 hts
    cases ht with
    | letter => cases hruns.1
    | word hname hletters =>
      obtain ⟨c, cs, rfl⟩ := List.exists_cons_of_ne_nil hname
      obtain ⟨turns, k', htakes, hk'⟩ := h.takes_joined rfl hletters hruns hothers
      have hrest : ∀ t ∈ ts.dropWhile Token.isLetter, t.IsWordOrLetter :=
        fun t ht => hothers t ((List.dropWhile_suffix _).subset ht)
      obtain ⟨spaces, hspaces, k₂, hgives⟩ := ih hrest hk'
      exact ⟨spaces, hspaces, k₂, .cons htakes hgives⟩
  | case3 t ts hruns ih =>
    obtain ⟨ht, hothers⟩ := List.forall_mem_cons.1 hts
    have hstep : ∃ turns k', Takes Lexicon.initial turns k (.token t) k' ∧ k'.StandsBefore ts := by
      cases ht with
      | letter hc => exact h.takes_letter hc
      | word hname hletters =>
        obtain ⟨c, cs, rfl⟩ := List.exists_cons_of_ne_nil hname
        exact h.takes_separated rfl hletters hruns
    obtain ⟨turns, k', htakes, hk'⟩ := hstep
    obtain ⟨spaces, hspaces, k₂, hgives⟩ := ih hothers hk'
    exact ⟨spaces, hspaces, k₂, .cons htakes hgives⟩

end Tokenizer

/-! ## The main statement -/

open Tokenizer in
theorem formatList_gives {ts : List Token} (hts : ∀ t ∈ ts, t.IsWordOrLetter) (source : String) :
    ∃ spaces, (spaces = [] ∨ spaces = [Token.blank]) ∧
      ∃ k', Gives .initial (ofText (Token.formatList ts) source) ((joined ts ++ spaces).map Lexeme.token ++ [.finished]) k' := by
  cases ts with
  | nil =>
    rw [joined]
    exact ⟨[], .inl rfl, _, .cons (.finished rfl rfl) .nil⟩
  | cons t ts =>
    have hfeed : '\n' ∉ (Token.formatList (t :: ts)).toList := by
      intro hmem
      rcases mem_formatList hts hmem with h | h | h
      · exact absurd h (by decide)
      · exact absurd h (by decide)
      · exact absurd rfl (h.ne (d := '\n') (by decide))
    have hne : (Token.formatList (t :: ts)).toList ≠ [] := by
      obtain ⟨d, ds, hformat, -⟩ := (hts t List.mem_cons_self).written
      simp [toList_formatList_cons, hformat]
    have hlines : (ofText (Token.formatList (t :: ts)) source).lines = [lineOf (t :: ts) ++ [endLineChar]] := by
      rw [ofText, splitLines_last hfeed hne, List.map_singleton, normalizeLine_formatList hts]
    let k := (ofText (Token.formatList (t :: ts)) source).startLine (lineOf (t :: ts) ++ [endLineChar]) []
    have hstart : Passes .initial (ofText (Token.formatList (t :: ts)) source) k := .startLine rfl hlines
    have hk : k.StandsBefore (t :: ts) := .line rfl rfl fun hnil => absurd hnil (List.cons_ne_nil t ts)
    obtain ⟨spaces, hspaces, k', hgives⟩ := hk.gives hts
    exact ⟨spaces, hspaces, k', hgives.pass hstart (by simp)⟩

open Tokenizer in
/-- **Words and letters are read as they are written, unless a letter comes right after a control sequence of a single letter
beyond ASCII**, which takes it into its name. In all cases the joined list is read, and perhaps a space for the end of the
line. -/
theorem written_tokens_read (ts : List Token) (hts : ∀ t ∈ ts, t.IsWordOrLetter) (source : String) :
    (∃ spaces, (spaces = [] ∨ spaces = [Token.blank]) ∧
      (ofText (Token.formatList ts) source).lexemes .initial ((joined ts ++ spaces).length + 1) =
        (joined ts ++ spaces).map Lexeme.token ++ [.finished]) ∧
    (joined ts = ts ↔ ts.IsChain fun t u => ¬ (t.RunsOn ∧ u.isLetter = true)) := by
  refine ⟨?_, joined_eq_self_iff ts⟩
  obtain ⟨spaces, hspaces, k', hgives⟩ := formatList_gives hts source
  refine ⟨spaces, hspaces, ?_⟩
  have hread := hgives.lexemes_eq
  rwa [List.length_append, List.length_map, List.length_singleton] at hread

open Tokenizer in
/-- A control word after a control sequence of a single letter, and letters after control words, are kept apart. -/
theorem written_tokens_read_sample :
    let ts : List Token := [.controlSequence "é" "", .controlSequence "a" "", .letter 'b', .controlSequence "été" "", .letter 'é']
    (∀ t ∈ ts, t.IsWordOrLetter) ∧ ∃ spaces, (spaces = [] ∨ spaces = [Token.blank]) ∧
      (ofText "\\é\\a b\\été é" "text").lexemes .initial ((ts ++ spaces).length + 1) =
        (ts ++ spaces).map Lexeme.token ++ [.finished] := by
  intro ts
  have hts : ∀ t ∈ ts, t.IsWordOrLetter := by
    obtain ⟨he, ha, hb, ht⟩ : IsInitialLetter 'é' ∧ IsInitialLetter 'a' ∧ IsInitialLetter 'b' ∧ IsInitialLetter 't' := by
      decide
    have hword (c : Char) (name : List Char) (h : ∀ d ∈ c :: name, IsInitialLetter d) :
        Token.IsWordOrLetter (.controlSequence (String.ofList (c :: name)) "") := .word (List.cons_ne_nil c name) h
    have hlong : ∀ c ∈ ['é', 't', 'é'], IsInitialLetter c :=
      List.forall_mem_cons.2 ⟨he, List.forall_mem_cons.2 ⟨ht, List.forall_mem_singleton.2 he⟩⟩
    simp only [ts, List.forall_mem_cons]
    exact ⟨hword 'é' [] (List.forall_mem_singleton.2 he), hword 'a' [] (List.forall_mem_singleton.2 ha), .letter hb,
      hword 'é' ['t', 'é'] hlong, .letter he, by simp⟩
  obtain ⟨hread, hjoined⟩ := written_tokens_read ts hts "text"
  have hself : joined ts = ts := hjoined.2 (by decide)
  have hwritten : Token.formatList ts = "\\é\\a b\\été é" := by decide
  rw [hself, hwritten] at hread
  exact ⟨hts, hread⟩

open Tokenizer in
/-- The letter after the control sequence is read into its name. -/
theorem letter_read_into_name :
    let ts : List Token := [.controlSequence "é" "", .letter 'a']
    Token.formatList ts = "\\éa" ∧ (ofText (Token.formatList ts) "text").lexemes .initial 2 =
      [.token (.controlSequence "éa" ""), .finished] := by
  decide +kernel

end Compositor
