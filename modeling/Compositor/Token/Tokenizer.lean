import Compositor.Token.Basic
import Compositor.Text.Blank

/-!
# The tokenizer

A tokenizer turns a text into tokens, line by line. Blanks at the end of a line are dropped and every line
gets an end-of-line character, so that line ends look alike whatever the text uses. Categories are asked for
when a character is read, as they may change between two tokens.

* `Tokenizer.ofText` starts a text, `Tokenizer.read` delivers the next token.
* `takeChar` reads one character of a line, with the notation which writes control characters as two
  superscript marks and a printable character. Its rest is shorter than the line (`takeChar_rest_lt`), so
  reading a line ends.
-/

namespace Compositor

/-- What a tokenizer has to know about the scopes of a run. -/
structure Lexicon where
  /-- The category of a character. -/
  catcode : Char → Catcode
  /-- The name space of new control sequences. -/
  space : String

/-- The state of a tokenizer within a line. -/
inductive LineState where
  /-- Nothing but blanks has been read from the line. -/
  | newLine
  /-- The last token was a character. -/
  | middle
  /-- Blanks are skipped. -/
  | skipBlanks
deriving DecidableEq, Repr, Inhabited

/-- A text which is being read. -/
structure Tokenizer where
  /-- The name of the source. -/
  source : String
  /-- What is left of the current line. -/
  rest : List Char := []
  /-- The lines after the current one. -/
  lines : List (List Char) := []
  /-- The number of the current line. -/
  lineNumber : Nat := 0
  /-- How many characters of the current line have been read. -/
  position : Nat := 0
  state : LineState := .newLine
deriving Repr, Inhabited

/-- What reading a token results in. -/
inductive Lexeme where
  | token (t : Token)
  /-- A character of category *invalid* at a position. The text may be read on. -/
  | invalid (c : Char) (place : Locator)
  /-- The text is at its end. -/
  | finished
deriving DecidableEq, Repr

/-- The wording of the fault of an invalid character at a place. -/
def Lexeme.invalidMessage (c : Char) (place : Locator) : String :=
  place.format ++ ": text line contains an invalid character " ++ Text.codeLabel c.toNat

namespace Tokenizer

def endLineChar : Char := '\r'

/-- The pieces of a text between line feeds. A line feed at the end of the text starts no piece. -/
def splitLines : List Char → List (List Char)
  | [] => []
  | '\n' :: cs => [] :: splitLines cs
  | c :: cs =>
    match splitLines cs with
    | [] => [[c]]
    | piece :: pieces => (c :: piece) :: pieces

/-- A line as it is read: without blanks and line ends at its end, and with the end-of-line character. -/
def normalizeLine (line : List Char) : List Char :=
  Text.dropTail (· == ' ') (Text.dropTail (fun c => c == '\r' || c == '\n') line) ++ [endLineChar]

def ofText (text source : String) : Tokenizer :=
  { source, lines := (splitLines text.toList).map normalizeLine }

/-- The position of the next character. -/
def locator (t : Tokenizer) : Locator :=
  ⟨t.source, t.lineNumber, t.position + 1⟩

/-- The value of a lower case hexadecimal digit. -/
def hexValue? (c : Char) : Option Nat :=
  if '0' ≤ c && c ≤ '9' then some (c.toNat - 0x30)
  else if 'a' ≤ c && c ≤ 'f' then some (c.toNat - 0x61 + 10)
  else Option.none

/-- The character which the ASCII character `c` stands for after two superscript marks. -/
def flip (c : Char) : Char :=
  if c.toNat < 64 then Char.ofNat (c.toNat + 64) else Char.ofNat (c.toNat - 64)

/-- The character which two equal superscript marks and the characters after them denote, and the rest. -/
def notated? : List Char → Option (Char × List Char)
  | [] => Option.none
  | [a] => if a.toNat < 128 then some (flip a, []) else Option.none
  | a :: b :: rest =>
    match hexValue? a, hexValue? b with
    | some high, some low => some (Char.ofNat (16 * high + low), rest)
    | _, _ => if a.toNat < 128 then some (flip a, b :: rest) else Option.none

/-- The next character of a line and what follows it. -/
def takeChar (catcode : Char → Catcode) : List Char → Option (Char × List Char)
  | [] => Option.none
  | c :: rest =>
    match rest with
    | d :: more =>
      if catcode c = .supMark ∧ d = c then
        match notated? more with
        | some found => some found
        | Option.none => some (c, rest)
      else some (c, rest)
    | [] => some (c, rest)

theorem notated?_rest_lt {cs rest : List Char} {c : Char} (h : notated? cs = some (c, rest)) :
    rest.length < cs.length := by
  match cs with
  | [] => simp [notated?] at h
  | [a] =>
    simp only [notated?] at h
    split at h <;> simp_all
  | a :: b :: more =>
    simp only [notated?] at h
    split at h
    · simp only [Option.some.injEq, Prod.mk.injEq] at h
      rw [← h.2]
      simp only [List.length_cons]
      omega
    · split at h <;> simp_all

theorem takeChar_rest_lt {catcode : Char → Catcode} {cs rest : List Char} {c : Char}
    (h : takeChar catcode cs = some (c, rest)) : rest.length < cs.length := by
  match cs with
  | [] => simp [takeChar] at h
  | [a] =>
    simp [takeChar] at h
    simp [← h.2]
  | a :: b :: more =>
    simp only [takeChar] at h
    split at h
    · split at h
      · rename_i found hfound
        simp only [Option.some.injEq] at h
        subst h
        have := notated?_rest_lt hfound
        simp only [List.length_cons]
        omega
      · simp at h
        simp [← h.2]
    · simp at h
      simp [← h.2]

/-- The letters at the start of a line, and what follows them. -/
def takeLetters (catcode : Char → Catcode) (cs : List Char) : List Char × List Char :=
  match _h : takeChar catcode cs with
  | some (c, rest) =>
    if catcode c = .letter then
      let (letters, rest') := takeLetters catcode rest
      (c :: letters, rest')
    else ([], cs)
  | Option.none => ([], cs)
termination_by cs.length
decreasing_by exact takeChar_rest_lt _h

/-- The name of a control sequence after its escape character, what follows, and the state after it. -/
def takeName (catcode : Char → Catcode) (cs : List Char) : List Char × List Char × LineState :=
  match takeChar catcode cs with
  | Option.none => ([], cs, .middle)
  | some (c, rest) =>
    if catcode c = .letter then
      let (letters, rest) := takeLetters catcode cs
      (letters, rest, .skipBlanks)
    else ([c], rest, if catcode c = .space then .skipBlanks else .middle)

/-- The tokenizer with what is left of the current line after reading some of it. -/
def advance (t : Tokenizer) (rest : List Char) (state : LineState) : Tokenizer :=
  { t with rest, state, position := t.position + (t.rest.length - rest.length) }

/-- The next lexeme of the current line, and the tokenizer after it; without a lexeme the line is at its
end. -/
def readLine (lexicon : Lexicon) (t : Tokenizer) : Option Lexeme × Tokenizer :=
  match _h : takeChar lexicon.catcode t.rest with
  | Option.none => (Option.none, t)
  | some (c, rest) =>
    let cat := lexicon.catcode c
    match cat with
    | .escape =>
      let (name, rest, state) := takeName lexicon.catcode rest
      (some (.token (.controlSequence (String.ofList name) lexicon.space)), t.advance rest state)
    | .active => (some (.token (.activeChar c lexicon.space)), t.advance rest .middle)
    | .endLine =>
      let t' := t.advance [] t.state
      match t.state with
      | .newLine => (some (.token (.controlSequence "par" lexicon.space)), t')
      | .middle => (some (.token .blank), t')
      | .skipBlanks => (Option.none, t')
    | .space =>
      if t.state = .middle then (some (.token .blank), t.advance rest .skipBlanks)
      else readLine lexicon (t.advance rest t.state)
    | .ignored => readLine lexicon (t.advance rest t.state)
    | .comment => (Option.none, t.advance [] t.state)
    | .invalid => (some (.invalid c t.locator), t.advance rest t.state)
    | _ => (some (.token (.character cat c)), t.advance rest .middle)
termination_by t.rest.length
decreasing_by
  all_goals
    simp only [advance]
    exact takeChar_rest_lt _h

/-- The tokenizer at the start of a line, which becomes the current one. -/
def startLine (t : Tokenizer) (line : List Char) (lines : List (List Char)) : Tokenizer :=
  { t with rest := line, lines, lineNumber := t.lineNumber + 1, position := 0, state := .newLine }

/-- The next lexeme, starting new lines from `lines` as needed. -/
def readFrom (lexicon : Lexicon) (t : Tokenizer) : List (List Char) → Lexeme × Tokenizer
  | [] =>
    match t.readLine lexicon with
    | (some lexeme, t) => (lexeme, t)
    | (Option.none, t) => (.finished, t)
  | line :: lines =>
    match t.readLine lexicon with
    | (some lexeme, t) => (lexeme, t)
    | (Option.none, t) => readFrom lexicon (t.startLine line lines) lines

def read (lexicon : Lexicon) (t : Tokenizer) : Lexeme × Tokenizer :=
  t.readFrom lexicon t.lines

end Tokenizer

end Compositor
