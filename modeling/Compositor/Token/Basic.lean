import Compositor.Token.Catcode
import Compositor.Token.Locator
import Compositor.Text.Quoted

/-!
# Tokens

A token is a character with its category, or a control sequence. Control sequences and active characters get
their meaning from the scopes of a run; they belong to a name space, all other tokens do not.

* `Token.format` writes a token as the input shows it, `formatList` separates control words from what follows.
* `otherTokens` gives the characters of a printed quantity.
-/

namespace Compositor

/-- A lexical token. A control sequence has the category *escape* and its name without the escape character,
every other token has its character as name. -/
structure Token where
  cat : Catcode
  name : String
  /-- The name space, empty for the default one. -/
  space : String := ""
deriving DecidableEq, Repr

/-- The character which stands for a missing or invalid one. -/
def replacementChar : Char := Char.ofNat 0xfffd

/-- The character with a code point, or the replacement character for a surrogate. -/
def charOfCode (code : Nat) : Char :=
  if h : code.isValidChar then Char.ofNatAux code h else replacementChar

/-- The character with a code point which is kept in a word. Only the lower half of the word counts. -/
def charOfWord (code : Int64) : Char :=
  if code.toInt32 < 0 then replacementChar else charOfCode code.toInt32.toInt.toNat

namespace Token

/-- The token which stands for no token at all: a control sequence without a name. -/
def none : Token := ⟨.escape, "", ""⟩

instance : Inhabited Token := ⟨none⟩

def controlSequence (name space : String) : Token := ⟨.escape, name, space⟩

/-- The character token of a category. There is no character of category *escape*; *other* takes its
place. -/
def character (cat : Catcode) (c : Char) : Token :=
  ⟨if cat = .escape then .other else cat, c.toString, ""⟩

def activeChar (c : Char) (space : String) : Token := ⟨.active, c.toString, space⟩

def letter (c : Char) : Token := character .letter c

def other (c : Char) : Token := character .other c

def blank : Token := character .space ' '

def leftBrace : Token := character .leftBrace '\x7b'

def rightBrace : Token := character .rightBrace '\x7d'

/-- The first character of the name, the replacement character if there is none. -/
def char (t : Token) : Char := t.name.toList.head?.getD replacementChar

def isControlSequence (t : Token) : Bool := t.cat == .escape

/-- The token gets its meaning from the scopes of a run. -/
def isCode (t : Token) : Bool := t.cat == .escape || t.cat == .active

def isCharacter (t : Token) : Bool := t.cat != .escape

def isControlSymbol (t : Token) : Bool := t.isControlSequence && t.name.length == 1

/-- The token in another name space. Only tokens with a meaning have one. -/
def inSpace (t : Token) (space : String) : Token := if t.isCode then { t with space } else t

/-- The character `c` of category *other*. -/
def isOther (t : Token) (c : Char) : Bool := t.cat == .other && t.char == c

/-- The number of groups which are open after a token, with `level` of them open before it. There is none if the
token closes a group too many. -/
def nest (level : Nat) (t : Token) : Option Nat :=
  match t.cat, level with
  | .leftBrace, level => some (level + 1)
  | .rightBrace, 0 => Option.none
  | .rightBrace, level + 1 => some level
  | _, level => some level

/-- The token as it is written in the input. -/
def format (t : Token) : String := if t.isControlSequence then "\\" ++ t.name else t.name

/-- The token with its category, or the control sequence with its name space. -/
def describe (t : Token) : String :=
  if t.isControlSequence then
    if t.space == "" then "\\" ++ t.name else "\\" ++ t.name ++ " [ns=" ++ t.space ++ "]"
  else t.cat.name ++ " " ++ Text.quoted t.name

/-- The token needs a separating blank when it is written: it is a control sequence, but no single character
other than a letter. -/
def needsSeparator (t : Token) : Bool :=
  t.isControlSequence &&
    (!t.isControlSymbol || ('a' ≤ t.char && t.char ≤ 'z') || ('A' ≤ t.char && t.char ≤ 'Z'))

/-- Tokens as they are written in the input, with blanks after control words. -/
def formatList (ts : List Token) : String :=
  String.join (ts.map fun t => if t.needsSeparator then t.format ++ " " else t.format)

/-- The tokens of a printed text: blanks stay blanks, all else is of category *other*. -/
def otherTokens (s : String) : List Token :=
  s.toList.map fun c => if c == ' ' then blank else other c

end Token

end Compositor
