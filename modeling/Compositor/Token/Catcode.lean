/-!
# Category codes

Every character has a category which says how the tokenizer and the engine treat it.
-/

namespace Compositor

/-- The category of a character. `beyond n` stands for the code `16 + n`, which has no meaning. -/
inductive Catcode where
  | escape
  | leftBrace
  | rightBrace
  | mathShift
  | tabMark
  | endLine
  | parameter
  | supMark
  | subMark
  | ignored
  | space
  | letter
  | other
  | active
  | comment
  | invalid
  | beyond (n : Nat)
deriving DecidableEq, Repr, Inhabited

namespace Catcode

def code : Catcode → Nat
  | escape => 0
  | leftBrace => 1
  | rightBrace => 2
  | mathShift => 3
  | tabMark => 4
  | endLine => 5
  | parameter => 6
  | supMark => 7
  | subMark => 8
  | ignored => 9
  | space => 10
  | letter => 11
  | other => 12
  | active => 13
  | comment => 14
  | invalid => 15
  | beyond n => 16 + n

def ofCode : Nat → Catcode
  | 0 => escape
  | 1 => leftBrace
  | 2 => rightBrace
  | 3 => mathShift
  | 4 => tabMark
  | 5 => endLine
  | 6 => parameter
  | 7 => supMark
  | 8 => subMark
  | 9 => ignored
  | 10 => space
  | 11 => letter
  | 12 => other
  | 13 => active
  | 14 => comment
  | 15 => invalid
  | n + 16 => beyond n

def name : Catcode → String
  | escape => "escape"
  | leftBrace => "begin-group"
  | rightBrace => "end-group"
  | mathShift => "math shift"
  | tabMark => "alignment tab"
  | endLine => "end of line"
  | parameter => "macro parameter"
  | supMark => "superscript"
  | subMark => "subscript"
  | ignored => "ignored"
  | space => "blank space"
  | letter => "letter"
  | other => "other character"
  | active => "active character"
  | comment => "comment"
  | invalid => "invalid character"
  | beyond n => "catcode(" ++ toString (16 + n) ++ ")"

/-- The categories with a meaning. -/
def isValid : Catcode → Bool
  | beyond _ => false
  | _ => true

/-- Characters of this category become tokens, or the category is that of control sequences. -/
def isForTokens : Catcode → Bool
  | endLine | ignored | comment | invalid | beyond _ => false
  | _ => true

end Catcode

end Compositor
