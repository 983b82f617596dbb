import Compositor.Material.Node
import Compositor.Meaning.Definition
import Compositor.Scope.Interaction
import Compositor.Style

/-!
# Primitives

The actions which control sequences can stand for. Primitives which are replaced by other tokens come first:
conditionals and expansions. All others are executed; assignments among them accept modifiers.
-/

namespace Compositor

/-- The kinds of registers. -/
inductive RegisterKind where
  | count
  | dimen
  | glue
  | toks
deriving DecidableEq, Repr

def RegisterKind.name : RegisterKind → String
  | count => "count"
  | dimen => "dimen"
  | glue => "skip"
  | toks => "toks"

/-- The tables of character codes besides the categories. -/
inductive CodeTable where
  | lower
  | upper
  | spaceFactor
  | math
  | delimiter
deriving DecidableEq, Repr

namespace CodeTable

def all : List CodeTable := [lower, upper, spaceFactor, math, delimiter]

def name : CodeTable → String
  | lower => "lccode"
  | upper => "uccode"
  | spaceFactor => "sfcode"
  | math => "mathcode"
  | delimiter => "delcode"

end CodeTable

/-- A table of character codes which can be assigned. -/
inductive CharTable where
  | categories
  | codes (table : CodeTable)
deriving DecidableEq, Repr

def CharTable.least : CharTable → Int64
  | codes .delimiter => -1
  | _ => 0

def CharTable.greatest : CharTable → Int64
  | categories => 15
  | codes .lower => 0x10ffff
  | codes .upper => 0x10ffff
  | codes .spaceFactor => 32767
  | codes .math => 0x8000
  | codes .delimiter => 0xffffff

/-- The marks which end a branch of a conditional. -/
inductive EndMark where
  | orMark
  | elseMark
  | fiMark
deriving DecidableEq, Repr

def EndMark.format : EndMark → String
  | orMark => "\\or"
  | elseMark => "\\else"
  | fiMark => "\\fi"

/-- The tests for the mode of the typesetter. -/
inductive ModeTest where
  | vertical
  | horizontal
  | math
  | inner
deriving DecidableEq, Repr

/-- The conditions of conditionals with two branches. -/
inductive Condition where
  | constant (value : Bool)
  | number
  | dimension
  | odd
  | sameMeaning
  | sameCharacter
  | sameCategory
  | mode (test : ModeTest)
deriving DecidableEq, Repr

/-- The primitives which are replaced by a list of tokens. -/
inductive Expansion where
  | expandAfter
  | the
  | number
  | romanNumeral
  | string
  | meaning
  | controlSequenceName
deriving DecidableEq, Repr

/-- The operations of register arithmetic. -/
inductive ArithmeticOp where
  | advance
  | multiply
  | divide
deriving DecidableEq, Repr

/-- The primitives which are executed. -/
inductive Command where
  /-- Defines a control sequence, always globally or with the replacement text expanded. -/
  | define (globally expanded : Bool)
  | assignMeaning
  /-- A register of a kind: a fixed one, or one whose number follows. -/
  | register (kind : RegisterKind) (fixed : Option String)
  | defineRegister (kind : RegisterKind)
  | magnification
  | arithmetic (op : ArithmeticOp)
  /-- The contents of a box register, which keeps it or not. -/
  | boxRegister (keeps : Bool)
  | setBox
  | makeBox (kind : BoxKind)
  | charCode (table : CharTable)
  | changeCase (table : CodeTable)
  | endName
  | beginGroup
  | endGroup
  | afterGroup
  | relax
  | stop
  | par
  | kern
  /-- Glue for a horizontal or a vertical list. -/
  | skip (vertical : Bool)
  | penalty
  | char
  | loadFont
  /-- Selects the font which was loaded under a file name. -/
  | selectFont (fontName : String)
  | nullFont
  | beginDirection (direction : Direction)
  | endDirection (direction : Direction)
  | setInteraction (mode : Interaction)
  | message
  | setSpace
  | ignoreSpaces
  | input
deriving DecidableEq, Repr

/-- The modifiers which a command accepts; `none` if it is not an assignment. -/
def Command.accepts : Command → Option Modifiers
  | define _ _ => some ⟨true, true, true, true⟩
  | assignMeaning | register _ _ | defineRegister _ | magnification | arithmetic _ | setBox | charCode _
  | loadFont | selectFont _ | nullFont | setSpace => some { isGlobal := true }
  | _ => none

/-- A primitive. -/
inductive Primitive where
  /-- A conditional with two branches. -/
  | condition (c : Condition)
  /-- A conditional with numbered branches. -/
  | switch
  /-- The end of a branch. -/
  | endMark (mark : EndMark)
  /-- Negates the condition which follows. -/
  | unless
  | expansion (e : Expansion)
  /-- A word in front of an assignment. -/
  | modifier (m : Modifiers)
  | command (c : Command)
deriving DecidableEq, Repr

end Compositor
