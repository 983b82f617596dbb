import Compositor.Meaning.Primitive

/-!
# Meanings

What a control sequence or an active character stands for. Two meanings are the same to the user if they are
equal definitions or equal characters; other meanings are told apart by the number they got when they were
made, so that a copy is the same as its model and a second one of its kind is not.
-/

namespace Compositor

/-- The meaning of a control sequence or active character. Meanings have the name under which they were
made. -/
inductive Meaning where
  | definition (d : Definition)
  /-- The meaning of a character token. -/
  | character (name : String) (t : Token)
  /-- The meaning of a copy of an undefined control sequence. -/
  | undefined (name : String)
  | primitive (id : Nat) (name : String) (p : Primitive)
  /-- A name without any action. -/
  | bare (id : Nat) (name : String)
deriving DecidableEq, Repr

def Token.describeCharacter (t : Token) : String :=
  (match t.cat with
    | .leftBrace => "begin-group character "
    | .rightBrace => "end-group character "
    | .mathShift => "math shift character "
    | .tabMark => "alignment tab character "
    | .parameter => "macro parameter character "
    | .supMark => "superscript character "
    | .subMark => "subscript character "
    | .space => "blank space "
    | .letter => "the letter "
    | _ => "the character ") ++ t.name

namespace Meaning

/-- The number of the `relax` which input cannot redefine. -/
def frozenId : Nat := 0

/-- The `relax` which input cannot redefine. -/
def frozenRelax : Meaning := primitive frozenId "relax" (.command .relax)

def name : Meaning → String
  | definition d => d.name
  | character name _ => name
  | undefined name => name
  | primitive _ name _ => name
  | bare _ name => name

/-- A meaning as it is shown to the user. -/
def format : Meaning → String
  | definition d => d.format
  | character _ t => t.describeCharacter
  | undefined _ => "undefined"
  | primitive _ name (.command (.register kind (some fixed))) =>
    "\\" ++ if fixed == name then name else kind.name ++ fixed
  | primitive _ _ (.command (.selectFont fontName)) => "select font " ++ fontName
  | primitive _ name _ => "\\" ++ name
  | bare _ name => "\\" ++ name

/-- Two meanings are the same to the user. -/
def same : Meaning → Meaning → Bool
  | definition a, definition b => a.same b
  | character _ a, character _ b => a.cat == b.cat && a.name == b.name
  | a, b => a == b

/-- A meaning in words, where there may be none. -/
def describe : Option Meaning → String
  | none => "undefined"
  | some m => m.format

end Meaning

end Compositor
