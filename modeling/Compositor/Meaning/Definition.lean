import Compositor.Token.Basic

/-!
# Definitions

A definition gives a control sequence a replacement text with parameters. The parameter text is made of the
tokens in front of the first parameter and the delimiter after each parameter; a parameter with an empty
delimiter takes a single token or a group.
-/

namespace Compositor

/-- An item of a replacement text: a token, or the place of the argument with a number from one. -/
inductive BodyItem where
  | token (t : Token)
  | argument (n : Nat)
deriving DecidableEq, Repr

/-- The flags set by the words which may stand in front of an assignment. -/
structure Modifiers where
  isGlobal : Bool := false
  isLong : Bool := false
  isOuter : Bool := false
  isProtected : Bool := false
deriving DecidableEq, Repr, Inhabited

namespace Modifiers

def none : Modifiers := {}

def union (a b : Modifiers) : Modifiers :=
  ⟨a.isGlobal || b.isGlobal, a.isLong || b.isLong, a.isOuter || b.isOuter, a.isProtected || b.isProtected⟩

/-- Every flag of the first set is in the second one. -/
def subset (a b : Modifiers) : Bool :=
  (!a.isGlobal || b.isGlobal) && (!a.isLong || b.isLong) && (!a.isOuter || b.isOuter) &&
    (!a.isProtected || b.isProtected)

/-- The set with the lowest four bits of a number. -/
def ofBits (n : Nat) : Modifiers := ⟨n.testBit 0, n.testBit 1, n.testBit 2, n.testBit 3⟩

def format (m : Modifiers) : String :=
  String.intercalate " " ((if m.isGlobal then ["\\global"] else []) ++ (if m.isLong then ["\\long"] else []) ++
    (if m.isOuter then ["\\outer"] else []) ++ (if m.isProtected then ["\\protected"] else []))

end Modifiers

/-- The definition of a control sequence. -/
structure Definition where
  /-- The name of the control sequence which was defined. -/
  name : String
  /-- The tokens in front of the first parameter. -/
  opening : List Token := []
  /-- The delimiters after each of the parameters. -/
  delimiters : List (List Token) := []
  body : List BodyItem := []
  isLong : Bool := false
  isOuter : Bool := false
  isProtected : Bool := false
deriving DecidableEq, Repr

namespace Definition

def arity (d : Definition) : Nat := d.delimiters.length

/-- The parameters from number `n` on with their delimiters, as they are shown. -/
def formatParameters : Nat → List (List Token) → String
  | _, [] => ""
  | n, delimiter :: rest =>
    "#" ++ toString n ++ Token.formatList delimiter ++ formatParameters (n + 1) rest

/-- An item of the replacement text as it is shown. Parameter characters are shown twice. -/
def formatItem : BodyItem → String
  | .argument n => "#" ++ toString n
  | .token t => Token.formatList (if t.cat = .parameter then [t, t] else [t])

def format (d : Definition) : String :=
  (if d.isProtected then "\\protected" else "") ++ (if d.isLong then "\\long" else "") ++
    (if d.isOuter then "\\outer" else "") ++ "macro:" ++ Token.formatList d.opening ++
    formatParameters 1 d.delimiters ++ "->" ++ String.join (d.body.map formatItem)

/-- The replacement text with the arguments in place. -/
def substitute (d : Definition) (arguments : List (List Token)) : List Token :=
  d.body.flatMap fun
    | .token t => [t]
    | .argument n => (arguments[n - 1]?).getD []

/-- Two definitions are the same, whatever the names they were given to. -/
def same (a b : Definition) : Bool := a == { b with name := a.name }

end Definition

end Compositor
