import Compositor.Font.Basic
import Compositor.Language

/-!
# Typesetting attributes

The attributes which travel with every character: font, colour, writing direction and language.
-/

namespace Compositor

/-- A writing direction. -/
inductive Direction where
  | leftToRight
  | rightToLeft
  | mixed
  | neutral
deriving DecidableEq, Repr, Inhabited

def Direction.name : Direction → String
  | .leftToRight => "LTR"
  | .rightToLeft => "RTL"
  | .mixed => "mixed"
  | .neutral => "neutral"

def Direction.ofName? (name : String) : Option Direction :=
  [leftToRight, rightToLeft, mixed, neutral].find? fun d => d.name == name

/-- A colour with components of 16 bits. -/
structure Color where
  red : Nat
  green : Nat
  blue : Nat
  alpha : Nat
deriving DecidableEq, Repr

def Color.gray (lightness : Nat) : Color := ⟨lightness, lightness, lightness, 0xffff⟩

/-- The typesetting attributes. -/
structure Style where
  font : Font := .null
  color : Color := .gray 0
  direction : Direction := .leftToRight
  language : Language := .english
deriving DecidableEq, Repr

instance : Inhabited Style := ⟨{}⟩

end Compositor
