import Compositor.Font.Face

/-!
# Fonts

A font is a face at a size. The typesetter sees nothing of it but the measures of its glyphs and the space
between words.
-/

namespace Compositor

open Compositor.Measure

/-- The measures of a glyph. -/
structure GlyphMetrics where
  width : Dimen := 0
  height : Dimen := 0
  depth : Dimen := 0
  overhang : Dimen := 0
deriving DecidableEq, Repr, Inhabited

inductive Font where
  /-- The font which is current if no font has been selected. It has no glyphs. -/
  | null
  /-- A font with measures by rule, which needs no face. -/
  | schematic (name : String) (size : Dimen)
  /-- A face at a size, as kept by a registry under a key. -/
  | typecase (key : String) (name : String) (size : Dimen) (face : Face)
deriving DecidableEq, Repr, Inhabited

namespace Font

def name : Font → String
  | null => "nullfont"
  | schematic name _ => name
  | typecase _ name _ _ => name

def size : Font → Dimen
  | null => 0
  | schematic _ size => size
  | typecase _ _ size _ => size

def face? : Font → Option Face
  | typecase _ _ _ face => some face
  | _ => none

def isNull : Font → Bool
  | null => true
  | _ => false

/-- The font has a glyph of its own for a code point. -/
def hasGlyph : Font → Nat → Bool
  | null, _ => false
  | schematic _ _, code => code < 0x2000
  | typecase _ _ _ face, code => face.hasGlyph code

/-- The measures of the glyph for a code point. -/
def metrics : Font → Nat → GlyphMetrics
  | null, _ => {}
  | schematic _ size, code =>
    { width := size * Int64.ofNat (code % 7 + 3) / 10
      height := size * Int64.ofNat (code % 5 + 4) / 10
      depth := size * Int64.ofNat (code % 3) / 10 }
  | typecase _ _ _ face, code =>
    { width := face.width code
      height := face.height code
      depth := face.depth code
      overhang := face.overhang code }

def interword : Font → Glue
  | null => .zero
  | schematic _ size => .finite (size / 3) (size / 6) (size / 9)
  | typecase _ _ size face => face.interword size

end Font

end Compositor
