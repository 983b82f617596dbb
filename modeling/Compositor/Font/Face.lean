import Compositor.Measure.Glue

/-!
# Faces

What a typesetter may ask of a face: how far the pen advances for a code point, and where the ink of its glyph
is. The measures themselves come from font files.
-/

namespace Compositor

open Compositor.Measure

/-- A face which can be set at any size. -/
inductive Typeface where
  /-- The face which replaces missing fonts. It is always there. -/
  | builtIn
  /-- The face in a font file. -/
  | file (path : String)
deriving DecidableEq, Repr, Inhabited

/-- Where the ink of a glyph ends, and how far the pen advances, in 64ths of a point. The vertical axis points
downwards. -/
structure GlyphBounds where
  advance : Int32
  right : Int32
  top : Int32
  bottom : Int32
deriving DecidableEq, Repr, Inhabited

/-- The answers of a face for a code point. It may have none. -/
structure GlyphShape where
  advance : Option Int32 := none
  bounds : Option GlyphBounds := none
deriving DecidableEq, Repr, Inhabited

/-- The glyphs of a face at a size. Code points which are not listed share one glyph. -/
structure GlyphTable where
  listed : List (Nat × GlyphShape) := []
  unlisted : GlyphShape := {}
deriving DecidableEq, Repr, Inhabited

/-- A face at a size. -/
structure Face where
  typeface : Typeface
  glyphs : GlyphTable
deriving DecidableEq, Repr, Inhabited

namespace Face

def shape (f : Face) (code : Nat) : GlyphShape := (f.glyphs.listed.lookup code).getD f.glyphs.unlisted

def hasGlyph (f : Face) (code : Nat) : Bool := (f.shape code).advance.isSome

/-- A distance in 64ths of a point as a dimension. -/
def ofFixed (x : Int32) : Dimen := x.toInt64 <<< 10

def width (f : Face) (code : Nat) : Dimen :=
  match (f.shape code).advance with
  | some advance => ofFixed advance
  | none => 0

def height (f : Face) (code : Nat) : Dimen :=
  match (f.shape code).bounds with
  | some bounds => max 0 (-ofFixed bounds.top)
  | none => 0

def depth (f : Face) (code : Nat) : Dimen :=
  match (f.shape code).bounds with
  | some bounds => max 0 (ofFixed bounds.bottom)
  | none => 0

/-- How far the ink of a glyph leans over its width. -/
def overhang (f : Face) (code : Nat) : Dimen :=
  match (f.shape code).bounds with
  | some bounds => max 0 (ofFixed (bounds.right - bounds.advance))
  | none => 0

/-- The space between words: a blank, or a third of the size if there is no blank. -/
def interword (f : Face) (size : Dimen) : Glue :=
  let width := f.width 0x20
  let width := if width = 0 then size / 3 else width
  .finite width (width / 2) (width / 3)

end Face

end Compositor
