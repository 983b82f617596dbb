import Compositor.Font.Basic
import Compositor.Font.Name
import Compositor.Diagnostic.Fault

/-!
# Where fonts come from

A registry loads fonts from files and keeps what it has loaded, under the normalised names of the fonts. A font
which cannot be found is replaced by the built-in face, next to a fault. A schematic source has every font but
those whose names say otherwise.
-/

namespace Compositor

open Compositor.Measure

/-- The answer to a request for a font. A fault may come with a replacement. -/
structure FontAnswer where
  font : Option Font
  fault : Option Fault := none
deriving DecidableEq, Repr

/-- The font files of a system, and what can be read from them. -/
structure FontShelf where
  /-- The path of the file with a name. An empty path is none. -/
  locate : String → Option String
  /-- The name of the face in the file at a path, if it holds one. -/
  faceName : String → Option String
  /-- The glyphs of the face in the file at a path, if it can be set at the size. -/
  glyphs : String → Dimen → Option GlyphTable
  /-- The glyphs of the built-in face at a size. -/
  builtInGlyphs : Dimen → GlyphTable
deriving Inhabited

namespace FontShelf

/-- The shelf with one font file, which holds the built-in face. -/
def single (path faceName : String) (glyphs : Dimen → GlyphTable) : FontShelf where
  locate name := if name == path then some path else none
  faceName file := if file == path then some faceName else none
  glyphs file size := if file == path then some (glyphs size) else none
  builtInGlyphs := glyphs

/-- The file names under which a font may be found. -/
def candidates (name : String) : List String :=
  if (Text.Path.extension name.toList).isEmpty then [name, name ++ ".ttf", name ++ ".otf"] else [name]

def face? (shelf : FontShelf) (file : String) : Option Typeface :=
  match shelf.locate file with
  | none => none
  | some path => if path == "" || (shelf.faceName path).isNone then none else some (.file path)

/-- The face in the first of the files in which a font may be found. -/
def load (shelf : FontShelf) (name : String) : Option Typeface := (candidates name).findSome? shelf.face?

def builtIn (shelf : FontShelf) (size : Dimen) : Face := ⟨.builtIn, shelf.builtInGlyphs size⟩

/-- A face at a size, if it can be set at that size. -/
def set? (shelf : FontShelf) : Typeface → Dimen → Option Face
  | .builtIn, size => some (shelf.builtIn size)
  | .file path, size => (shelf.glyphs path size).map (⟨.file path, ·⟩)

end FontShelf

/-- The fonts loaded so far. -/
structure Registry where
  shelf : FontShelf
  /-- The faces which have been loaded, by normalised name. -/
  faces : List (String × Typeface) := []
  /-- The fonts at a size, by normalised name and size. -/
  typecases : List (String × Font) := []
deriving Inhabited

namespace Registry

/-- The size of a font which is asked for without a size. -/
def defaultSize : Dimen := 655360

/-- The size a face is set at. Sizes below 1pt or above 2048pt are not served. -/
def servedSize (size : Dimen) : Dimen :=
  if size < point || size > 2048 * point then defaultSize else size

def isNullName (name : String) : Bool := name == "" || name == "nullfont"

/-- The key of a face: the normalised name of the font. -/
def faceKey (name : String) : String :=
  let (style, weight) := FontName.guess name
  FontName.normalize name style.number weight

def keyAt (face : String) (size : Dimen) : String := face ++ "-" ++ formatScaled size

def face? (r : Registry) (key : String) : Option Typeface := r.faces.lookup key

def typecase? (r : Registry) (key : String) : Option Font := r.typecases.lookup key

def keepFace (r : Registry) (key : String) (face : Typeface) : Registry :=
  { r with faces := (key, face) :: r.faces }

/-- The registry with a font at a size under a key. -/
def keepTypecase (r : Registry) (key : String) (f : Font) : Registry :=
  { r with typecases := (key, f) :: r.typecases }

/-- The name under which the replacement for missing fonts is kept. -/
def fallbackKey : String := "fallback"

def fallbackName : String := "Go Sans"

def missingFault (name : String) : Fault :=
  .coded FaultCode.missing.number ("font not found: " ++ name) (.plain ("font missing: " ++ name))

def fallback (r : Registry) (name : String) (size : Dimen) : FontAnswer × Registry :=
  let key := keyAt fallbackKey size
  match r.typecase? key with
  | some f => (⟨some f, some (missingFault name)⟩, r)
  | none =>
    let f := Font.typecase key fallbackName (servedSize size) (r.shelf.builtIn (servedSize size))
    (⟨some f, some (missingFault name)⟩, (r.keepFace fallbackKey .builtIn).keepTypecase key f)

/-- The font with a name at a size, from the face under the normalised name, or from a file. -/
def derive (r : Registry) (name : String) (size : Dimen) : FontAnswer × Registry :=
  let face := faceKey name
  let key := keyAt face size
  match r.face? face <|> r.shelf.load name with
  | none => r.fallback name size
  | some typeface =>
    let r := r.keepFace face typeface
    match r.shelf.set? typeface (servedSize size) with
    | some set =>
      let f := Font.typecase key name (servedSize size) set
      (⟨some f, none⟩, r.keepTypecase key f)
    | none => r.fallback name size

def request (r : Registry) (name : String) (size : Dimen) : FontAnswer × Registry :=
  if isNullName name then (⟨some .null, none⟩, r)
  else
    match r.typecase? (keyAt (faceKey name) size) with
    | some f => (⟨some f, none⟩, r)
    | none => r.derive name size

end Registry

/-- A source of fonts. -/
inductive FontSource where
  /-- Fonts with measures by rule. Names which start with `missing` or `nil` are not served. -/
  | schematic
  /-- Fonts from files. -/
  | registry (r : Registry)
  /-- A source of one's own, which sees all that it has been asked for, the latest first. -/
  | custom (asked : List (String × Dimen)) (answer : List (String × Dimen) → FontAnswer)
deriving Inhabited

namespace FontSource

def schematicFont (name : String) (size : Dimen) : FontAnswer :=
  if name.startsWith "missing" then
    ⟨some .null,
      some (.coded FaultCode.missing.number ("font not found: " ++ name) (.plain "no such font"))⟩
  else if name.startsWith "nil" then ⟨none, some (.plain "no font at all")⟩
  else ⟨some (.schematic name size), none⟩

def request (source : FontSource) (name : String) (size : Dimen) : FontAnswer × FontSource :=
  match source with
  | schematic => (schematicFont name size, schematic)
  | registry r =>
    let (answer, r) := r.request name size
    (answer, registry r)
  | custom asked answer =>
    let asked := (name, size) :: asked
    (answer asked, custom asked answer)

end FontSource

end Compositor
