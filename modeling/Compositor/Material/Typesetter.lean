import Compositor.Material.Node
import Compositor.Style
import Compositor.Text.Blank

/-!
# The typesetter

The typesetter gathers nodes in lists. The main list is vertical and is always there; on top of it are the
lists which are still open: paragraphs, formulas and the contents of boxes. A character in a vertical list
starts a paragraph, which `par` ends. Paragraphs are not broken into lines.

Every request from outside leaves an event, so that a run can be followed.
-/

namespace Compositor

open Compositor.Measure

/-- The mode of a list under construction. -/
inductive Mode where
  | vertical
  | internalVertical
  | horizontal
  | restrictedHorizontal
  | math
  | displayMath
  /-- A mode with no rules of its own. -/
  | unnamed
deriving DecidableEq, Repr, Inhabited

namespace Mode

def name : Mode → String
  | vertical => "vertical mode"
  | internalVertical => "internal vertical mode"
  | horizontal => "horizontal mode"
  | restrictedHorizontal => "restricted horizontal mode"
  | math => "math mode"
  | displayMath => "display math mode"
  | unnamed => "no mode"

def all : List Mode := [vertical, internalVertical, horizontal, restrictedHorizontal, math, displayMath]

def ofNumber (n : Int) : Mode := if n < 0 then unnamed else (all[n.toNat]?).getD unnamed

/-- Lists in which nodes are stacked. -/
def isVertical : Mode → Bool
  | vertical | internalVertical => true
  | _ => false

/-- Lists in which nodes are set side by side. -/
def isHorizontal : Mode → Bool
  | horizontal | restrictedHorizontal => true
  | _ => false

def isMath : Mode → Bool
  | math | displayMath => true
  | _ => false

/-- The inner modes: lists within boxes, and formulas within a text. -/
def isInner : Mode → Bool
  | internalVertical | restrictedHorizontal | math => true
  | _ => false

end Mode

/-- A list under construction. -/
structure Nest where
  mode : Mode
  nodes : List Node := []
deriving Repr, Inhabited

/-- A request which the typesetter has received. -/
inductive Event where
  | letter (c : Char)
  | space
  | glue (g : Glue)
  | kern (d : Dimen)
  | penalty (cost : Int64)
  | box
  | par
  | math
  | displayMath
deriving DecidableEq, Repr

def Event.format : Event → String
  | letter c => "letter " ++ c.toString
  | space => "space"
  | glue g => "glue " ++ g.format
  | kern d => "kern " ++ Dimen.format d
  | penalty cost => "penalty " ++ Text.decimal cost
  | box => "box"
  | par => "par"
  | math => "math"
  | displayMath => "displaymath"

/-- Why a request to the typesetter fails. -/
inductive TypesettingFault where
  /-- A displayed formula is ended like one in the text, or the other way round. -/
  | displayMathEnd
  /-- The main list cannot be closed. -/
  | noListToClose
deriving DecidableEq, Repr

def TypesettingFault.message : TypesettingFault → String
  | .displayMathEnd => "display math should end with $$"
  | .noListToClose => "no list to close"

/-- The lists under construction: the main list, which is in vertical mode, and the open ones above it, the
innermost first. -/
structure Typesetter where
  main : List Node := []
  nests : List Nest := []
  events : Array Event := #[]
deriving Repr, Inhabited

namespace Typesetter

def mode (t : Typesetter) : Mode :=
  match t.nests with
  | [] => .vertical
  | nest :: _ => nest.mode

def current (t : Typesetter) : List Node :=
  match t.nests with
  | [] => t.main
  | nest :: _ => nest.nodes

/-- All nodes, from the main list to the innermost one. -/
def allNodes (t : Typesetter) : List Node :=
  t.main ++ (t.nests.reverse.map Nest.nodes).flatten

def modifyCurrent (t : Typesetter) (f : List Node → List Node) : Typesetter :=
  match t.nests with
  | [] => { t with main := f t.main }
  | nest :: rest => { t with nests := { nest with nodes := f nest.nodes } :: rest }

/-- The typesetter with nodes at the end of its innermost list. -/
def append (t : Typesetter) (nodes : List Node) : Typesetter := t.modifyCurrent (· ++ nodes)

def record (t : Typesetter) (e : Event) : Typesetter := { t with events := t.events.push e }

def openList (t : Typesetter) (mode : Mode) : Typesetter := { t with nests := ⟨mode, []⟩ :: t.nests }

/-- A vertical list gets a paragraph on top. -/
def startParagraph (t : Typesetter) : Typesetter :=
  if t.mode.isVertical then t.openList .horizontal else t

/-- A list without the glue at its end. -/
def dropLastGlue (nodes : List Node) : List Node :=
  match nodes.getLast? with
  | some n => if n.isGlue then nodes.dropLast else nodes
  | none => nodes

/-- Ends a paragraph: its nodes, without the glue at their end, go to the enclosing list, followed by a
mark. Other lists are left alone. -/
def endParagraph (t : Typesetter) : Typesetter :=
  match t.nests with
  | [] => t
  | nest :: rest =>
    if nest.mode = .horizontal then
      { t with nests := rest }.append (dropLastGlue nest.nodes ++ [Node.par])
    else t

/-- The glyph of a code point, set in the font of a style. -/
def add (t : Typesetter) (style : Style) (code : Nat) : Typesetter :=
  ((t.record (.letter (charOfCode code))).startParagraph).append [.glyphOf style.font code]

/-- The space between words of a font, its flexibility changed by a space factor. -/
def spaceOf (font : Font) (factor : Int64) : Glue :=
  let g := font.interword
  if factor > 0 ∧ factor ≠ 1000 then
    { g with
      stretch := { g.stretch with value := g.stretch.value * factor / 1000 }
      shrink := { g.shrink with value := g.shrink.value * 1000 / factor } }
  else g

/-- Space between words. Vertical lists ignore it. -/
def addSpace (t : Typesetter) (style : Style) (factor : Int64) : Typesetter :=
  let t := t.record .space
  if t.mode.isVertical then t else t.append [.glue (spaceOf style.font factor) true]

def addGlue (t : Typesetter) (g : Glue) : Typesetter := (t.record (.glue g)).append [.glue g false]

def addKern (t : Typesetter) (d : Dimen) : Typesetter := (t.record (.kern d)).append [.kern d]

def addPenalty (t : Typesetter) (cost : Int64) : Typesetter :=
  (t.record (.penalty cost)).append [.penalty cost]

/-- A box at the end of the innermost list. A void box adds nothing. -/
def addBox (t : Typesetter) (b : Option Box) : Typesetter :=
  let t := t.record .box
  match b with
  | some b => t.append [b.toNode]
  | none => t

/-- The request to end the paragraph. -/
def par (t : Typesetter) : Typesetter := (t.record .par).endParagraph

/-- Starts or ends a formula, displayed or not. A formula of the other sort cannot be ended. -/
def toggle (t : Typesetter) (display : Bool) : Except TypesettingFault Typesetter :=
  let inside := if display then Mode.displayMath else Mode.math
  match t.nests with
  | nest :: rest =>
    if nest.mode = inside then
      .ok ({ t with nests := rest }.append (nest.nodes ++ [Node.math false display]))
    else if nest.mode.isMath then .error .displayMathEnd
    else .ok ((t.startParagraph.append [.math true display]).openList inside)
  | [] => .ok ((t.startParagraph.append [.math true display]).openList inside)

/-- The request to start or end a formula, and why it failed. -/
def toggleMath (t : Typesetter) (display : Bool) : Option TypesettingFault × Typesetter :=
  let t := t.record (if display then .displayMath else .math)
  match t.toggle display with
  | .ok t => (none, t)
  | .error fault => (some fault, t)

/-- The characters which were set so far, without blanks. -/
def letters (t : Typesetter) : List String :=
  t.events.toList.filterMap fun
    | .letter c => if Text.isBlank c then none else some c.toString
    | _ => none

def lastNode (t : Typesetter) : Option Node := t.current.getLast?

def removeLastNode (t : Typesetter) : Typesetter := t.modifyCurrent List.dropLast

/-- Closes the innermost list and gives its nodes. A paragraph is ended first. -/
def closeList (t : Typesetter) : Except TypesettingFault (List Node) × Typesetter :=
  let t := t.endParagraph
  match t.nests with
  | [] => (.error .noListToClose, t)
  | nest :: rest => (.ok nest.nodes, { t with nests := rest })

/-- The main list after each open list has been appended to the enclosing one, the innermost first. The nodes gathered so
far are `inner`. -/
def gather (main inner : List Node) : List Nest → List Node
  | [] => main ++ inner
  | nest :: rest => gather main (nest.nodes ++ inner) rest

/-- Ends the paragraph and appends all open lists to the main one. -/
def finish (t : Typesetter) : Typesetter :=
  let t := t.endParagraph
  { t with main := gather t.main [] t.nests, nests := [] }

end Typesetter

end Compositor
