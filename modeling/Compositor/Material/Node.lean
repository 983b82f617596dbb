import Compositor.Font.Basic
import Compositor.Token.Basic

/-!
# Nodes and boxes

The material of a page is a list of nodes: glyphs, spaces, penalties, marks, and boxes, which hold lists
themselves.

* `pack` puts a list into a box of its natural size.
* `Node.format` writes a node, `textOf` gives the characters of a list.
-/

namespace Compositor

open Compositor.Measure

/-- The kinds of boxes, by the direction in which their nodes are lined up. -/
inductive BoxKind where
  | horizontal
  | vertical
deriving DecidableEq, Repr, Inhabited

/-- A node of a list. -/
inductive Node where
  /-- A character with the measures of its glyph. -/
  | glyph (char : Char) (width height depth : Dimen)
  /-- Flexible space. Space between words is marked. -/
  | glue (g : Glue) (interword : Bool)
  /-- Rigid space at which no line is broken. -/
  | kern (d : Dimen)
  /-- The cost of breaking a line here. -/
  | penalty (cost : Int64)
  /-- The begin or the end of a formula, in the text or displayed. -/
  | math (begins display : Bool)
  /-- A list of nodes in a box. -/
  | box (kind : BoxKind) (width height depth : Dimen) (contents : List Node)
  /-- The end of a paragraph. -/
  | par
deriving Repr, Inhabited

namespace Node

mutual

def decEq (a b : Node) : Decidable (a = b) :=
  match a with
  | glyph c w h d =>
    match b with
    | glyph c' w' h' d' => decidable_of_iff (c = c' ∧ w = w' ∧ h = h' ∧ d = d') (by simp)
    | glue .. | kern .. | penalty .. | math .. | box .. | par => isFalse nofun
  | glue g interword =>
    match b with
    | glue g' interword' => decidable_of_iff (g = g' ∧ interword = interword') (by simp)
    | glyph .. | kern .. | penalty .. | math .. | box .. | par => isFalse nofun
  | kern d =>
    match b with
    | kern d' => decidable_of_iff (d = d') (by simp)
    | glyph .. | glue .. | penalty .. | math .. | box .. | par => isFalse nofun
  | penalty cost =>
    match b with
    | penalty cost' => decidable_of_iff (cost = cost') (by simp)
    | glyph .. | glue .. | kern .. | math .. | box .. | par => isFalse nofun
  | math begins display =>
    match b with
    | math begins' display' => decidable_of_iff (begins = begins' ∧ display = display') (by simp)
    | glyph .. | glue .. | kern .. | penalty .. | box .. | par => isFalse nofun
  | box kind w h d contents =>
    match b with
    | box kind' w' h' d' contents' =>
      have := decEqAll contents contents'
      decidable_of_iff (kind = kind' ∧ w = w' ∧ h = h' ∧ d = d' ∧ contents = contents') (by simp)
    | glyph .. | glue .. | kern .. | penalty .. | math .. | par => isFalse nofun
  | par =>
    match b with
    | par => isTrue rfl
    | glyph .. | glue .. | kern .. | penalty .. | math .. | box .. => isFalse nofun

def decEqAll (ns ms : List Node) : Decidable (ns = ms) :=
  match ns, ms with
  | [], [] => isTrue rfl
  | [], _ :: _ | _ :: _, [] => isFalse nofun
  | n :: ns, m :: ms =>
    have := decEq n m
    have := decEqAll ns ms
    decidable_of_iff (n = m ∧ ns = ms) (by simp)

end

end Node

instance : DecidableEq Node := Node.decEq

/-- A list of nodes with the measures of its box. -/
structure Box where
  kind : BoxKind
  width : Dimen := 0
  height : Dimen := 0
  depth : Dimen := 0
  contents : List Node := []
deriving DecidableEq, Repr, Inhabited

def Box.toNode (b : Box) : Node := .box b.kind b.width b.height b.depth b.contents

namespace Node

def glyphOf (font : Font) (code : Nat) : Node :=
  let m := font.metrics code
  .glyph (charOfCode code) m.width m.height m.depth

def typeName : Node → String
  | glyph .. => "glyph"
  | glue .. => "glue"
  | kern .. => "kern"
  | penalty .. => "penalty"
  | math .. => "math"
  | box .. => "box"
  | par => "par"

/-- The names of the types of nodes, in the order of their numbers. -/
def typeNames : List String := ["glyph", "glue", "kern", "penalty", "math", "box", "par"]

def isGlue : Node → Bool
  | glue .. => true
  | _ => false

def width : Node → Dimen
  | glyph _ w _ _ => w
  | glue g _ => g.natural
  | kern d => d
  | box _ w _ _ _ => w
  | _ => 0

/-- The height of a node. Only glyphs and boxes have one. -/
def height : Node → Dimen
  | glyph _ _ h _ => h
  | box _ _ h _ _ => h
  | _ => 0

/-- The depth of a node. Only glyphs and boxes have one. -/
def depth : Node → Dimen
  | glyph _ _ _ d => d
  | box _ _ _ d _ => d
  | _ => 0

def boxName : BoxKind → String
  | .horizontal => "hbox"
  | .vertical => "vbox"

mutual

def format : Node → String
  | glyph c _ _ _ => "\\glyph " ++ Text.quotedChar c
  | glue g interword => (if interword then "\\space " else "\\glue ") ++ g.format
  | kern d => "\\kern " ++ Dimen.format d
  | penalty cost => "\\penalty " ++ Text.decimal cost
  | math begins display =>
    (if begins then "\\mathon" else "\\mathoff") ++ (if display then "[display]" else "")
  | box kind w h d contents =>
    "\\" ++ boxName kind ++ "(" ++ Dimen.format h ++ "+" ++ Dimen.format d ++ ")x" ++ Dimen.format w ++
      "\x7b" ++ formatAll contents ++ "\x7d"
  | par => "\\par"

/-- The nodes of a list in words, with blanks between them. -/
def formatAll : List Node → String
  | [] => ""
  | [n] => format n
  | n :: ns => format n ++ " " ++ formatAll ns

end

mutual

/-- The characters of a node: glyphs as they are, space between words as a blank. -/
def text : Node → String
  | glyph c _ _ _ => c.toString
  | glue _ true => " "
  | box _ _ _ _ contents => textOf contents
  | _ => ""

def textOf : List Node → String
  | [] => ""
  | n :: ns => text n ++ textOf ns

end

end Node

namespace Box

/-- The box after one more node is lined up in it. -/
def add (b : Box) (n : Node) : Box :=
  match b.kind with
  | .horizontal =>
    { b with
      width := b.width + n.width, height := max b.height n.height, depth := max b.depth n.depth }
  | .vertical =>
    { b with width := max b.width n.width, height := b.height + (b.depth + n.height), depth := n.depth }

/-- A list of nodes in a box of its natural size. -/
def pack (kind : BoxKind) (nodes : List Node) : Box :=
  { nodes.foldl add { kind } with contents := nodes }

def format (b : Box) : String := b.toNode.format

end Box

end Compositor
