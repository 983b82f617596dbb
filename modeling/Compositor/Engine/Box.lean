import Compositor.Engine.Group
import Compositor.Engine.Quantity

/-!
# Boxes

A box is made from the material of a group, or taken from a register. Taking the contents of a register makes
it void, unless they are only copied.
-/

namespace Compositor

open Compositor.Measure

/-- Where a box comes from. -/
inductive BoxSource where
  | register (keeps : Bool)
  | group (kind : BoxKind)
deriving DecidableEq, Repr

def BoxSource.ofMeaning? : Option Meaning → Option BoxSource
  | some (.primitive _ _ (.command (.boxRegister keeps))) => some (register keeps)
  | some (.primitive _ _ (.command (.makeBox kind))) => some (group kind)
  | _ => none

/-- The mode in which the contents of a box are gathered. -/
def contentsMode : BoxKind → Mode
  | .vertical => .internalVertical
  | .horizontal => .restrictedHorizontal

namespace Engine

def storeBox (e : Engine) (name : String) (box : Option Box) (globally : Bool) : Engine :=
  { e with context := e.context.set (.box name) box globally, trace := .boxStored name box globally :: e.trace }

/-- The engine which has delivered the contents of a box register. Without them the register is void, unless it
has been void before. -/
def deliverBox (e : Engine) (name : String) (keeps : Bool) : Engine :=
  let box := e.context.box name
  { e with
    context :=
      if !keeps && box.isSome then e.context.set (.box name) (none : Option Box) false else e.context
    trace := .boxTaken name box keeps :: e.trace }

end Engine

section

variable (m : Machine)

/-- The contents of the box register whose number follows. -/
def takeBox (keeps : Bool) : Action (Option Box) := do
  let name ← registerName m
  let box := (← context).box name
  modify (·.deliverBox name keeps)
  return box

def closeList : Action (List Node) := do
  let (result, typesetter) := (← get).typesetter.closeList
  modifyTypesetter fun _ => typesetter
  match result with
  | .ok nodes =>
    record (.listClosed none)
    return nodes
  | .error fault =>
    record (.listClosed (some fault))
    complain .internal [.text fault.message]

/-- Makes a box from a group, possibly of a given width. -/
def makeBox (kind : BoxKind) : Action Box := do
  let width ← if ← keyword m "to" then some <$> dimension m else pure none
  openingBrace m
  openGroup .simple
  modifyTypesetter (·.openList (contentsMode kind))
  executeGroup m
  let box := Box.pack kind (← closeList)
  return match width with
    | some width => { box with width }
    | none => box

def produceBox : BoxSource → Action (Option Box)
  | .register keeps => takeBox m keeps
  | .group kind => some <$> makeBox m kind

def assignBox (globally : Bool) : Action Unit := do
  let name ← registerName m
  optionalEquals m
  match ← nonBlank m with
  | none => return
  | some t =>
    match BoxSource.ofMeaning? (← meaningOf t) with
    | none =>
      pushBack t
      complain .missingToken ["box"]
    | some source =>
      let box ← produceBox m source
      modify (·.storeBox name box globally)

end

end Compositor
