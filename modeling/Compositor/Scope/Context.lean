import Compositor.Scope.Bindings
import Compositor.Scope.Calendar
import Compositor.Scope.Conditional
import Compositor.Token.Tokenizer

/-!
# The context of a run

The context holds everything that a run can assign: a stack of groups with bindings, the stacks of open
conditionals and writing directions, and the magnification. A value is looked up from the innermost group
outwards. A local assignment binds its key in the innermost group; a global one in the outermost group and in
every group which binds the key already. Style, interaction mode and name space are copied when a group is
opened.

Watches ask for notices about changes. A notice is added to the list of the context when the change happens.
-/

namespace Compositor

open Compositor.Measure

/-- How a group was opened. -/
inductive GroupKind where
  /-- The bottom of the stack, which is never closed. -/
  | outer
  /-- A group between braces. -/
  | simple
  /-- A group between control sequences. -/
  | semiSimple
deriving DecidableEq, Repr, Inhabited

namespace GroupKind

def all : List GroupKind := [outer, simple, semiSimple]

def name : GroupKind → String
  | outer => "bottom level"
  | simple => "simple group"
  | semiSimple => "semi simple group"

end GroupKind

/-- What is done when a group is closed. -/
inductive AfterGroup where
  /-- A token is read. -/
  | token (t : Token)
  /-- A notice with a label is given. -/
  | notice (label : String)
deriving DecidableEq, Repr

/-- A layer of the stack of groups. -/
structure Group where
  kind : GroupKind := .outer
  /-- Where the group was opened. -/
  place : Locator := {}
  bindings : Bindings := .empty
  style : Style := {}
  interaction : Interaction := .errorStop
  /-- The name space of new control sequences. -/
  space : String := ""
  /-- What is done at the end of the group, in this order. -/
  after : List AfterGroup := []

instance : Inhabited Group := ⟨{}⟩

def Group.bind (g : Group) (k : Key) (v : k.Value) : Group :=
  { g with bindings := g.bindings.insert k v }

/-- A change to be told about. -/
inductive Watch where
  | interaction
  | count (name : String)
  | meaning (t : Token)
deriving DecidableEq, Repr

/-- A change which has happened. -/
inductive Notice where
  | interaction (mode : Interaction)
  | count (name : String) (value : Int64)
  | meaning (t : Token) (m : Option Meaning)
  | afterGroup (label : String) (depth : Nat)
deriving DecidableEq, Repr

/-- The largest magnification allowed unless set otherwise. -/
def defaultMaxMagnification : Int64 := 32768

/-- The state of a run which can be assigned. -/
structure Context where
  id : String := ""
  outermost : Group := {}
  /-- The groups above the outermost one, the innermost first. -/
  inner : List Group := []
  /-- The open conditionals, the innermost first. -/
  conditionals : List Conditional := []
  /-- The directions of open runs of text, the innermost first. -/
  directions : List Direction := []
  magnification : Int64 := 1000
  magnificationLocked : Bool := false
  maxMagnification : Int64 := defaultMaxMagnification
  watches : List Watch := []
  /-- The notices given so far, the latest first. -/
  notices : List Notice := []
  /-- Terminal output is suppressed, as the last notice about the mode says. -/
  muted : Bool := false

instance : Inhabited Context := ⟨{}⟩

/-- Why a group cannot be closed. -/
inductive GroupFault where
  | noGroup
  | mismatch
deriving DecidableEq, Repr

def GroupFault.message : GroupFault → String
  | noGroup => "too many closing braces"
  | mismatch => "extra \x7d, or forgotten \\endgroup"

/-- Why a magnification cannot be set. -/
inductive MagnificationFault where
  | illegal
  | incompatible
deriving DecidableEq, Repr

def MagnificationFault.message : MagnificationFault → String
  | illegal => "illegal magnification"
  | incompatible => "incompatible magnification"

namespace Context

/-! ## Groups -/

def current (c : Context) : Group := c.inner.headD c.outermost

/-- The number of groups above the outermost one. -/
def depth (c : Context) : Nat := c.inner.length

def groups (c : Context) : List Group := c.inner ++ [c.outermost]

def modifyCurrent (c : Context) (f : Group → Group) : Context :=
  match c.inner with
  | [] => { c with outermost := f c.outermost }
  | g :: rest => { c with inner := f g :: rest }

def modifyAll (c : Context) (f : Group → Group) : Context :=
  { c with outermost := f c.outermost, inner := c.inner.map f }

/-- Opens a group. There is only one outer group, so another one becomes a simple group. -/
def openGroup (c : Context) (kind : GroupKind) (place : Locator) : Context :=
  let g := c.current
  { c with
    inner := { kind := if kind = .outer then .simple else kind, place, style := g.style,
               interaction := g.interaction, space := g.space } :: c.inner }

/-- Defers a token to the end of the innermost group. It is dropped in the outermost one. -/
def afterGroupToken (c : Context) (t : Token) : Context :=
  match c.inner with
  | [] => c
  | g :: rest => { c with inner := { g with after := g.after ++ [.token t] } :: rest }

/-- Asks for a notice at the end of the innermost group. -/
def afterGroupNotice (c : Context) (label : String) : Context :=
  c.modifyCurrent fun g => { g with after := g.after ++ [.notice label] }

/-! ## Notices -/

def watch (c : Context) (w : Watch) : Context := { c with watches := c.watches ++ [w] }

/-- Gives a notice once for every watch which asks for it. -/
def notify (c : Context) (w : Watch) (n : Notice) : Context :=
  { c with notices := List.replicate (c.watches.count w) n ++ c.notices }

def notifyInteraction (c : Context) (mode : Interaction) : Context :=
  { c.notify .interaction (.interaction mode) with muted := mode = .batch }

def deferredTokens (actions : List AfterGroup) : List Token :=
  actions.filterMap fun
    | .token t => some t
    | .notice _ => none

def deferredNotices (actions : List AfterGroup) (depth : Nat) : List Notice :=
  actions.filterMap fun
    | .token _ => none
    | .notice label => some (.afterGroup label depth)

/-- Closes the innermost group, which has to be of a given kind, and gives the tokens deferred to its end. -/
def closeGroup (c : Context) (kind : GroupKind) : Except GroupFault (List Token × Context) :=
  match c.inner with
  | [] => .error .noGroup
  | g :: rest =>
    if g.kind ≠ kind then .error .mismatch
    else
      let c := { c with inner := rest }
      let c := if g.interaction ≠ c.current.interaction then c.notifyInteraction c.current.interaction else c
      .ok (deferredTokens g.after,
        { c with notices := (deferredNotices g.after c.depth).reverse ++ c.notices })

/-! ## Values -/

/-- The value of a key in the innermost of some groups which binds it. -/
def lookupIn (k : Key) : List Group → Option k.Value
  | [] => none
  | g :: rest => match g.bindings.get? k with
    | some v => some v
    | none => lookupIn k rest

def lookup (c : Context) (k : Key) : Option k.Value := lookupIn k c.groups

def get (c : Context) (k : Key) : k.Value := (c.lookup k).getD k.initial

def set (c : Context) (k : Key) (v : k.Value) (globally : Bool) : Context :=
  if globally then
    { c with
      outermost := c.outermost.bind k v
      inner := c.inner.map fun g => if g.bindings.contains k then g.bind k v else g }
  else c.modifyCurrent (·.bind k v)

def count (c : Context) (name : String) : Int64 := c.get (.count name)

def setCount (c : Context) (name : String) (v : Int64) (globally : Bool) : Context :=
  (c.set (.count name) v globally).notify (.count name) (.count name v)

def dimen (c : Context) (name : String) : Dimen := c.get (.dimen name)

def glue (c : Context) (name : String) : Glue := c.get (.glue name)

def toks (c : Context) (name : String) : List Token := c.get (.toks name)

def box (c : Context) (name : String) : Option Box := c.get (.box name)

/-- The font under a name, the null font if there is none. -/
def font (c : Context) (name : String) : Font := Option.getD (c.get (.font name)) .null

def catcode (c : Context) (code : Nat) : Catcode := c.get (.catcode code)

def charcode (c : Context) (table : CodeTable) (code : Nat) : Int64 := c.get (.charcode table code)

/-- The meaning of a token. A token without a meaning in its own name space has the one of the default name
space. -/
def meaning (c : Context) (t : Token) : Option Meaning :=
  match c.get (.meaning t) with
  | some m => some m
  | none => if t.space ≠ "" then c.get (.meaning (t.inSpace "")) else none

/-- Assigns a meaning to a token, or makes it undefined. -/
def setMeaning (c : Context) (t : Token) (m : Option Meaning) (globally : Bool) : Context :=
  (c.set (.meaning t) m globally).notify (.meaning t) (.meaning t m)

/-! ## Style, interaction and name space -/

def style (c : Context) : Style := c.current.style

def setStyle (c : Context) (style : Style) (globally : Bool) : Context :=
  if globally then c.modifyAll fun g => { g with style } else c.modifyCurrent fun g => { g with style }

def interaction (c : Context) : Interaction := c.current.interaction

/-- Changes the interaction mode, and tells about it if it is a new one. -/
def setInteraction (c : Context) (mode : Interaction) (globally : Bool) : Context :=
  let changed := if globally then c.modifyAll fun g => { g with interaction := mode }
    else c.modifyCurrent fun g => { g with interaction := mode }
  if c.interaction ≠ mode then changed.notifyInteraction mode else changed

def space (c : Context) : String := c.current.space

/-- Changes the name space of new control sequences. -/
def setSpace (c : Context) (space : String) (globally : Bool) : Context :=
  if globally then c.modifyAll fun g => { g with space } else c.modifyCurrent fun g => { g with space }

/-! ## Conditionals and directions -/

def pushConditional (c : Context) (cond : Conditional) : Context :=
  { c with conditionals := cond :: c.conditionals }

def popConditional (c : Context) : Context := { c with conditionals := c.conditionals.tail }

def dropConditional (c : Context) (id : Nat) : Context :=
  { c with conditionals := Compositor.dropConditional id c.conditionals }

/-- The direction of the innermost run of text, or of the style if no run is open. -/
def direction (c : Context) : Direction := c.directions.headD c.style.direction

/-- Starts a run of text in a direction. -/
def pushDirection (c : Context) (d : Direction) : Context := { c with directions := d :: c.directions }

/-- Ends the innermost run of text. -/
def popDirection (c : Context) : Context := { c with directions := c.directions.tail }

/-! ## Magnification and calendar -/

/-- Sets the upper bound of the magnification, which is at least one. -/
def setMaxMagnification (c : Context) (max : Int64) : Context :=
  if max ≥ 1 then { c with maxMagnification := max } else c

/-- Sets the magnification, and locks it if asked to. A locked one cannot be changed. -/
def setMagnification (c : Context) (v : Int64) (lock : Bool) : Except MagnificationFault Context :=
  if v < 1 ∨ v > c.maxMagnification then .error .illegal
  else if c.magnificationLocked ∧ v ≠ c.magnification then .error .incompatible
  else .ok { c with magnification := v, magnificationLocked := c.magnificationLocked || lock }

def setCalendar (c : Context) (m : Moment) : Context :=
  let m := m.shown
  (((c.setCount "time" (Int64.ofInt m.time) true).setCount "day" (Int64.ofInt m.day) true).setCount
    "month" (Int64.ofInt m.month) true).setCount "year" (Int64.ofInt m.year) true

def new (id : String) (m : Moment) : Context :=
  (({ id } : Context).setCount "mag" 1000 true).setCalendar m

/-- What a tokenizer has to know about the context. -/
def lexicon (c : Context) : Lexicon := ⟨fun ch => c.catcode ch.toNat, c.space⟩

end Context

end Compositor
