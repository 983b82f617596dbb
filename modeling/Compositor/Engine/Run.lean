import Compositor.Declaration.Basic
import Compositor.Engine.Conditional
import Compositor.Engine.Execution
import Compositor.Engine.Expansion

/-!
# Running the engine

`expand` replaces a token, and `machine` ties all procedures together: each of its members calls the others
with less fuel. `run` executes the input to its end.

An engine is made with `Engine.new`. `install` gives it primitives, `runText` and `runFile` let it read.
-/

namespace Compositor

section

variable (m : Machine)

/-- Expands a token by a single level, if it is expandable. Tells if it is. -/
def expand (t : Token) : Action Bool := do
  match ← meaningOf t with
  | some (.definition d) =>
    insertReplacement m do return { tokens := ← d.expand m }
    return true
  | some (.primitive _ name p) =>
    match p with
    | .condition c =>
      startConditional m name c false
      return true
    | .switch =>
      startSwitch m name
      return true
    | .endMark mark =>
      endBranch m t mark
      return true
    | .unless =>
      negateNext m name
      return true
    | .expansion x =>
      insertReplacement m (replacement m x)
      return true
    | .modifier _ | .command _ => return false
  | _ => return false

/-- Reads a token, and expands it if it is expandable. When it is stopped, it leaves the token being
expanded. -/
def readExpandedStep : Proc Token (Turn Unit (Option Token)) := do
  match ← m.next with
  | none => return .done none
  | some t => if ← Proc.giving (expand m t) t then return .again () else return .done (some t)

def readExpanded : Proc Token (Option Token) := iterate (fun _ => readExpandedStep m) m.fuel ()

/-- Expands a token by a single level and puts the result in front of the input. Other tokens are put back. -/
def expandOnce (t : Token) : Action Unit := do
  unless ← expand m t do pushBack t

end

def machine : Nat → Machine
  | 0 => .stuck
  | n + 1 =>
    { fuel := n
      next := fun e => readToken (machine n) e
      nextExpanded := fun e => readExpanded (machine n) e
      number := fun e => number (machine n) e
      expandOnce := fun t e => expandOnce (machine n) t e
      execute := fun least e => executeWhile (machine n) least e }

def Engine.clearInput (e : Engine) : Engine := { e with input := [] }

section

variable (m : Machine)

/-- Executes the input until it ends or the run is stopped. Groups which are still open are reported,
conditionals are dropped, and the material of the run becomes its output. -/
def run : Action Unit := do
  let e ← get
  if !e.hasTypesetter then stopWith { kind := .noTypesetter }
  if !e.hasStreams then stopWith { kind := .noStreams }
  set { e with halted := false, errorCount := 0 }
  discard (Proc.onStop (m.execute 0) Engine.clearInput)
  modify Engine.clearInput
  let depth := (← context).depth
  if depth > 0 then reportHere m .unbalancedEnd [.number depth]
  modifyContext fun c => { c with conditionals := [] }
  modify fun e => { e with typesetter := e.typesetter.finish, hasOutput := true }

def runText (text source : String) : Action Unit := do
  modify (·.pushText text source)
  run m

def runFile (name : String) : Action Unit := do
  if (← get).hasStreams then pushFile name
  run m

end

namespace Engine

/-- A new engine for a context. The settings determine the largest magnification and the interaction mode. -/
def new (context : Context) (settings : Settings) : Engine :=
  let context := context.setMeaning frozenRelaxToken (some .frozenRelax) true
  let context := context.setMaxMagnification settings.maxMagnification
  let context := context.setInteraction settings.interaction true
  { context := { context with muted := settings.interaction = .batch }, settings }

/-- Gives a control sequence a meaning in the outermost group. Its name may be suggested for misspelled
ones. -/
def bind (e : Engine) (name : String) (meaning : Nat → Meaning) : Engine :=
  { e with
    context := e.context.setMeaning (.controlSequence name "") (some (meaning e.serial)) true
    serial := e.serial + 1
    primitiveNames := e.primitiveNames ++ [name] }

/-- Gives a control sequence a meaning which has a name and nothing else. -/
def bindName (e : Engine) (name : String) : Engine := e.bind name fun id => .bare id name

/-- Assigns the value which a declared register starts with. -/
def setDefault (e : Engine) (name : String) : DefaultValue → Engine
  | .count n => e.modifyContext (·.setCount name n true)
  | .dimen d => e.modifyContext (·.set (.dimen name) d true)
  | .glue g => e.modifyContext (·.set (.glue name) g true)

/-- Installs a declared primitive. -/
def installOne (e : Engine) (d : Declaration) : Except Diagnostic Engine := do
  let p ← d.build.mapError Declaration.configurationError
  let e := e.bind d.name fun id => .primitive id d.name p
  match ← d.default?.mapError Declaration.configurationError with
  | some v => return e.setDefault d.name v
  | none => return e

/-- Installs declared primitives, up to the first which cannot be. -/
def install (e : Engine) (ds : List Declaration) : Except Diagnostic Engine := ds.foldlM installOne e

end Engine

end Compositor
