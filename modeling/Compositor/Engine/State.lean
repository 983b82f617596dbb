import Compositor.Diagnostic.Basic
import Compositor.Engine.Answer
import Compositor.Engine.Files
import Compositor.Engine.Input
import Compositor.Font.Registry
import Compositor.Material.Typesetter
import Compositor.Scope.Context
import Compositor.Settings

/-!
# The state of an engine

The engine reads tokens from its input, expands and executes them, and drives the typesetter. Its state
outlives a run: a later run goes on with the context and the material of the earlier ones.

The trace of an engine says which tokens it has executed, what it has asked of the typesetter and which
diagnostics there were, so that a run can be followed. Nothing depends on it.
-/

namespace Compositor

/-- What a handler of one's own may do before it answers. Insertions are read before the rest of the input. -/
inductive Intervention where
  /-- Inserts a text, which may be that of a file, with the name of its source. -/
  | insertText (text source : String)
  | insertTokens (tokens : List { t : Token // t.cat.isForTokens = true })
  | setInteraction (mode : Interaction)
  | say (message : String)
  /-- Has the run end after the current command. -/
  | halt
deriving DecidableEq, Repr

/-- What a handler of one's own answers. -/
structure Reply where
  interventions : List Intervention := []
  /-- The run goes on. -/
  goesOn : Bool := true
deriving DecidableEq, Repr, Inhabited

/-- Who is asked about recoverable errors. -/
inductive Handler where
  /-- Nobody: the run goes on. -/
  | carryOn
  /-- Errors are noted. The one with the given number, counted from one, ends the run. -/
  | recorder (abortAt : Nat)
  /-- Errors are printed. -/
  | printer
  /-- A user is asked how to proceed. -/
  | prompter
  /-- Errors are printed as for a user who cannot be asked. -/
  | noTerminal
  /-- A handler of one's own, which sees the errors of all runs, the latest first, and the context. It neither reads
  tokens nor reports errors: whoever does has to pass on what stops that, and a handler has no way to. Of the
  context it changes the interaction mode only. -/
  | custom (answer : List Diagnostic → Context → Reply)
deriving Inhabited

/-- An entry in the trace of an engine. -/
inductive TraceEntry where
  /-- A token is going to be executed, with these conditionals open. -/
  | dispatched (t : Token) (conditionals : List Conditional := [])
  /-- The innermost group is going to be executed, with this number of groups open. -/
  | groupExecuted (depth : Nat)
  /-- The innermost list of the typesetter was closed, unless there is a fault. -/
  | listClosed (fault : Option TypesettingFault)
  /-- A formula was started or ended, unless there is a fault. -/
  | mathToggled (fault : Option TypesettingFault)
  /-- A diagnostic stops a procedure. -/
  | stopped (d : Diagnostic)
  /-- A diagnostic is reported. -/
  | reported (d : Diagnostic)
  /-- The handler is asked about a diagnostic. -/
  | consulted (d : Diagnostic)
  /-- The user answers. -/
  | answered (a : Answer)
  /-- A handler which notes errors, or one of one's own, decides if the run goes on. -/
  | decided (goesOn : Bool)
  /-- A diagnostic stopped the deletion of tokens, and is forgotten. -/
  | forgiven (d : Diagnostic)
  /-- A word is gathered for the next assignment. -/
  | gathered (word : Modifiers)
  /-- A message is written. -/
  | messaged (s : String)
  /-- A group is opened. -/
  | groupOpened
  /-- The innermost group is closed. -/
  | groupClosed
  /-- The magnification is assigned, and the count register of the same name with it. -/
  | magnified (v : Int64) (globally : Bool)
  /-- A font is loaded. It is selected by the meaning with this number, which knows it by a name. -/
  | fontLoaded (id : Nat) (name : String) (font : Font) (globally : Bool)
  /-- A box register is assigned. -/
  | boxStored (name : String) (box : Option Box) (globally : Bool)
  /-- The contents of a box register are delivered. The register keeps them if they are only copied. -/
  | boxTaken (name : String) (box : Option Box) (keeps : Bool)
deriving DecidableEq, Repr

/-- A search among names for those which resemble another one. -/
abbrev NameSearch := List String → String → List String

/-- The side of the user in a run. -/
structure Console where
  /-- What has been written to the user about errors. -/
  written : String := ""
  /-- The answers which the user is going to give. -/
  script : List String := []
  /-- How often the user has been asked. -/
  prompts : Nat := 0
  /-- The errors which have been noted, the latest first. -/
  noted : List Diagnostic := []
deriving Repr, Inhabited

/-- The state of an engine. -/
structure Engine where
  context : Context
  settings : Settings := {}
  typesetter : Typesetter := {}
  /-- A typesetter is there to receive the material of a run. -/
  hasTypesetter : Bool := true
  /-- Texts and files can be read. -/
  hasStreams : Bool := true
  input : Input := []
  files : FileStore := {}
  fonts : FontSource := .schematic
  handler : Handler := .carryOn
  console : Console := {}
  /-- The recoverable errors of the run. -/
  errorCount : Nat := 0
  /-- The run ends after the current command. -/
  halted : Bool := false
  /-- The words read in front of the next assignment. -/
  modifiers : Modifiers := .none
  spaceFactor : Int64 := 1000
  /-- The names of primitives, which are suggested for misspelled ones. -/
  primitiveNames : List String := []
  search : NameSearch := fun _ _ => []
  /-- Messages and errors of all runs. -/
  transcript : String := ""
  /-- What has been written to the terminal. -/
  terminal : String := ""
  /-- A run has ended normally, so that there is an output. -/
  hasOutput : Bool := false
  /-- The number of the next meaning or conditional. -/
  serial : Nat := 1
  /-- What the engine has done in all runs, the latest first. -/
  trace : List TraceEntry := []

instance : Inhabited Engine := ⟨{ context := default }⟩

/-- The control sequence in front of an end mark which a condition runs into. No input can name it. -/
def frozenRelaxToken : Token := .controlSequence "relax" "\x00frozen"

namespace Engine

def locator (e : Engine) : Locator := e.input.locator

def modifyContext (e : Engine) (f : Context → Context) : Engine := { e with context := f e.context }

def modifyTypesetter (e : Engine) (f : Typesetter → Typesetter) : Engine :=
  { e with typesetter := f e.typesetter }

def pushTokens (e : Engine) (ts : List Token) : Engine := { e with input := e.input.pushTokens ts }

/-- The engine with a text in front of its input, if it can read texts. -/
def pushText (e : Engine) (text source : String) : Engine :=
  if e.hasStreams then { e with input := .text (.ofText text source) :: e.input } else e

def record (e : Engine) (entry : TraceEntry) : Engine := { e with trace := entry :: e.trace }

/-- The engine with an entry for a diagnostic in its transcript. -/
def log (e : Engine) (d : Diagnostic) : Engine := { e with transcript := e.transcript ++ d.logEntry }

def write (e : Engine) (s : String) : Engine :=
  { e with console := { e.console with written := e.console.written ++ s } }

/-- The engine after an answer of the user, who is going to go on with the rest of the script. -/
def hear (e : Engine) (a : Answer) (script : List String) : Engine :=
  { e with
    console := { e.console with written := e.console.written ++ "? ", prompts := e.console.prompts + 1, script }
    trace := .answered a :: e.trace }

/-- Writes a message to the transcript, and to the terminal unless it is muted. -/
def message (e : Engine) (s : String) : Engine :=
  { e with
    transcript := e.transcript ++ s ++ "\n"
    terminal := if e.context.muted then e.terminal else e.terminal ++ s ++ "\n"
    trace := .messaged s :: e.trace }

/-- The engine after something that a handler of one's own does. -/
def intervene (e : Engine) : Intervention → Engine
  | .insertText text source => e.pushText text source
  | .insertTokens tokens => e.pushTokens (tokens.map Subtype.val)
  | .setInteraction mode => e.modifyContext (·.setInteraction mode true)
  | .say s => e.message s
  | .halt => { e with halted := true }

/-- The main list, once a run has ended normally. -/
def output (e : Engine) : Option (List Node) := if e.hasOutput then some e.typesetter.main else none

/-- The shorter of two names, the first one of equally long ones. An empty name is none. -/
def shorterName (best name : String) : String :=
  if best == "" || name.utf8ByteSize < best.utf8ByteSize then name else best

/-- The shortest name of a primitive which resembles a misspelled one. -/
def suggestion (e : Engine) (name : String) : String :=
  if name == "" then ""
  else
    let best := ((e.search e.primitiveNames name).filter (· != name)).foldl shorterName ""
    if best == "" then "" else "\\" ++ best

end Engine

end Compositor
