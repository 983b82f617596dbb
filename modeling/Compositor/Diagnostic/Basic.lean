import Compositor.Diagnostic.Argument
import Compositor.Diagnostic.German
import Compositor.Diagnostic.Kind
import Compositor.Text.Blank
import Compositor.Token.Locator

/-!
# Diagnostics

A diagnostic tells a problem with the text of a run: its kind, where it was found, and the arguments of its
texts. Diagnostics are worded in the language of the run.
-/

namespace Compositor

/-- What led to a diagnostic. -/
inductive Cause where
  /-- Another diagnostic, of which the code and the message are told. -/
  | diagnostic (code : Int) (message : String)
  /-- A fault outside of the text. -/
  | fault (f : Fault)
deriving DecidableEq, Repr

def Cause.code : Cause → Int
  | diagnostic code _ => code
  | fault f => f.code

def Cause.user : Cause → String
  | diagnostic _ message => message
  | fault f => f.user

/-- A problem with the text of a run. -/
structure Diagnostic where
  kind : Kind
  place : Locator := {}
  arguments : List Argument := []
  /-- A control sequence which may have been meant. -/
  hint : String := ""
  language : Language := .english
  cause : Option Cause := none
deriving DecidableEq, Repr

namespace Diagnostic

/-- The run ends with this diagnostic. -/
def isFatal (d : Diagnostic) : Bool := d.kind.isFatal

def code (d : Diagnostic) : Int := d.kind.code.number

/-- A text with the arguments of a diagnostic, in the language of the diagnostic. -/
def compose (d : Diagnostic) (text : String) : String :=
  fillText d.language.groupMark (German.wording d.language text) d.arguments

/-- The English message, with the place of the diagnostic in front if it is known. Its digits are not
grouped. -/
def report (d : Diagnostic) : String :=
  let message := fillText "" d.kind.message d.arguments
  if d.place.line > 0 then d.place.format ++ ": " ++ message else message

/-- The message in the language of the diagnostic. -/
def user (d : Diagnostic) : String := d.compose d.kind.message

/-- The help text in the language of the diagnostic, with the message of a fault which led to it, and with
the hint. -/
def help (d : Diagnostic) : String :=
  let help := d.compose d.kind.help
  let help := match d.cause with
    | some (.fault f) => if f.isCoded then Text.trim (help ++ " (" ++ f.user ++ ")") else help
    | _ => help
  if d.hint == "" then help
  else Text.trim (help ++ " " ++
    fillText d.language.groupMark (German.wording d.language "Did you mean %s?") [d.hint])

def asCause (d : Diagnostic) : Cause := .diagnostic d.code d.user

/-- The entry of a diagnostic in a log: the message, and the line it is about. -/
def logEntry (d : Diagnostic) : String :=
  "! " ++ d.user ++ ".\n" ++
    (if d.place.line > 0 then "l." ++ toString d.place.line ++ " " ++ d.place.source ++ "\n" else "")

end Diagnostic

end Compositor
