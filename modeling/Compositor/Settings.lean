import Compositor.Diagnostic.Fault
import Compositor.Language
import Compositor.Scope.Interaction
import Compositor.Text.Decimal

/-!
# Settings

The settings of a run, and how they are read from a configuration of texts under keys.
-/

namespace Compositor

/-- The settings of a run. -/
structure Settings where
  /-- How many recoverable errors are allowed before the run stops. -/
  maxErrors : Int := 100
  /-- The upper bound of the magnification. -/
  maxMagnification : Int64 := 32768
  /-- The interaction mode at the start of the run. -/
  interaction : Interaction := .errorStop
  /-- The language of diagnostics. -/
  language : Language := .english
deriving DecidableEq, Repr

instance : Inhabited Settings := ⟨{}⟩

namespace Settings

def maxErrorsKey : String := "tytex.maxerrors"
def maxMagnificationKey : String := "tytex.maxmag"
def interactionKey : String := "tytex.interaction"
def languageKey : String := "tytex.language"

def numberFault (key need text : String) : Fault :=
  .ofCode FaultCode.configuration.number (key ++ " must be a " ++ need ++ " number: " ++ Text.quoted text)

def nameFault (key message : String) : Fault :=
  .coded FaultCode.configuration.number (key ++ ": " ++ message) (.plain message)

/-- Reads the allowed number of errors. An empty text leaves the settings alone. -/
def readMaxErrors (s : Settings) (text : String) : Except Fault Settings :=
  let text := Text.trim text
  if text == "" then .ok s
  else match Text.readInteger text with
    | .ok n => if n < 0 then .error (numberFault maxErrorsKey "non-negative" text)
      else .ok { s with maxErrors := n.toInt }
    | .error _ => .error (numberFault maxErrorsKey "non-negative" text)

/-- Reads the largest magnification. An empty text leaves the settings alone. -/
def readMaxMagnification (s : Settings) (text : String) : Except Fault Settings :=
  let text := Text.trim text
  if text == "" then .ok s
  else match Text.readInteger text with
    | .ok n => if n < 1 then .error (numberFault maxMagnificationKey "positive" text)
      else .ok { s with maxMagnification := n }
    | .error _ => .error (numberFault maxMagnificationKey "positive" text)

/-- Reads the interaction mode. An empty text leaves the settings alone. -/
def readInteraction (s : Settings) (text : String) : Except Fault Settings :=
  if text == "" then .ok s
  else match Interaction.parse text with
    | .ok mode => .ok { s with interaction := mode }
    | .error message => .error (nameFault interactionKey message)

/-- Reads the language. An empty text leaves the settings alone. -/
def readLanguage (languages : Languages) (s : Settings) (text : String) : Except Fault Settings :=
  if text == "" then .ok s
  else match languages text with
    | .ok language => .ok { s with language }
    | .error message => .error (nameFault languageKey message)

/-- The settings after reading one after the other, up to the first fault. -/
def readAll (s : Settings) : List (Settings → Except Fault Settings) → Settings × Option Fault
  | [] => (s, none)
  | read :: rest =>
    match read s with
    | .ok s => readAll s rest
    | .error fault => (s, some fault)

/-- The settings of a configuration, where keys which are not set have an empty text. On a fault the settings
are those read before it. -/
def ofConfiguration (languages : Languages) (text : String → String) : Settings × Option Fault :=
  readAll {}
    [(readMaxErrors · (text maxErrorsKey)), (readMaxMagnification · (text maxMagnificationKey)),
      (readInteraction · (text interactionKey)), (readLanguage languages · (text languageKey))]

end Settings

end Compositor
