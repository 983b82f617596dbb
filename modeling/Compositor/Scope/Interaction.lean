import Compositor.Text.Blank
import Compositor.Text.CaseMap
import Compositor.Text.Quoted

/-!
# Interaction modes

How much a run talks to its user. Each mode is more talkative than the one before.
-/

namespace Compositor

/-- The interaction mode of a run. -/
inductive Interaction where
  /-- Neither stops nor terminal output. -/
  | batch
  /-- No stops. -/
  | nonstop
  /-- No stops at errors. -/
  | scroll
  /-- Stops at every opportunity. -/
  | errorStop
deriving DecidableEq, Repr, Inhabited

namespace Interaction

def all : List Interaction := [batch, nonstop, scroll, errorStop]

def name : Interaction → String
  | batch => "batchmode"
  | nonstop => "nonstopmode"
  | scroll => "scrollmode"
  | errorStop => "errorstopmode"

def nameOfNumber (n : Int) : String :=
  match if n < 0 then none else all[n.toNat]? with
  | some mode => mode.name
  | none => "interaction(" ++ toString n ++ ")"

/-- The mode prints help texts. -/
def showsHelp : Interaction → Bool
  | scroll | errorStop => true
  | _ => false

/-- The full name of a mode, given with or without the ending `mode`. -/
def fullName (s : String) : String :=
  let s := Text.lowercase (Text.trim s)
  if s.endsWith "mode" then s else s ++ "mode"

/-- The mode with a name, or the wording of the fault. -/
def parse (s : String) : Except String Interaction :=
  match all.find? fun mode => mode.name == fullName s with
  | some mode => .ok mode
  | none => .error ("unknown interaction mode: " ++ Text.quoted (fullName s))

end Interaction

end Compositor
