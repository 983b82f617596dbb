import Compositor.Engine.Report

/-!
# Groups

Closing groups, and executing what is in them.
-/

namespace Compositor

/-- The diagnostic of a group which cannot be closed as a group of a kind. -/
def groupProblem (kind : GroupKind) (fault : GroupFault) : Kind × List Argument :=
  match fault, kind with
  | .noGroup, .simple => (.extraRightBrace, [])
  | .noGroup, _ => (.groupMismatch, ["\\endgroup", "\\begingroup"])
  | .mismatch, .simple => (.groupMismatch, ["\x7d", "\\endgroup"])
  | .mismatch, _ => (.groupMismatch, ["\\endgroup", "\x7d"])

namespace Engine

def enterGroup (e : Engine) (kind : GroupKind) (place : Locator) : Engine :=
  { e with context := e.context.openGroup kind place, trace := .groupOpened :: e.trace }

/-- The engine after the innermost group, with the context outside of it. -/
def leaveGroup (e : Engine) (outside : Context) : Engine :=
  { e with context := outside, trace := .groupClosed :: e.trace }

end Engine

def openGroup (kind : GroupKind) : Action Unit := do
  let place ← locator
  modify (·.enterGroup kind place)

/-- Closes the innermost group, which has to be of a given kind. The tokens deferred to its end are read
next. -/
def closeGroup (kind : GroupKind) : Action Unit := do
  match (← context).closeGroup kind with
  | .ok (ts, outside) =>
    modify (·.leaveGroup outside)
    pushTokens ts
  | .error fault =>
    let (problem, arguments) := groupProblem kind fault
    complain problem arguments

/-- Closes a number of groups, whatever their kinds are. -/
def closeGroups : Nat → Action Unit
  | 0 => return
  | n + 1 => do
    closeGroup (← context).current.kind
    closeGroups n

section

variable (m : Machine)

/-- Executes commands until the innermost group is closed. If the input ends before, the group is closed and
the missing brace is reported. -/
def executeGroup : Action Unit := do
  let depth := (← context).depth
  record (.groupExecuted depth)
  if depth = 0 then complain .internal ["no group to execute"]
  if ← m.execute depth then
    closeGroups ((← context).depth + 1 - depth)
    reportHere m .missingToken ["\x7d"]

end

end Compositor
