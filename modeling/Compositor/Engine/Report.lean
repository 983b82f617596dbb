import Compositor.Engine.Procedure

/-!
# Reporting errors

A recoverable error is counted and logged, and the handler is asked about it. The run ends if there are too
many errors or if the handler says so. A fatal error is logged and ends the run without asking anybody.

`report` is where all recoverable errors go. `absorb` reports what stopped a procedure, so that the run goes
on after it if it can.
-/

namespace Compositor

section

variable (m : Machine)

/-- Deletes tokens from the input, up to the first which cannot be read. -/
def deleteTokens : Nat → Action Unit
  | 0 => return
  | n + 1 => fun e =>
    match m.next e with
    | .ok (some _) e => deleteTokens n e
    | .ok none e => .ok () e
    | .error ⟨.outOfFuel, _⟩ e => .error ⟨.outOfFuel, ()⟩ e
    | .error ⟨.diagnostic d, _⟩ e => .ok () (e.record (.forgiven d))

/-- Asks the user until there is a decision. The user answers with the lines of a script. -/
def converse (d : Diagnostic) : List String → Action Bool
  | [] => do
    modify (·.hear .unreadable [])
    return false
  | line :: script => do
    modify (·.hear (Answer.ofLine line) script)
    match Answer.ofLine line with
    | .unreadable => return false
    | .proceed => return true
    | .help =>
      modify (·.write (d.help ++ "\n"))
      converse d script
    | .insert text =>
      if text != "" then modify (·.pushText text "insert")
      return true
    | .delete n =>
      deleteTokens m n
      return true
    | .change mode =>
      modifyContext (·.setInteraction mode true)
      return true
    | .quit => return false
    | .unknown =>
      modify (·.write (menu ++ "\n"))
      converse d script

/-- Notes an error. Tells if the run is to go on. -/
def note (abortAt : Nat) (d : Diagnostic) : Action Bool := modifyGet fun e =>
  let noted := d :: e.console.noted
  let goesOn := !(abortAt > 0 && noted.length == abortAt)
  (goesOn, ({ e with console.noted := noted } : Engine).record (.decided goesOn))

/-- Asks a handler of one's own about an error. -/
def consultCustom (answer : List Diagnostic → Context → Reply) (d : Diagnostic) : Action Bool :=
  modifyGet fun e =>
    let noted := d :: e.console.noted
    let reply := answer noted e.context
    let e := reply.interventions.foldl Engine.intervene { e with console.noted := noted }
    (reply.goesOn, e.record (.decided reply.goesOn))

/-- Asks the handler about an error. Tells if the run is to go on. -/
def consult (d : Diagnostic) : Action Bool := do
  let e ← get
  let mode := e.context.interaction
  match e.handler with
  | .carryOn => return true
  | .recorder abortAt => note abortAt d
  | .custom answer => consultCustom answer d
  | .printer =>
    if mode ≠ .batch then
      modify (·.write d.logEntry)
      if mode.showsHelp && d.help != "" then modify (·.write (d.help ++ "\n"))
    return true
  | .noTerminal =>
    if mode ≠ .batch then
      modify (·.write d.logEntry)
      if mode = .scroll then modify (·.write (d.help ++ "\n"))
    return true
  | .prompter =>
    if mode = .batch then return true
    modify (·.write d.logEntry)
    if mode = .errorStop then converse m d e.console.script
    else
      if mode = .scroll then modify (·.write (d.help ++ "\n"))
      return true

/-- Reports a diagnostic. Stops if the run cannot go on after it. -/
def report (d : Diagnostic) : Action Unit := do
  let language := (← get).settings.language
  let d := { d with language }
  record (.reported d)
  if d.isFatal then
    modify (·.log d)
    stopWith d
  modify fun e => { e.log d with errorCount := e.errorCount + 1 }
  let e ← get
  if e.errorCount > e.settings.maxErrors then
    let limit : Diagnostic :=
      { kind := .errorLimit, place := d.place, arguments := [.number e.errorCount], language,
        cause := some d.asCause }
    modify (·.log limit)
    stopWith limit
  record (.consulted d)
  unless ← consult m d do
    stopWith { kind := .aborted, place := d.place, language, cause := some d.asCause }

/-- Reports a problem with the place which is being read. -/
def reportHere (kind : Kind) (arguments : List Argument) : Action Unit := do
  report m (← diagnosticHere kind arguments)

/-- Reports what stopped a procedure. If the run can go on, the value it left is used. -/
def absorb {β : Type} (x : Proc β β) : Action β := fun e =>
  match x e with
  | .ok a e => .ok a e
  | .error ⟨.diagnostic d, b⟩ e => (report m d >>= fun _ => pure b : Action β) e
  | .error ⟨.outOfFuel, _⟩ e => .error ⟨.outOfFuel, ()⟩ e

end

end Compositor
