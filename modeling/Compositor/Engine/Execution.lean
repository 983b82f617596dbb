import Compositor.Engine.Command

/-!
# Execution

What the engine does with a token which is not replaced by others: characters are set, braces open and close
groups, control sequences are executed. Modifiers are gathered until the assignment they belong to.
-/

namespace Compositor

/-- A character token in words, with the name of its category. -/
def Token.withCategory (t : Token) : String := t.cat.name ++ " character " ++ t.name

/-- Stops with the diagnostic of an undefined control sequence. Control sequences get the suggestion of a
similar name. -/
def complainUndefined (t : Token) : Action Unit := do
  let d ← diagnosticHere .undefinedControlSequence [.text t.format]
  let e ← get
  stopWith { d with hint := if t.isControlSequence then e.suggestion t.name else "" }

/-- Sets a character. It determines the width of the space after it, unless its space factor is zero. -/
def setLetter (t : Token) : Action Unit := do
  let c ← context
  modifyTypesetter (·.add c.style t.char.toNat)
  let factor := c.charcode .spaceFactor t.char.toNat
  if factor ≠ 0 then modify fun e => { e with spaceFactor := factor }

/-- Asks the typesetter to start or end a formula. Tells why it cannot. -/
def requestMath (display : Bool) : Action (Option TypesettingFault) := do
  let (fault, typesetter) := (← get).typesetter.toggleMath display
  modifyTypesetter fun _ => typesetter
  record (.mathToggled fault)
  return fault

def toggleMath (display : Bool) : Action Unit := do
  match ← requestMath display with
  | none => return
  | some .displayMathEnd => complain .displayMathEnd []
  | some fault =>
    let d ← diagnosticHere .internal [.text fault.message]
    stopWith { d with cause := some (.fault (.plain fault.message)) }

section

variable (m : Machine)

/-- The next token belongs to the same formula mark. Another token is put back. -/
def secondMathShift : Action (Option Bool) := do
  match ← m.nextExpanded with
  | none => return none
  | some t =>
    if t.cat = .mathShift then return some true
    pushBack t
    return some false

/-- Processes a formula mark. A doubled mark is for displayed formulas, which must not be within a
horizontal box. -/
def mathShift : Action Unit := do
  match (← get).typesetter.mode with
  | .math | .restrictedHorizontal => toggleMath false
  | .displayMath =>
    if (← secondMathShift m) = some false then
      discard (requestMath true)
      complain .displayMathEnd []
    else toggleMath true
  | _ => toggleMath ((← secondMathShift m) = some true)

/-- Executes the meaning of a token, which is no modifier, with the modifiers gathered before it. -/
def executeModified (t : Token) (meaning : Meaning) (modifiers : Modifiers) : Action Unit := do
  let accepted : Option Modifiers := match meaning with
    | .primitive _ _ (.command c) => c.accepts
    | _ => none
  if modifiers ≠ .none && !((accepted.map modifiers.subset).getD false) then
    pushBack t
    complain .cantUseModifier [.text t.format]
  match meaning with
  | .character _ t => pushBack t
  | .undefined name => complain .undefinedControlSequence [.text ("\\" ++ name)]
  | .primitive _ name (.command c) => c.execute m name modifiers
  | _ => complain .misplaced [.text t.format]

def executeMeaning (t : Token) (meaning : Meaning) : Action Unit := do
  match meaning with
  | .primitive _ _ (.modifier word) =>
    modify fun e => { e with modifiers := e.modifiers.union word }
    record (.gathered word)
  | meaning =>
    let modifiers := (← get).modifiers
    modify fun e => { e with modifiers := .none }
    executeModified m t meaning modifiers

def executeCharacter (t : Token) : Action Unit := do
  match t.cat with
  | .leftBrace => openGroup .simple
  | .rightBrace => closeGroup .simple
  | .letter | .other => setLetter t
  | .space =>
    let e ← get
    modifyTypesetter (·.addSpace e.context.style e.spaceFactor)
  | .mathShift => mathShift m
  | .supMark | .subMark =>
    let e ← get
    if e.typesetter.mode.isMath then modifyTypesetter (·.add e.context.style t.char.toNat)
    else complain .misplaced [.text t.withCategory]
  | .tabMark | .parameter => complain .misplaced [.text t.withCategory]
  | _ => complain .internal [.text ("unexpected token " ++ t.describe)]

/-- Executes a token. Between modifiers and their assignment there may be only spaces. -/
def dispatch (t : Token) : Action Unit := do
  recordDispatch t
  if t.isCode then
    match (← context).meaning t with
    | some meaning => executeMeaning m t meaning
    | none =>
      modify fun e => { e with modifiers := .none }
      complainUndefined t
  else if (← get).modifiers ≠ .none then
    if t.cat ≠ .space then
      modify fun e => { e with modifiers := .none }
      pushBack t
      complain .cantUseModifier [.text t.withCategory]
  else executeCharacter m t

/-- Executes the next command, unless the run is halted, or is over by this test, or the input has come to its end.
Recoverable problems of the command are reported. -/
def executeTurn (isOver : Engine → Bool) : Action (Turn Unit Bool) := do
  let e ← get
  if e.halted || isOver e then return .done false
  match ← m.nextExpanded with
  | none => return .done true
  | some t =>
    absorb m (dispatch m t)
    return .again ()

/-- Executes the next command, unless there are fewer open groups than given. -/
def executeStep (least : Nat) : Action (Turn Unit Bool) := executeTurn m fun e => e.context.depth < least

/-- Executes commands until the run is halted or there are fewer open groups than given. Tells if the input
came to its end before. -/
def executeWhile (least : Nat) : Action Bool := iterate (fun _ => executeStep m least) m.fuel ()

end

end Compositor
