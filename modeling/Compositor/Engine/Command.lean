import Compositor.Engine.Box
import Compositor.Engine.Define
import Compositor.Engine.Register

/-!
# Commands

What the primitives do which are not replaced by other tokens. Assignments are local to the innermost group
unless a modifier says otherwise; some are always global.
-/

namespace Compositor

open Compositor.Measure

def standardFontSize : Dimen := 10 * point

/-- Puts the contents of a file in front of the input. -/
def pushFile (name : String) : Action Unit := do
  let e ← get
  if !e.hasStreams then complain .noStreams []
  match e.files.find? name with
  | some (source, text) => modify (·.pushText text source)
  | none =>
    let d ← diagnosticHere .fileNotFound [.text name]
    stopWith { d with cause := some (.fault (.plain ("no file " ++ name))) }

def useFont (font : Font) (globally : Bool) : Action Unit :=
  modifyContext fun c => c.setStyle { c.style with font } globally

def useDirection (direction : Direction) : Action Unit :=
  modifyContext fun c => c.setStyle { c.style with direction } false

/-- Starts a run of text in a direction. -/
def beginDirection (direction : Direction) : Action Unit := do
  modifyContext (·.pushDirection direction)
  useDirection direction

/-- Ends a run of text. It has to be the innermost one. -/
def endDirection (command : String) (direction : Direction) : Action Unit := do
  match (← context).directions with
  | [] => complain .misplaced [.text ("\\" ++ command)]
  | d :: outer =>
    if d ≠ direction then complain .misplaced [.text ("\\" ++ command)]
    modifyContext Context.popDirection
    useDirection (outer.headD .leftToRight)

section

variable (m : Machine)

/-- Scans the size of a font: a dimension, or the standard size scaled by a number of thousandths. -/
def fontSize : Action Dimen := do
  if ← keyword m "at" then dimension m
  else if ← keyword m "scaled" then
    let n ← m.number
    return standardFontSize * n / 1000
  else return standardFontSize

/-- The engine with a font which has been requested. A control sequence selects it, and it is kept under the name of that
control sequence. -/
def Engine.keepFont (e : Engine) (target : Token) (name : String) (font : Font) (fonts : FontSource) (globally : Bool) :
    Engine :=
  let meaning := Meaning.primitive e.serial target.name (.command (.selectFont name))
  { e with
    context := (e.context.setMeaning target (some meaning) globally).set (.font target.name) (some font) globally
    fonts
    serial := e.serial + 1
    trace := .fontLoaded e.serial target.name font globally :: e.trace }

/-- Loads a font and makes a control sequence select it. A font which cannot be loaded is complained about
after that. -/
def loadFont (globally : Bool) : Action Unit := do
  let target ← controlSequence m
  optionalEquals m
  let name ← fileName m
  let size ← fontSize m
  let (answer, fonts) := (← get).fonts.request name size
  modify (·.keepFont target name (answer.font.getD .null) fonts globally)
  if let some fault := answer.fault then
    let d ← diagnosticHere .fontNotFound [.text target.format, .text name]
    stopWith { d with cause := some (.fault fault) }

/-- Adds glue. Vertical glue ends a paragraph. -/
def addGlue (vertical : Bool) : Action Unit := do
  let g ← glueSpec m
  if vertical && (← get).typesetter.mode = .horizontal then modifyTypesetter Typesetter.par
  modifyTypesetter (·.addGlue g)

def setCharacter : Action Unit := do
  let n ← m.number
  if n < 0 ∨ n > maxCodePoint then
    complain .badCharacterCode [.number n.toInt, .number maxCodePoint.toInt]
  let style := (← context).style
  modifyTypesetter (·.add style n.toInt.toNat)

/-- Reads the file whose name follows before the rest of the input. -/
def readFile : Action Unit := do
  let name ← fileName m
  if name == "" then complain .missingToken ["file name"]
  pushFile name

/-- Executes a command, given the name under which it was made and the modifiers in front of it. -/
def Command.execute (name : String) (modifiers : Modifiers) : Command → Action Unit
  | .define globally expanded => Compositor.define m modifiers globally expanded
  | .assignMeaning => Compositor.assignMeaning m modifiers.isGlobal
  | .register kind fixed => assignRegister m kind fixed modifiers.isGlobal
  | .defineRegister kind => Compositor.defineRegister m kind modifiers.isGlobal
  | .magnification => assignMagnification m name modifiers.isGlobal
  | .arithmetic op => Compositor.arithmetic m op name modifiers.isGlobal
  | .boxRegister keeps => do
    if let some box ← takeBox m keeps then modifyTypesetter (·.addBox (some box))
  | .setBox => assignBox m modifiers.isGlobal
  | .makeBox kind => do
    let box ← Compositor.makeBox m kind
    modifyTypesetter (·.addBox (some box))
  | .charCode table => assignCharCode m table modifiers.isGlobal
  | .changeCase table => do
    let text ← balancedText m false
    pushTokens (Compositor.changeCase (← context) table text)
  | .endName => complain .misplaced [.text ("\\" ++ name)]
  | .beginGroup => openGroup .semiSimple
  | .endGroup => closeGroup .semiSimple
  | .afterGroup => do
    if let some t ← m.next then modifyContext (·.afterGroupToken t)
  | .relax => return
  | .stop => do
    modifyTypesetter Typesetter.par
    modify fun e => { e with halted := true }
  | .par => modifyTypesetter Typesetter.par
  | .kern => do
    let d ← dimension m
    modifyTypesetter (·.addKern d)
  | .skip vertical => Compositor.addGlue m vertical
  | .penalty => do
    let cost ← m.number
    modifyTypesetter (·.addPenalty cost)
  | .char => setCharacter m
  | .loadFont => Compositor.loadFont m modifiers.isGlobal
  | .selectFont _ => do useFont ((← context).font name) modifiers.isGlobal
  | .nullFont => useFont .null modifiers.isGlobal
  | .beginDirection direction => Compositor.beginDirection direction
  | .endDirection direction => Compositor.endDirection name direction
  | .setInteraction mode => modifyContext (·.setInteraction mode true)
  | .message => do
    let text ← balancedText m true
    modify (·.message (Token.formatList text))
  | .setSpace => do
    let text ← balancedText m true
    modifyContext (·.setSpace (Text.trim (Token.formatList text)) modifiers.isGlobal)
  | .ignoreSpaces => do
    if let some t ← nonBlank m then pushBack t
  | .input => readFile m

end

end Compositor
