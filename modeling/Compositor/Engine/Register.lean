import Compositor.Engine.Quantity

/-!
# Registers and character codes

Assignments to registers, to the magnification and to the tables of character codes. Arithmetic leaves a
register alone if the result is out of range.
-/

namespace Compositor

open Compositor.Measure

/-- The register which a meaning stands for: its kind, and its name if no number follows. -/
def registerOf? : Option Meaning → Option (RegisterKind × Option String)
  | some (.primitive _ _ (.command (.register kind fixed))) => some (kind, fixed)
  | _ => none

namespace ArithmeticOp

/-- The result of an operation, if its absolute value is within a bound. -/
def apply (op : ArithmeticOp) (bound v n : Int64) : Option Int64 :=
  let result : Option Int64 := match op with
    | advance => some (v + n)
    | multiply => some (v * n)
    | divide => if n = 0 then none else some (v / n)
  result.filter fun r => -bound ≤ r ∧ r ≤ bound

def inRange (g : Glue) : Option Glue :=
  if -maxDimen ≤ g.natural ∧ g.natural ≤ maxDimen then some g else none

/-- The glue multiplied or divided by a number. -/
def scaleGlue (op : ArithmeticOp) (g : Glue) (n : Int64) : Option Glue :=
  match op with
  | divide => g.divide? n
  | _ => some (g.multiply n)

end ArithmeticOp

/-- The tokens with their characters mapped by a table. Control sequences and characters without a code stay
as they are. -/
def changeCase (c : Context) (table : CodeTable) (ts : List Token) : List Token :=
  ts.map fun t =>
    if t.isControlSequence then t
    else
      let code := c.charcode table t.char.toNat
      if code = 0 then t else .character t.cat (charOfWord code)

section

variable (m : Machine)

/-- Scans a list of tokens: the value of a token register, or a text in braces. -/
def tokenList : Action (List Token) := do
  match ← nonBlank m with
  | none => return []
  | some t =>
    match ← quantity? m t with
    | some (.toks value) => value
    | _ =>
      pushBack t
      balancedText m false

def assignValue (kind : RegisterKind) (name : String) (globally : Bool) : Action Unit := do
  match kind with
  | .count =>
    let n ← m.number
    modifyContext (·.setCount name n globally)
  | .dimen =>
    let d ← dimension m
    modifyContext (·.set (.dimen name) d globally)
  | .glue =>
    let g ← glueSpec m
    modifyContext (·.set (.glue name) g globally)
  | .toks =>
    let ts ← tokenList m
    modifyContext (·.set (.toks name) ts globally)

/-- Assigns a register: a fixed one, or the one whose number follows. -/
def assignRegister (kind : RegisterKind) (fixed : Option String) (globally : Bool) : Action Unit := do
  let name ← locate m fixed
  optionalEquals m
  assignValue m kind name globally

/-- Makes a control sequence stand for the register whose number follows. -/
def defineRegister (kind : RegisterKind) (globally : Bool) : Action Unit := do
  let target ← controlSequence m
  optionalEquals m
  let name ← registerName m
  let id ← freshId
  let meaning := Meaning.primitive id target.name (.command (.register kind (some name)))
  modifyContext (·.setMeaning target (some meaning) globally)

/-- The engine with a magnification assigned, in a context where it has been set, and in a count register as well. -/
def Engine.magnify (e : Engine) (c : Context) (name : String) (v : Int64) (globally : Bool) : Engine :=
  { e with context := c.setCount name v globally, trace := .magnified v globally :: e.trace }

/-- Assigns the magnification, which is kept in a count register as well. -/
def assignMagnification (name : String) (globally : Bool) : Action Unit := do
  optionalEquals m
  let n ← m.number
  match (← context).setMagnification n false with
  | .ok c => modify (·.magnify c name n globally)
  | .error fault => reportMagnification m fault n

/-- Scans the operand for a dimen register with a given value. -/
def dimenResult (op : ArithmeticOp) (d : Dimen) : Action (Option Dimen) := do
  let n ← match op with
    | .advance => dimension m
    | _ => m.number
  return op.apply maxDimen d n

/-- Scans the operand for a glue register with a given value. -/
def glueResult (op : ArithmeticOp) (g : Glue) : Action (Option Glue) := do
  let result ← match op with
    | .advance => pure (some (g.add (← glueSpec m)))
    | _ => pure (op.scaleGlue g (← m.number))
  return result.bind ArithmeticOp.inRange

def arithmetic (op : ArithmeticOp) (command : String) (globally : Bool) : Action Unit := do
  match ← nonBlank m with
  | none => return
  | some t =>
    match registerOf? (← meaningOf t) with
    | none =>
      pushBack t
      complain .misplaced [.text (t.format ++ " after \\" ++ command)]
    | some (kind, fixed) =>
      let name ← locate m fixed
      discard (keyword m "by" : Proc Bool Bool)
      let overflow ← diagnosticHere .arithmeticOverflow []
      let c ← context
      match kind with
      | .count =>
        match op.apply maxInteger (c.count name) (← m.number) with
        | some v => modifyContext (·.setCount name v globally)
        | none => stopWith overflow
      | .dimen =>
        match ← dimenResult m op (c.dimen name) with
        | some v => modifyContext (·.set (.dimen name) v globally)
        | none => stopWith overflow
      | .glue =>
        match ← glueResult m op (c.glue name) with
        | some g => modifyContext (·.set (.glue name) g globally)
        | none => stopWith overflow
      | .toks => complain .misplaced [.text ("\\" ++ command ++ " with a token register")]

def assignCharCode (table : CharTable) (globally : Bool) : Action Unit := do
  let code ← charCodePoint m
  optionalEquals m
  let v ← m.number
  if v < table.least ∨ v > table.greatest then
    complain .badCharacterCode [.number v.toInt, .number table.greatest.toInt]
  match table with
  | .categories => modifyContext (·.set (.catcode code) (Catcode.ofCode v.toInt.toNat) globally)
  | .codes table => modifyContext (·.set (.charcode table code) v globally)

end

end Compositor
