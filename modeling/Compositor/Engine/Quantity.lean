import Compositor.Engine.Read

/-!
# Scanning quantities

Numbers, dimensions and glue, as constants or taken from registers. A problem is reported and a default value
is used, so a scanner stops only if the run does.

* `number` reads an integer, `registerName` the number of a register;
* `dimension` reads a length with a unit, `glueSpec` a length with stretch and shrink.
-/

namespace Compositor

open Compositor.Measure

def maxInteger : Int64 := 2147483647

/-- The largest number of a register. -/
def maxRegister : Int64 := 32767

def maxCodePoint : Int64 := 0x10ffff

/-- A value or its negative. -/
def signed (negative : Bool) (d : Int64) : Int64 := if negative then -d else d

/-- The digit of a numeral in a radix which a token stands for. -/
def digitOf? (t : Token) (radix : Nat) : Option Nat :=
  let c := t.char
  let d := if t.isCode then none
    else if t.cat = .other && '0' ≤ c && c ≤ '9' then some (c.toNat - 0x30)
    else if radix == 16 && 'A' ≤ c && c ≤ 'F' && (t.cat = .other || t.cat = .letter) then
      some (c.toNat - 0x41 + 10)
    else none
  d.filter (· < radix)

/-- The quantity which a command denotes. -/
inductive Quantity where
  | count (value : Proc Int64 Int64)
  | dimen (value : Proc Dimen Dimen)
  | glue (value : Proc Glue Glue)
  | toks (value : Proc (List Token) (List Token))

section

variable (m : Machine)

/-- Scans the number of a register. A number out of range is reported and taken for zero. -/
def registerName : Proc String String := Proc.giving (do
  let n ← m.number
  if n < 0 ∨ n > maxRegister then
    reportHere m .illegalRegister [.number n.toInt]
    return "0"
  return Text.decimal n : Action String) "0"

/-- The name of a register: a fixed one, or the number which follows. -/
def locate (fixed : Option String) : Proc String String :=
  match fixed with
  | some name => return name
  | none => registerName m

/-- Scans the code point of a character. A number out of range is reported and taken for zero. -/
def charCodePoint : Action Nat := do
  let n ← m.number
  if n < 0 ∨ n > maxCodePoint then
    reportHere m .badCharacterCode [.number n.toInt, .number maxCodePoint.toInt]
    return 0
  return n.toInt.toNat

def registerValue {β : Type} (fixed : Option String) (value : Context → String → β) : Proc β β := fun e =>
  match locate m fixed e with
  | .ok name e => .ok (value e.context name) e
  | .error i e => .error ⟨i.cause, value e.context i.sofar⟩ e

def quantityOf? : Command → Option Quantity
  | .register .count fixed => some (.count (registerValue m fixed Context.count))
  | .register .dimen fixed => some (.dimen (registerValue m fixed Context.dimen))
  | .register .glue fixed => some (.glue (registerValue m fixed Context.glue))
  | .register .toks fixed => some (.toks (registerValue m fixed Context.toks))
  | .magnification => some (.count do return (← context).magnification)
  | .charCode .categories => some (.count do
      let code ← charCodePoint m
      return Int64.ofNat ((← context).catcode code).code)
  | .charCode (.codes table) => some (.count do
      let code ← charCodePoint m
      return (← context).charcode table code)
  | _ => none

def quantity? {β : Type} (t : Token) : Proc β (Option Quantity) := do
  match ← meaningOf t with
  | some (.primitive _ _ (.command c)) => return quantityOf? m c
  | _ => return none

/-- The integer which a token denotes. Dimensions are taken in scaled points, glue by its natural length. -/
def internalInteger? (t : Token) : Proc Int64 (Option Int64) := do
  match ← quantity? m t with
  | some (.count value) => return some (← value)
  | some (.dimen value) => return some (← value)
  | some (.glue value) => return some (← Proc.mapBoth value Glue.natural)
  | _ => return none

/-- The length which a token denotes. Glue is taken by its natural length. -/
def internalDimen? (t : Token) : Proc Dimen (Option Dimen) := do
  match ← quantity? m t with
  | some (.dimen value) => return some (← value)
  | some (.glue value) => return some (← Proc.mapBoth value Glue.natural)
  | _ => return none

/-- Skips spaces and reads a sign, given if there was an odd number of minus signs before. -/
def signStep (negative : Bool) : Action (Turn Bool (Bool × Option Token)) := do
  match ← nonBlank m with
  | none => return .done (negative, none)
  | some t =>
    if t.isOther '-' then return .again !negative
    else if t.isOther '+' then return .again negative
    else return .done (negative, some t)

/-- Skips spaces and signs. Tells if there was an odd number of minus signs, and the token after them. -/
def signs : Action (Bool × Option Token) := iterate (signStep m) m.fuel false

/-! ## Integers -/

/-- What has been read of a numeral. -/
structure Numeral where
  value : Int64 := 0
  hasDigits : Bool := false
  tooBig : Bool := false
deriving DecidableEq, Repr

def Numeral.push (n : Numeral) (radix digit : Nat) : Numeral :=
  let value := n.value * Int64.ofNat radix + Int64.ofNat digit
  if value > maxInteger then ⟨maxInteger, true, true⟩ else ⟨value, true, n.tooBig⟩

/-- Reads the token after a digit of a numeral. A token after the digits is put back unless it is a space. A
control sequence without a name is dropped. -/
def numeralStep (radix : Nat) : Numeral × Token → Action (Turn (Numeral × Token) Numeral) := fun (n, t) => do
  match digitOf? t radix with
  | some d =>
    let n := Numeral.push n radix d
    match ← m.nextExpanded with
    | some t => return .again (n, t)
    | none => return .done n
  | none =>
    if t.name != "" && t.cat ≠ .space then pushBack t
    return .done n

/-- Reads the digits of a numeral, from the given token on. -/
def numeralDigits (radix : Nat) (first : Token) : Action Numeral := iterate (numeralStep m radix) m.fuel ({}, first)

/-- Scans the digits of a numeral. The first one may have been read already. -/
def digits (radix : Nat) (first : Option Token) : Proc Int64 Int64 := do
  let first ← match first with
    | some t => pure (some t)
    | none => m.nextExpanded
  match first with
  | none =>
    reportHere m .missingNumber []
    return 0
  | some t =>
    let n ← numeralDigits m radix t
    if !n.hasDigits then
      reportHere m .missingNumber []
      return 0
    if n.tooBig then
      Proc.giving (reportHere m .numberTooBig []) maxInteger
    return n.value

def characterMark : Char := Char.ofNat 0x60

/-- Scans the code of the character which follows. -/
def characterConstant : Proc Int64 Int64 := do
  match ← m.next with
  | none => return 0
  | some t =>
    let mut n := Int64.ofNat t.char.toNat
    if t.isControlSequence && !t.isControlSymbol then
      pushBack t
      n := 0
      reportHere m .missingNumber []
    Proc.giving (optionalSpace m) n
    return n

/-- Scans a number without a sign which starts with a token. -/
def unsignedNumber (t : Token) : Proc Int64 Int64 := do
  match ← internalInteger? m t with
  | some n => return n
  | none =>
    if t.isOther characterMark then characterConstant m
    else if t.isOther Text.singleQuote then digits m 8 none
    else if t.isOther '\"' then digits m 16 none
    else if t.cat = .other && '0' ≤ t.char && t.char ≤ '9' then digits m 10 (some t)
    else
      pushBack t
      reportHere m .missingNumber []
      return 0

/-- Scans an integer: a constant with signs, or the value of a register. -/
def number : Proc Int64 Int64 := do
  match ← signs m with
  | (_, none) =>
    reportHere m .missingNumber []
    return 0
  | (negative, some t) => Proc.mapBoth (unsignedNumber m t) (signed negative)

/-! ## Dimensions -/

/-- Reads a digit after a decimal point, given those before it. A token after the digits is put back unless it
is a space. -/
def fractionStep (read : List Nat) : Action (Turn (List Nat) Int64) := do
  match ← m.nextExpanded with
  | none => return .done (Int64.ofNat (roundDecimals read))
  | some t =>
    if t.cat = .other && '0' ≤ t.char && t.char ≤ '9' then
      return .again (read ++ [Text.digitValue t.char])
    if t.cat ≠ .space then pushBack t
    return .done (Int64.ofNat (roundDecimals read))

/-- Scans the digits after a decimal point and gives the fraction in units of `1/65536`. -/
def fraction : Action Int64 := iterate (fractionStep m) m.fuel []

/-- The product of `whole + part/65536` and a length. -/
def timesUnit (whole part : Int64) (unit : Dimen) : Dimen := whole * unit + part * unit / 65536

/-- Scans further letters `l` of an order of infinity. -/
def orderFrom : Nat → Order → Action Order
  | 0, order => return order
  | n + 1, order => do
    if ← keyword m "l" then orderFrom n order.next else return order

/-- Scans one of some physical units, if it is there. -/
def physicalUnit : List String → Action (Option LengthUnit)
  | [] => return none
  | name :: rest => do
    if ← keyword m name then return LengthUnit.find? name else physicalUnit rest

/-- The order in which physical units are tried. -/
def unitKeywords : List String := ["pt", "in", "pc", "cm", "mm", "bp", "dd", "cc", "sp"]

def reportMagnification (fault : MagnificationFault) (value : Int64) : Action Unit := do
  let e ← get
  match fault with
  | .illegal =>
    reportHere m .illegalMagnification [.number value.toInt, .number e.settings.maxMagnification.toInt]
  | .incompatible =>
    reportHere m .incompatibleMagnification [.number value.toInt, .number e.context.magnification.toInt]

/-- Scans a physical unit, and gives the length of `whole + part/65536` units before a magnification. -/
def physicalLength (whole part magnification : Int64) : Action Dimen := do
  match ← physicalUnit m unitKeywords with
  | some u =>
    let d := u.scale whole part
    optionalSpace m
    return if magnification = 1000 then d else d * 1000 / magnification
  | none =>
    reportHere m .illegalUnit []
    return LengthUnit.pt.scale whole part

/-- Scans a physical unit, possibly a true one, which the magnification does not change. -/
def absoluteUnit (whole part : Int64) : Action Dimen := do
  if ← keyword m "true" then
    let c ← context
    match c.setMagnification c.magnification true with
    | .ok locked =>
      modifyContext fun _ => locked
      physicalLength m whole part c.magnification
    | .error fault =>
      reportMagnification m fault c.magnification
      return 0
  else physicalLength m whole part 1000

/-- Scans a unit of measure: an internal length, a unit of the font, or a physical one. -/
def finiteUnit (whole part : Int64) : Action Dimen := do
  let first ← nonBlank m
  let unit? ← match first with
    | some t => internalDimen? m t
    | none => pure none
  if let some unit := unit? then return timesUnit whole part unit
  if let some t := first then pushBack t
  let font := (← context).style.font
  if ← keyword m "em" then
    optionalSpace m
    return timesUnit whole part font.size
  if ← keyword m "ex" then
    optionalSpace m
    return timesUnit whole part (font.metrics 0x78).height
  absoluteUnit m whole part

/-- Scans the unit of a length of `whole + part/65536` units. Units of infinite order are allowed if
`infinite` is set. -/
def lengthUnit (whole part : Int64) (infinite : Bool) : Action Flex := do
  if infinite then
    if ← keyword m "fil" then
      let order ← orderFrom m 2 .fil
      optionalSpace m
      return ⟨LengthUnit.pt.scale whole part, order⟩
  return ⟨← finiteUnit m whole part, .finite⟩

def isDecimalPoint (t : Token) : Bool := t.isOther '.' || t.isOther ','

/-- Scans the number in front of a unit, as an integer and a fraction. -/
def factor (t : Token) : Action (Int64 × Int64) := do
  if t.isCode then
    match ← internalInteger? m t with
    | some n => return (n, 0)
    | none =>
      pushBack t
      reportHere m .missingNumber []
      return (0, 0)
  if isDecimalPoint t then return (0, ← fraction m)
  let whole ← unsignedNumber m t
  if t.cat = .other && Text.isDigit t.char.toNat then
    match ← m.nextExpanded with
    | some u =>
      if isDecimalPoint u then return (whole, ← fraction m)
      pushBack u
    | none => pure ()
  return (whole, 0)

/-- Scans the unit of a length of `whole + part/65536` units. A length which is too large is reported and cut. -/
def boundedLength (negative : Bool) (whole part : Int64) (infinite : Bool) : Proc Flex Flex := do
  let (negative, whole) := if whole < 0 then (!negative, -whole) else (negative, whole)
  let length ← lengthUnit m whole part infinite
  if length.value > maxDimen then
    Proc.giving (reportHere m .dimensionTooLarge []) (⟨0, length.order⟩ : Flex)
    return ⟨signed negative maxDimen, length.order⟩
  return ⟨signed negative length.value, length.order⟩

/-- Scans a length after its signs. -/
def lengthFrom (negative : Bool) (t : Token) (infinite : Bool) : Proc Flex Flex := do
  match ← Proc.leaving (internalDimen? m t) fun d => (⟨signed negative d, .finite⟩ : Flex) with
  | some d => return ⟨signed negative d, .finite⟩
  | none =>
    let (whole, part) ← factor m t
    boundedLength m negative whole part infinite

def dimension : Proc Dimen Dimen := do
  match ← signs m with
  | (_, none) =>
    reportHere m .missingNumber []
    return 0
  | (negative, some t) => Proc.mapBoth (lengthFrom m negative t false) Flex.value

/-! ## Glue -/

/-- Scans the stretch or shrink of a glue. -/
def flexSpec : Proc Flex Flex := do
  match ← signs m with
  | (_, none) =>
    reportHere m .missingNumber []
    return {}
  | (negative, some t) => lengthFrom m negative t true

/-- Scans the stretch and shrink after the natural length of a glue. -/
def glueFrom (natural : Dimen) : Proc Glue Glue := do
  let mut g := Glue.rigid natural
  if ← Proc.giving (keyword m "plus") g then
    let before := g
    let stretch ← Proc.leaving (flexSpec m) fun f => { before with stretch := f }
    g := { g with stretch }
  if ← Proc.giving (keyword m "minus") g then
    let before := g
    let shrink ← Proc.leaving (flexSpec m) fun f => { before with shrink := f }
    g := { g with shrink }
  return g

/-- Scans a glue: the value of a register, or a length with stretch and shrink. -/
def glueSpec : Proc Glue Glue := do
  match ← signs m with
  | (_, none) =>
    reportHere m .missingNumber []
    return .zero
  | (negative, some t) =>
    match ← quantity? m t with
    | some (.glue value) => Proc.mapBoth value fun g => if negative then g.multiply (-1) else g
    | _ =>
      let length ← Proc.leaving (lengthFrom m negative t false) fun f => Glue.rigid f.value
      glueFrom m length.value

end

end Compositor
