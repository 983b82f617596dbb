import Compositor.Engine.Read

/-!
# Definitions and copies of meanings

A definition consists of a control sequence, a parameter text up to the first left brace, and a replacement
text in braces. In the parameter text `#1`, `#2` and so on start the parameters in this order; in the
replacement text they stand for the arguments, and a doubled parameter character stands for itself.

* `ParameterText` is what has been read of a parameter text;
* `parseBody` finds the arguments in a replacement text.
-/

namespace Compositor

/-- What has been read of a parameter text. -/
structure ParameterText where
  /-- The tokens in front of the first parameter. -/
  opening : List Token := []
  /-- The delimiters after each of the parameters. -/
  delimiters : List (List Token) := []
deriving DecidableEq, Repr, Inhabited

namespace ParameterText

def arity (p : ParameterText) : Nat := p.delimiters.length

def push (p : ParameterText) (t : Token) : ParameterText :=
  match p.delimiters.getLast? with
  | none => { p with opening := p.opening ++ [t] }
  | some last => { p with delimiters := p.delimiters.dropLast ++ [last ++ [t]] }

def pushParameter (p : ParameterText) : ParameterText := { p with delimiters := p.delimiters ++ [[]] }

end ParameterText

/-- The number of a parameter which a token stands for after a parameter character. -/
def parameterNumber? (t : Token) : Option Nat :=
  if t.cat = .other && '1' ≤ t.char && t.char ≤ '9' then some (t.char.toNat - 0x30) else none

/-- The items of a replacement text with a given number of parameters. Parameter characters which are followed
by neither a parameter nor another one have no item. The last token stands for itself in any case. -/
def parseBody (arity : Nat) : List Token → List (Option BodyItem)
  | [] => []
  | [t] => [some (.token t)]
  | t :: next :: rest =>
    if t.cat ≠ .parameter then some (.token t) :: parseBody arity (next :: rest)
    else if next.cat = .parameter then some (.token next) :: parseBody arity rest
    else match parameterNumber? next with
      | some n =>
        if n ≤ arity then some (.argument n) :: parseBody arity rest
        else none :: parseBody arity (next :: rest)
      | none => none :: parseBody arity (next :: rest)

/-- The meaning which a control sequence gets as a copy of a token. -/
def copiedMeaning (c : Context) (t : Token) (name : String) : Meaning :=
  if t.isCode then (c.meaning t).getD (.undefined name) else .character name t

section

variable (m : Machine)

def reportParameterCharacter : Action Unit :=
  reportHere m .misplaced ["macro parameter character #"]

/-- Reads a token of a parameter text, or a parameter character with the number after it. -/
def parameterStep (p : ParameterText) : Action (Turn ParameterText ParameterText) := do
  match ← m.next with
  | none => complain .missingToken ["\x7b"]
  | some t =>
    match t.cat with
    | .leftBrace =>
      pushBack t
      return .done p
    | .rightBrace =>
      pushBack t
      complain .missingToken ["\x7b"]
    | .parameter =>
      let next ← m.next
      if next.bind parameterNumber? = some (p.arity + 1) then return .again p.pushParameter
      if let some t := next then pushBack t
      reportParameterCharacter m
      return .again p
    | _ => return .again (p.push t)

/-- Reads a parameter text up to the left brace after it. -/
def parameterText : Action ParameterText := iterate (parameterStep m) m.fuel {}

/-- The items which there are. The missing ones are reported as misplaced parameter characters. -/
def presentItems : List (Option BodyItem) → Action (List BodyItem)
  | [] => return []
  | some item :: rest => return item :: (← presentItems rest)
  | none :: rest => do
    reportParameterCharacter m
    presentItems rest

/-- The items of a replacement text. Misplaced parameter characters are reported and left out. -/
def replacementText (arity : Nat) (text : List Token) : Action (List BodyItem) := presentItems m (parseBody arity text)

/-- Defines the control sequence which follows. The replacement text may be expanded now. -/
def define (modifiers : Modifiers) (globally expanded : Bool) : Action Unit := do
  let target ← controlSequence m
  let p ← parameterText m
  let text ← balancedText m expanded
  let body ← replacementText m p.arity text
  let d : Definition :=
    { name := target.name, opening := p.opening, delimiters := p.delimiters, body,
      isLong := modifiers.isLong, isOuter := modifiers.isOuter, isProtected := modifiers.isProtected }
  modifyContext (·.setMeaning target (some (.definition d)) (globally || modifiers.isGlobal))

/-- The token whose meaning is to be copied, after an optional equals sign and one optional space. -/
def copiedToken : Action (Option Token) := do
  match ← nonBlankRaw m with
  | none => return none
  | some t =>
    if !t.isOther '=' then return some t
    match ← m.next with
    | none => return none
    | some t => if t.cat = .space then m.next else return some t

/-- Gives a control sequence the meaning of a token. -/
def assignMeaning (globally : Bool) : Action Unit := do
  let target ← controlSequence m
  match ← copiedToken m with
  | none => complain .missingToken ["token"]
  | some t =>
    let c ← context
    modifyContext (·.setMeaning target (some (copiedMeaning c t target.name)) globally)

end

end Compositor
