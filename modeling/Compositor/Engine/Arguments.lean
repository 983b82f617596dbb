import Compositor.Engine.Report

/-!
# Arguments of definitions

A use of a defined control sequence is matched against the parameter text of its definition. A parameter with
a delimiter takes everything up to the delimiter, outside of groups; one without takes a single token or a
group. The braces around a whole argument are dropped. An argument of a definition which is not long must not
contain the end of a paragraph.
-/

namespace Compositor

/-- No group of a list is closed before its last token, where `level` groups are open in front of it. -/
def closesOnlyAtEnd : Int → List Token → Bool
  | _, [] => true
  | _, [_] => true
  | level, t :: rest =>
    match t.cat with
    | .leftBrace => closesOnlyAtEnd (level + 1) rest
    | .rightBrace => level - 1 ≠ 0 && closesOnlyAtEnd (level - 1) rest
    | _ => closesOnlyAtEnd level rest

def isSingleGroup (ts : List Token) : Bool :=
  match ts, ts.getLast? with
  | first :: _ :: _, some last =>
    first.cat == .leftBrace && last.cat == .rightBrace && closesOnlyAtEnd 0 ts
  | _, _ => false

/-- A list of tokens without the braces around it, if it is a single group. -/
def stripBraces (ts : List Token) : List Token :=
  if isSingleGroup ts then (ts.drop 1).dropLast else ts

namespace Definition

section

variable (m : Machine) (d : Definition)

/-- Stops with a diagnostic about the use of a definition. -/
def misuse {α : Type} (kind : Kind) : Action α := complain kind [.text ("\\" ++ d.name)]

/-- Puts a token back and stops with a diagnostic about the use of a definition. -/
def refuse {α : Type} (kind : Kind) (t : Token) : Action α := do
  pushBack t
  d.misuse kind

/-- A token of an argument. The input must not end within an argument. -/
def argumentToken : Action Token := do
  match ← m.next with
  | some t => return t
  | none => d.misuse .runawayArgument

/-- The token ends a paragraph, which is not allowed in an argument. -/
def endsParagraph (t : Token) : Bool := !d.isLong && t.isControlSequence && t.name == "par"

/-- Reads the tokens which the parameter text has at this point. -/
def matchTokens : List Token → Action Unit
  | [] => return
  | expected :: rest => do
    let t ← d.argumentToken m
    if t ≠ expected then d.refuse .useDoesntMatch t
    matchTokens rest

/-- Reads a token of a group, with the number of groups open in it and the tokens before it. -/
def groupStep : Nat × List Token → Action (Turn (Nat × List Token) (List Token)) := fun (level, ts) => do
  let t ← d.argumentToken m
  if d.endsParagraph t then d.refuse .runawayArgument t
  match t.nest level with
  | none => return .done ts
  | some level => return .again (level, ts ++ [t])

/-- Reads the rest of a group after its left brace. -/
def groupArgument : Action (List Token) := iterate (d.groupStep m) m.fuel (0, [])

/-- Reads an argument without a delimiter, or a space in front of it. -/
def undelimitedStep : Action (Turn Unit (List Token)) := do
  let t ← d.argumentToken m
  if t.cat = .space then return .again ()
  if d.endsParagraph t then d.refuse .runawayArgument t
  match t.cat with
  | .rightBrace => d.refuse .useDoesntMatch t
  | .leftBrace => return .done (← d.groupArgument m)
  | _ => return .done [t]

/-- Reads an argument without a delimiter: a token which is not a space, or a group. -/
def undelimitedArgument : Action (List Token) := iterate (fun _ => d.undelimitedStep m) m.fuel ()

/-- Reads a token of an argument or of its delimiter, with the number of groups open and the tokens before it. -/
def delimitedStep (delimiter : List Token) :
    Nat × List Token → Action (Turn (Nat × List Token) (List Token)) := fun (level, ts) => do
  let t ← d.argumentToken m
  if d.endsParagraph t then d.refuse .runawayArgument t
  match t.nest level with
  | none => d.refuse .useDoesntMatch t
  | some level =>
    let ts := ts ++ [t]
    if level = 0 && delimiter.isSuffixOf ts then
      return .done (stripBraces (ts.take (ts.length - delimiter.length)))
    return .again (level, ts)

def delimitedArgument (delimiter : List Token) : Action (List Token) :=
  iterate (d.delimitedStep m delimiter) m.fuel (0, [])

def readArguments : List (List Token) → Action (List (List Token))
  | [] => return []
  | delimiter :: rest => do
    let argument ← if delimiter.isEmpty then d.undelimitedArgument m else d.delimitedArgument m delimiter
    return argument :: (← readArguments rest)

/-- The replacement text of a use of a definition. -/
def expand : Action (List Token) := do
  d.matchTokens m d.opening
  return d.substitute (← d.readArguments m d.delimiters)

end

end Definition

end Compositor
