import Compositor.Engine.Report

/-!
# Reading tokens

The simplest scanners: the next token of the input, and tokens which are skipped or expected.
-/

namespace Compositor

/-- What takes the place of a control sequence which is not there. -/
def inaccessible : Token := .controlSequence "inaccessible " ""

section

variable (m : Machine)

/-- The next token of the input. Invalid characters are reported and skipped. -/
def readToken : Action (Option Token) :=
  iterate (fun _ => do
    let e ← get
    let (pulled, input) := e.input.pull e.context.lexicon
    set { e with input }
    match pulled with
    | .token t => return .done (some t)
    | .exhausted => return .done none
    | .invalid c place =>
      report m { kind := .invalidCharacter, place, arguments := [.code c.toNat] }
      return .again ()) m.fuel ()

/-- Whether the token just read is the one looked for: one which is not a space. -/
def skipSpace (t : Option Token) : Turn Unit (Option Token) :=
  match t with
  | some t => if t.cat = .space then .again () else .done (some t)
  | none => .done none

/-- The next token which is not a space, with expansion. -/
def nonBlank : Proc Token (Option Token) := iterate (fun _ => return skipSpace (← m.nextExpanded)) m.fuel ()

/-- The next token which is not a space, without expansion. -/
def nonBlankRaw : Action (Option Token) := iterate (fun _ => return skipSpace (← m.next)) m.fuel ()

def optionalSpace : Action Unit := do
  match ← m.nextExpanded with
  | some t => if t.cat ≠ .space then pushBack t
  | none => return

/-- Skips spaces and an equals sign, if there is one. -/
def optionalEquals : Action Unit := do
  match ← nonBlank m with
  | some t => unless t.isOther '=' do pushBack t
  | none => return

/-- A token is the letter `c` of a keyword, in lower or upper case. -/
def spells (t : Token) (c : Char) : Bool :=
  !t.isCode && (t.char == c || t.char == charOfCode (Text.toUpper c.toNat))

/-- Reads the next letter of a keyword, given those in `matched` before it. If it is not there, everything is put back.
Spaces in front of the first letter are skipped. -/
def keywordStep : List Token × List Char → Proc Bool (Turn (List Token × List Char) Bool) := fun (matched, letters) => do
  match letters with
  | [] => return .done true
  | c :: rest =>
    let next : Proc Bool (Option Token) := Proc.giving m.nextExpanded false
    match ← Proc.onStop next (·.pushTokens matched) with
    | none =>
      pushTokens matched
      return .done false
    | some t =>
      if spells t c then return .again (matched ++ [t], rest)
      else if t.cat = .space && matched.isEmpty then return .again (matched, letters)
      else
        pushBack t
        pushTokens matched
        return .done false

/-- Scans the letters of a keyword after those in `matched`. -/
def keywordFrom (matched : List Token) (letters : List Char) : Proc Bool Bool :=
  iterate (keywordStep m) m.fuel (matched, letters)

def keyword (word : String) : Proc Bool Bool := keywordFrom m [] word.toList

/-- Scans a control sequence or active character, skipping spaces. A missing one is reported. -/
def controlSequence : Proc Token Token := do
  match ← nonBlankRaw m with
  | some t =>
    if t.isCode then return t
    pushBack t
  | none => pure ()
  Proc.giving (reportHere m .missingControlSequence []) inaccessible
  return inaccessible

/-- A character which belongs to a name of a file or font. -/
def belongsToName (t : Token) : Bool := !t.isCode && t.cat != .leftBrace && t.cat != .rightBrace

/-- Scans the name of a file or font: characters up to a space, a brace or a control sequence. -/
def fileName : Proc String String := do
  match ← nonBlank m with
  | none => return ""
  | some first =>
    iterate (fun (name, t) => do
      if !belongsToName t then
        pushBack t
        return .done name
      if t.cat = .space then return .done name
      let name := name ++ t.name
      match ← Proc.giving m.nextExpanded name with
      | some t => return .again (name, t)
      | none => return .done name) m.fuel ("", first)

/-- Reads a token of a text in braces, as given by `next`, with the number of groups open in the text and the
tokens before it. -/
def textStep (next : Action (Option Token)) :
    Nat × List Token → Proc (List Token) (Turn (Nat × List Token) (List Token)) := fun (level, ts) => do
  match ← Proc.giving next ts with
  | none =>
    Proc.giving (reportHere m .missingToken ["\x7d"]) ts
    return .done ts
  | some t =>
    match t.nest level with
    | none => return .done ts
    | some level => return .again (level, ts ++ [t])

/-- Reads tokens up to the right brace which closes the group. -/
def untilRightBrace (next : Action (Option Token)) : Proc (List Token) (List Token) :=
  iterate (textStep m next) m.fuel (0, [])

/-- Reads a left brace, skipping spaces. A missing one is reported and taken to be there. -/
def openingBrace : Action Unit := do
  let first ← nonBlank m
  let opened : Bool := match first with
    | some t => t.cat == .leftBrace
    | none => false
  unless opened do
    if let some t := first then pushBack t
    reportHere m .missingToken ["\x7b"]

/-- Scans a text in braces, with expansion or without. -/
def balancedText (expanded : Bool) : Proc (List Token) (List Token) := do
  openingBrace m
  untilRightBrace m (if expanded then Proc.giving m.nextExpanded () else m.next)

end

end Compositor
