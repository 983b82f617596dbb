import Compositor.Engine.Arguments
import Compositor.Engine.Quantity
import Compositor.Text.Roman

/-!
# Expansions

Control sequences which are replaced by a list of tokens before anything is executed.
-/

namespace Compositor

open Compositor.Measure

/-- The tokens which replace a control sequence, and a diagnostic to report before they are read. -/
structure Replacement where
  tokens : List Token := []
  problem : Option Diagnostic := none
deriving Repr, Inhabited

/-- The name of a control sequence with the escape character of the run in front, if there is one. -/
def escapedName (c : Context) (name : String) : String :=
  let escape := c.count "escapechar"
  if escape < 0 ∨ escape > maxCodePoint then name
  else (charOfCode escape.toInt.toNat).toString ++ name

/-- A meaning in words, with the escape character of the run. -/
def shownMeaning (c : Context) (m : Option Meaning) : String :=
  match (Meaning.describe m).toList with
  | '\\' :: rest => escapedName c (String.ofList rest)
  | cs => String.ofList cs

section

variable (m : Machine)

/-- Expands the token after the next one, which is then read first. -/
def expandAfter : Action Replacement := do
  match ← m.next with
  | none => return {}
  | some first =>
    match ← Proc.onStop m.next (·.pushTokens [first]) with
    | none =>
      pushBack first
      return {}
    | some second =>
      m.expandOnce second
      pushBack first
      return {}

/-- The characters of the quantity which follows, or the tokens of a token register. -/
def the : Action Replacement := do
  match ← m.nextExpanded with
  | none => return {}
  | some t =>
    match ← quantity? m t with
    | some (.toks value) => return { tokens := ← value }
    | some (.glue value) =>
      let g ← value
      return { tokens := Token.otherTokens g.format }
    | some (.dimen value) =>
      let d ← value
      return { tokens := Token.otherTokens (Dimen.format d) }
    | some (.count value) =>
      let n ← value
      return { tokens := Token.otherTokens (Text.decimal n) }
    | none =>
      return { tokens := Token.otherTokens "0"
               problem := some (← diagnosticHere .cantUseAfterThe [.text t.format]) }

/-- The characters of the next token. -/
def stringOfToken : Action Replacement := do
  match ← m.next with
  | none => return {}
  | some t =>
    if t.isControlSequence then return { tokens := Token.otherTokens (escapedName (← context) t.name) }
    else if t.cat = .space then return { tokens := [.blank] }
    else return { tokens := [.other t.char] }

def meaningOfToken : Action Replacement := do
  match ← m.next with
  | none => return {}
  | some t =>
    if t.isCode then
      let c ← context
      return { tokens := Token.otherTokens (shownMeaning c (c.meaning t)) }
    else return { tokens := Token.otherTokens t.describeCharacter }

def isEndName : Option Meaning → Bool
  | some (.primitive _ _ (.command .endName)) => true
  | _ => false

/-- Reads the characters of a name up to its end. Tells the problem if the end is not where it should be. -/
def nameCharacters : Action (String × Option Diagnostic) :=
  iterate (fun name => do
    match ← m.nextExpanded with
    | none => return .done (name, some (← diagnosticHere .missingEndName []))
    | some t =>
      if !t.isCode then return .again (name ++ t.name)
      if isEndName (← meaningOf t) then return .done (name, none)
      pushBack t
      return .done (name, some (← diagnosticHere .missingEndName []))) m.fuel ""

/-- The control sequence with the name which follows. If it is undefined, it gets the meaning of a new
`relax`. -/
def controlSequenceName : Action Replacement := do
  let (name, problem) ← nameCharacters m
  let c ← context
  let t := Token.controlSequence name c.space
  if (c.meaning t).isNone then
    let id ← freshId
    modifyContext (·.setMeaning t (some (.primitive id "relax" (.command .relax))) false)
  return { tokens := [t], problem }

/-- What replaces an expandable primitive. -/
def replacement : Expansion → Action Replacement
  | .expandAfter => expandAfter m
  | .the => the m
  | .number => do
    let n ← m.number
    return { tokens := Token.otherTokens (Text.decimal n) }
  | .romanNumeral => do
    let n ← m.number
    return { tokens := Token.otherTokens (Text.roman n) }
  | .string => stringOfToken m
  | .meaning => meaningOfToken m
  | .controlSequenceName => controlSequenceName m

/-- Puts a replacement in front of the input, after reporting its problem. If it cannot be found, the reason
is reported and nothing takes its place. -/
def insertReplacement (x : Action Replacement) : Action Unit := do
  let r ← absorb m (x.giving ({} : Replacement))
  if let some d := r.problem then report m d
  pushTokens r.tokens

end

end Compositor
