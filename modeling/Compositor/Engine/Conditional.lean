import Compositor.Engine.Quantity

/-!
# Conditionals

A conditional selects one of several branches. Branches which are not selected are skipped without looking at
anything but conditionals and their end marks. A conditional whose branch is executed stays on the stack of
the context until its end mark is met.

While a condition is evaluated, its conditional is on the stack as well. An end mark met then belongs to no
branch; it ends the condition, and is read again after a `relax` of a name space of its own.
-/

namespace Compositor

open Compositor.Measure

/-- The relations between numbers. -/
inductive Relation where
  | less
  | equal
  | greater
deriving DecidableEq, Repr

def Relation.holds (r : Relation) (a b : Int64) : Bool :=
  match r with
  | less => a < b
  | equal => a = b
  | greater => a > b

def Relation.ofToken? (t : Token) : Option Relation :=
  if t.isOther '<' then some less
  else if t.isOther '=' then some equal
  else if t.isOther '>' then some greater
  else none

/-- The meaning of a token as conditionals compare it. Characters mean themselves; a copy of an undefined
control sequence is undefined, too. -/
def resolve (c : Context) (t : Token) : Option Meaning :=
  if t.isCode then
    match c.meaning t with
    | some (.undefined _) => none
    | found => found
  else some (.character "" t)

/-- Two tokens have the same meaning. -/
def sameMeaning (c : Context) (a b : Token) : Bool :=
  match resolve c a, resolve c b with
  | none, none => true
  | some a, some b => a.same b
  | _, _ => false

def ModeTest.passes (t : ModeTest) (mode : Mode) : Bool :=
  match t with
  | vertical => mode.isVertical
  | horizontal => mode.isHorizontal
  | math => mode.isMath
  | inner => mode.isInner

/-- What skipping looks for in a token. -/
inductive SkipClass where
  /-- The start of a conditional. -/
  | start
  /-- An end mark. -/
  | mark (e : EndMark)
  /-- Anything else. -/
  | text
deriving DecidableEq, Repr

def SkipClass.ofMeaning : Option Meaning → SkipClass
  | some (.primitive _ _ (.condition _)) => start
  | some (.primitive _ _ .switch) => start
  | some (.primitive _ _ (.endMark e)) => mark e
  | _ => text

/-- How skipping goes on after a token, with a number of conditionals started and not ended before it: to the
next token, or no further. An `or` ends it only if `atOr` is set. -/
def SkipClass.pass (atOr : Bool) : SkipClass → Nat → Turn Nat EndMark
  | start, level => .again (level + 1)
  | mark .fiMark, 0 => .done .fiMark
  | mark .fiMark, level + 1 => .again level
  | mark .elseMark, 0 => .done .elseMark
  | mark .orMark, 0 => if atOr then .done .orMark else .again 0
  | _, level => .again level

section

variable (m : Machine)

/-- Scans a relation. A missing one is reported and taken for equality. A control sequence without a name is
dropped. -/
def relation : Action Relation := do
  let first ← nonBlank m
  match first.bind Relation.ofToken? with
  | some r => return r
  | none =>
    if let some t := first then
      if t.name != "" then pushBack t
    reportHere m .missingToken ["="]
    return .equal

/-- The character and the category of the next token, with expansion. Control sequences which do not stand
for a character have none. -/
def nextCharacter : Action (Option Token) := do
  match ← m.nextExpanded with
  | none => return none
  | some t =>
    if t.isCode then
      match resolve (← context) t with
      | some (.character _ t) => return some t
      | _ => return none
    else return some t

/-- The character code which conditionals compare; tokens without a character have the code 256. -/
def comparedCode (t : Option Token) : Nat :=
  match t with
  | some t => t.char.toNat
  | none => 256

/-- The category code which conditionals compare; tokens without a character have the code 16. -/
def comparedCategory (t : Option Token) : Nat :=
  match t with
  | some t => t.cat.code
  | none => 16

def evaluate : Condition → Proc Bool Bool
  | .constant value => return value
  | .number => do
    let a ← m.number
    let r ← relation m
    let b ← m.number
    return r.holds a b
  | .dimension => do
    let a ← dimension m
    let r ← relation m
    let b ← dimension m
    return r.holds a b
  | .odd => do
    let n ← m.number
    return n % 2 ≠ 0
  | .sameMeaning => do
    match ← m.next with
    | none => return false
    | some a =>
      match ← m.next with
      | none => return false
      | some b => return sameMeaning (← context) a b
  | .sameCharacter => do
    let a ← nextCharacter m
    let b ← nextCharacter m
    return comparedCode a = comparedCode b
  | .sameCategory => do
    let a ← nextCharacter m
    let b ← nextCharacter m
    return comparedCategory a = comparedCategory b
  | .mode test => return test.passes (← get).typesetter.mode

/-- Skips a token of a conditional. The input must not end before the end mark. -/
def skipStep (c : Conditional) (atOr : Bool) (level : Nat) : Action (Turn Nat EndMark) := do
  match ← m.next with
  | none => complain .inputEndedInSkip [.text ("\\" ++ c.name), .number c.place.line]
  | some t => return (SkipClass.ofMeaning (← meaningOf t)).pass atOr level

/-- Skips to the end mark of a conditional, `or` being one only if `atOr` is set. -/
def skip (c : Conditional) (atOr : Bool) : Action EndMark := iterate (skipStep m c atOr) m.fuel 0

/-- Starts the branch with number `n` if it is the selected one, and skips it otherwise. A number without a
branch selects the alternative one, if there is one. -/
def selectStep (c : Conditional) (n : Nat) : Action (Turn Nat Unit) := do
  if n = c.branch.toInt then
    modifyContext (·.pushConditional c)
    return .done ()
  match ← skip m c true with
  | .orMark => return .again (n + 1)
  | .elseMark =>
    modifyContext (·.pushConditional { c with value := false })
    return .done ()
  | .fiMark => return .done ()

/-- Skips to the branch which a conditional with numbered branches selects. -/
def selectCase (c : Conditional) : Action Unit := iterate (selectStep m c) m.fuel 0

/-- Evaluates the condition of a conditional, which is on the stack meanwhile. What stops it is reported. -/
def decide {β : Type} (c : Conditional) (x : Proc β β) : Action β := do
  modifyContext (·.pushConditional { c with evaluating := true })
  absorb m (x.afterwards (·.modifyContext (·.dropConditional c.id)))

/-- Starts a conditional with numbered branches. -/
def startSwitch (name : String) : Action Unit := do
  let c : Conditional := { id := ← freshId, place := ← locator, name, isSwitch := true }
  let branch ← decide m c m.number
  selectCase m { c with branch, value := true }

/-- Starts the branch of a conditional which is decided, and looks for the other one if it is not selected. -/
def startBranch (c : Conditional) : Action Unit := do
  if c.value then modifyContext (·.pushConditional c)
  else
    match ← skip m c false with
    | .elseMark => modifyContext (·.pushConditional c)
    | _ => return

def startConditional (name : String) (condition : Condition) (negated : Bool) : Action Unit := do
  let c : Conditional := { id := ← freshId, place := ← locator, name, negated }
  let value ← decide m c (evaluate m condition)
  startBranch m { c with value := value != negated }

def skipToFiStep (c : Conditional) : Action (Turn Unit Unit) := do
  match ← skip m c false with
  | .fiMark => return .done ()
  | _ => return .again ()

/-- Skips to the end of a conditional, whatever its branches are. -/
def skipToFi (c : Conditional) : Action Unit := iterate (fun _ => skipToFiStep m c) m.fuel ()

/-- Ends the branch of a conditional which is being executed, and skips the other ones. -/
def leaveBranch (c : Conditional) : Action Unit := do
  modifyContext Context.popConditional
  skipToFi m c

/-- Processes an end mark met in a branch or in a condition. -/
def endBranch (t : Token) (mark : EndMark) : Action Unit := do
  match (← context).conditionals.head?, mark with
  | none, .fiMark => reportHere m .extraFi []
  | none, .elseMark => reportHere m .extraElse []
  | none, .orMark => reportHere m .extraOr []
  | some c, mark =>
    if c.evaluating then
      pushBack t
      pushBack frozenRelaxToken
    else
      match mark with
      | .fiMark => modifyContext Context.popConditional
      | .elseMark => if c.value then leaveBranch m c else reportHere m .extraElse []
      | .orMark => if c.isSwitch && c.value then leaveBranch m c else reportHere m .extraOr []

/-- Negates the conditional which follows. -/
def negateNext (name : String) : Action Unit := do
  match ← m.next with
  | none => return
  | some t =>
    match ← meaningOf t with
    | some (.primitive _ name (.condition c)) => startConditional m name c true
    | _ =>
      pushBack t
      reportHere m .misplaced [.text ("\\" ++ name)]

end

end Compositor
