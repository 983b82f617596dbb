import Compositor.Engine.State

/-!
# Procedures of the engine

A procedure reads and changes the state of the engine. It delivers a value, or it is stopped by a diagnostic;
what it has changed up to then stays. A scanner which is stopped also tells what it had scanned by then, so a
procedure has two types: that of its value, and that of the value it leaves when it is stopped.

The engine is recursive: a number may contain control sequences whose expansion scans numbers, and a box is
made by executing commands. All recursion goes through a `Machine`, which holds the five procedures that may
call themselves, each with less fuel than its caller. `iterate` repeats a step for as long as there is fuel.
-/

namespace Compositor

/-- What stops a procedure. -/
inductive Stop where
  /-- A problem with the text of the run. -/
  | diagnostic (d : Diagnostic)
  /-- The procedure needs more steps than it was allowed. -/
  | outOfFuel
deriving DecidableEq, Repr

/-- How a procedure was stopped, and the value it leaves. -/
structure Interrupted (β : Type) where
  cause : Stop
  sofar : β
deriving Repr

/-- A procedure with a value in `α`, which leaves a value in `β` when it is stopped. -/
abbrev Proc (β : Type) : Type → Type := EStateM (Interrupted β) Engine

/-- A procedure which leaves nothing when it is stopped. -/
abbrev Action : Type → Type := Proc Unit

namespace Proc

variable {α β γ : Type}

/-- The procedure with another value left when it is stopped. -/
def leaving (x : Proc γ α) (f : γ → β) : Proc β α := fun e =>
  match x e with
  | .ok a e => .ok a e
  | .error i e => .error ⟨i.cause, f i.sofar⟩ e

/-- The procedure with a fixed value left when it is stopped. -/
def giving (x : Proc γ α) (b : β) : Proc β α := leaving x fun _ => b

/-- The scanner with a function applied to its value, also to the one left when it is stopped. -/
def mapBoth (x : Proc α α) (f : α → β) : Proc β β := fun e =>
  match x e with
  | .ok a e => .ok (f a) e
  | .error i e => .error ⟨i.cause, f i.sofar⟩ e

/-- The procedure followed by a change of the state if it is stopped. -/
def onStop (x : Proc β α) (f : Engine → Engine) : Proc β α := fun e =>
  match x e with
  | .ok a e => .ok a e
  | .error i e => .error i (f e)

/-- The procedure followed by a change of the state, whether it is stopped or not. -/
def afterwards (x : Proc β α) (f : Engine → Engine) : Proc β α := fun e =>
  match x e with
  | .ok a e => .ok a (f e)
  | .error i e => .error i (f e)

end Proc

/-- A procedure leaves the default value if nothing else is said. -/
instance {β γ : Type} [Inhabited β] : MonadLiftT (Proc γ) (Proc β) := ⟨fun x => x.giving default⟩

section Basics

variable {β : Type}

def locator : Proc β Locator := return (← get).locator

def context : Proc β Context := return (← get).context

def modifyContext (f : Context → Context) : Proc β Unit := modify (·.modifyContext f)

def modifyTypesetter (f : Typesetter → Typesetter) : Proc β Unit := modify (·.modifyTypesetter f)

def pushTokens (ts : List Token) : Proc β Unit := modify (·.pushTokens ts)

def pushBack (t : Token) : Proc β Unit := pushTokens [t]

/-- The meaning of a token. Only control sequences and active characters have one. -/
def meaningOf (t : Token) : Proc β (Option Meaning) := do
  if t.isCode then return (← context).meaning t else return none

/-- A number which no meaning and no conditional has had before. -/
def freshId : Proc β Nat := modifyGet fun e => (e.serial, { e with serial := e.serial + 1 })

/-- A diagnostic about the place which is being read. -/
def diagnosticHere (kind : Kind) (arguments : List Argument) : Proc β Diagnostic :=
  return { kind, place := ← locator, arguments }

def record (entry : TraceEntry) : Proc β Unit := modify (·.record entry)

/-- Notes which token is executed, and in which conditionals. -/
def recordDispatch (t : Token) : Proc β Unit := do record (.dispatched t (← context).conditionals)

/-- Stops with a diagnostic. -/
def stopWith {α : Type} (d : Diagnostic) : Action α := do
  record (.stopped d)
  throw ⟨.diagnostic d, ()⟩

/-- Stops with a diagnostic about the place which is being read. -/
def complain {α : Type} (kind : Kind) (arguments : List Argument) : Action α := do
  stopWith (← diagnosticHere kind arguments)

end Basics

/-- What comes after a step of a loop. -/
inductive Turn (σ ρ : Type) where
  | again (state : σ)
  | done (result : ρ)

def iterate {β σ ρ : Type} [Inhabited β] (step : σ → Proc β (Turn σ ρ)) : Nat → σ → Proc β ρ
  | 0, _ => throw ⟨.outOfFuel, default⟩
  | fuel + 1, state => do
    match ← step state with
    | .again state => iterate step fuel state
    | .done result => return result

/-- The procedures of an engine which may call themselves. -/
structure Machine where
  /-- How often a loop may be repeated. -/
  fuel : Nat
  /-- The next token, nothing at the end of the input. -/
  next : Action (Option Token)
  /-- The next token which is not expandable. -/
  nextExpanded : Proc Token (Option Token)
  /-- Scans an integer. -/
  number : Proc Int64 Int64
  /-- Expands a token by a single level and puts the result in front of the input. -/
  expandOnce : Token → Action Unit
  /-- Executes commands until the run is halted or there are fewer open groups than given. Tells if the input
  came to its end before. -/
  execute : Nat → Action Bool

def Machine.stuck : Machine where
  fuel := 0
  next := throw ⟨.outOfFuel, ()⟩
  nextExpanded := throw ⟨.outOfFuel, default⟩
  number := throw ⟨.outOfFuel, 0⟩
  expandOnce := fun _ => throw ⟨.outOfFuel, ()⟩
  execute := fun _ => throw ⟨.outOfFuel, ()⟩

end Compositor
