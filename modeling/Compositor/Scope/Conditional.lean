import Compositor.Token.Locator

/-!
# Open conditionals

A conditional is open from its start to its end mark. While its condition is being evaluated it is marked, so
that an end mark which the condition runs into is not taken for that of an outer conditional.
-/

namespace Compositor

/-- A conditional whose branch is being executed, or whose condition is being evaluated. -/
structure Conditional where
  /-- Tells conditionals apart. -/
  id : Nat
  place : Locator := {}
  /-- The name of the conditional. -/
  name : String := ""
  /-- The branch being executed is not the alternative one. -/
  value : Bool := false
  /-- The selected case. -/
  branch : Int64 := 0
  /-- The condition is negated. -/
  negated : Bool := false
  /-- The conditional selects one of many cases. -/
  isSwitch : Bool := false
  /-- The condition is not yet decided. -/
  evaluating : Bool := false
deriving DecidableEq, Repr

def Conditional.format (c : Conditional) : String :=
  "\\" ++ c.name ++ "[" ++ (if c.isSwitch then toString c.branch.toInt else toString c.value) ++ "] at " ++
    c.place.format

/-- The stack without the conditional with an id. Those above it keep their order. -/
def dropConditional (id : Nat) : List Conditional → List Conditional
  | [] => []
  | c :: cs => if c.id = id then cs else c :: dropConditional id cs

end Compositor
