import Compositor.Measure.Dimen

/-!
# Glue

Glue is a length which can stretch and shrink. Stretch and shrink have an order of infinity; a component of a
higher order outweighs every component of a lower one.
-/

namespace Compositor.Measure

/-- An order of infinity. The orders `fil`, `fill` and `filll` have the ranks 1 to 3, finite glue has rank 0. -/
structure Order where
  rank : Int
deriving DecidableEq, Repr

namespace Order

def finite : Order := ⟨0⟩
def fil : Order := ⟨1⟩
def fill : Order := ⟨2⟩
def filll : Order := ⟨3⟩

instance : Inhabited Order := ⟨finite⟩

/-- The unit which is written after a component of an order. -/
def name (o : Order) : String :=
  match o.rank with
  | 1 => "fil"
  | 2 => "fill"
  | 3 => "filll"
  | _ => "pt"

def next (o : Order) : Order := ⟨o.rank + 1⟩

end Order

/-- The stretch or shrink of a glue. -/
structure Flex where
  value : Dimen := 0
  order : Order := .finite
deriving DecidableEq, Repr, Inhabited

namespace Flex

/-- A component with its unit. -/
def format (f : Flex) : String := formatScaled f.value ++ f.order.name

def add (a b : Flex) : Flex :=
  if a.order = b.order then ⟨a.value + b.value, a.order⟩
  else if b.value ≠ 0 ∧ (b.order.rank > a.order.rank ∨ a.value = 0) then b
  else a

end Flex

/-- A length with stretch and shrink. -/
structure Glue where
  natural : Dimen := 0
  stretch : Flex := {}
  shrink : Flex := {}
deriving DecidableEq, Repr, Inhabited

namespace Glue

/-- The glue of no length which can neither stretch nor shrink. -/
def zero : Glue := {}

/-- A length without stretch and shrink. -/
def rigid (d : Dimen) : Glue := ⟨d, {}, {}⟩

def finite (natural stretch shrink : Dimen) : Glue :=
  ⟨natural, ⟨stretch, .finite⟩, ⟨shrink, .finite⟩⟩

/-- The glue has neither length nor stretch nor shrink. -/
def isZero (g : Glue) : Bool := g == zero

def add (a b : Glue) : Glue :=
  ⟨a.natural + b.natural, a.stretch.add b.stretch, a.shrink.add b.shrink⟩

/-- Every component of a glue changed by a function on lengths. -/
def mapValues (f : Dimen → Dimen) (g : Glue) : Glue :=
  ⟨f g.natural, ⟨f g.stretch.value, g.stretch.order⟩, ⟨f g.shrink.value, g.shrink.order⟩⟩

def multiply (g : Glue) (n : Int64) : Glue := g.mapValues (· * n)

/-- All components divided by `n` and truncated, nothing if `n` is zero. -/
def divide? (g : Glue) (n : Int64) : Option Glue :=
  if n = 0 then none else some (g.mapValues (· / n))

/-- The glue in words, as in `3.0pt plus 1.0fil minus 2.0pt`. -/
def format (g : Glue) : String :=
  Dimen.format g.natural ++
    (if g.stretch.value ≠ 0 then " plus " ++ g.stretch.format else "") ++
    (if g.shrink.value ≠ 0 then " minus " ++ g.shrink.format else "")

end Glue

end Compositor.Measure
