/-!
# Positions in the input
-/

namespace Compositor

/-- A position in a source. Lines and columns are counted from one; line zero is no position at all. -/
structure Locator where
  source : String := ""
  line : Int := 0
  column : Int := 0
deriving DecidableEq, Repr, Inhabited

/-- A position as in `doc:3:14`, or `l.3` if the source has no name. -/
def Locator.format (l : Locator) : String :=
  if l.source == "" then "l." ++ toString l.line
  else l.source ++ ":" ++ toString l.line ++ ":" ++ toString l.column

end Compositor
