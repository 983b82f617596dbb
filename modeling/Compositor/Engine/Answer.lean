import Compositor.Scope.Interaction
import Compositor.Text.Blank

/-!
# The answers of a user

A user who is asked about an error answers with a line.
-/

namespace Compositor

/-- What a user can answer. -/
def menu : String :=
  "Type <return> to proceed, S to scroll future error messages,\n" ++
  "R to run without stopping, Q to run quietly,\n" ++
  "I to insert something, 1-9 to delete the next tokens,\n" ++
  "H for help, X to quit."

/-- An answer of a user. -/
inductive Answer where
  /-- No answer could be read. -/
  | unreadable
  | proceed
  | help
  /-- Inserts a text in front of the input. -/
  | insert (text : String)
  /-- Deletes the next tokens. -/
  | delete (n : Nat)
  /-- Changes the interaction mode. -/
  | change (mode : Interaction)
  | quit
  | unknown
deriving DecidableEq, Repr

/-- The answer on a line. The line `!` cannot be read. -/
def Answer.ofLine (line : String) : Answer :=
  if line == "!" then unreadable
  else match (Text.trim line).toList with
    | [] => proceed
    | c :: rest =>
      if c == 'h' || c == 'H' then help
      else if c == 'i' || c == 'I' then insert (Text.trim (String.ofList rest))
      else if '1' ≤ c && c ≤ '9' then delete (c.toNat - 0x30)
      else if c == 'q' || c == 'Q' then change .batch
      else if c == 'r' || c == 'R' then change .nonstop
      else if c == 's' || c == 'S' then change .scroll
      else if c == 'x' || c == 'X' then quit
      else unknown

/-- The run is not to go on. -/
def Answer.isRefusal : Answer → Bool
  | unreadable | quit => true
  | _ => false

end Compositor
