import Compositor.Text.Blank

/-!
# Paths

The parts of the path of a file. Slashes divide its steps.
-/

namespace Compositor.Text.Path

/-- The part of a path after its last slash. Slashes at the end are ignored. -/
def base (path : List Char) : List Char :=
  if path.isEmpty then ['.']
  else
    match dropTail (· == '/') path with
    | [] => ['/']
    | trimmed => (trimmed.reverse.takeWhile (· != '/')).reverse

/-- The extension of a file name with its dot, empty if there is none. -/
def extension (path : List Char) : List Char :=
  let last := path.reverse.takeWhile (· != '/')
  if last.contains '.' then '.' :: (last.takeWhile (· != '.')).reverse else []

end Compositor.Text.Path
