import Compositor.Text.Path

/-!
# The files of a run

The files which a run may read, by their paths. A file asked for without an extension may also be found with
the extension of source files.
-/

namespace Compositor

/-- Files with their contents. -/
structure FileStore where
  files : List (String × String) := []
deriving Repr, Inhabited

namespace FileStore

/-- The steps of a path without empty and dotted ones, after some steps taken before, the latest first. Two
dots take back the step before; there is no way out of the store. -/
def resolve : List String → List String → Option (List String)
  | taken, [] => some taken.reverse
  | taken, step :: rest =>
    if step == "" || step == "." then resolve taken rest
    else if step == ".." then
      match taken with
      | [] => none
      | _ :: taken => resolve taken rest
    else resolve (step :: taken) rest

def cleanPath? (path : String) : Option String :=
  if path.startsWith "/" then none
  else (resolve [] (path.splitOn "/")).map (String.intercalate "/")

def sourceExtension : String := ".tex"

/-- The paths under which a file with a clean path is looked for. -/
def candidates (path : String) : List String :=
  if (Text.Path.extension path.toList).isEmpty then [path, path ++ sourceExtension] else [path]

/-- The name and the contents of the file which is found for a name. -/
def find? (store : FileStore) (name : String) : Option (String × String) := do
  let path ← cleanPath? name
  (candidates path).findSome? fun path =>
    (store.files.lookup path).map fun contents => (String.ofList (Text.Path.base path.toList), contents)

end FileStore

end Compositor
