import Compositor.Text.Blank
import Compositor.Text.CaseMap
import Compositor.Text.Path

/-!
# Names of fonts

A registry keeps fonts under a normalised name, which carries the style and the weight of the font. Both are
guessed from the name of the file.
-/

namespace Compositor.FontName

open Compositor.Text

/-- The slant of a font. -/
inductive Style where
  | normal
  | italic
  | oblique
deriving DecidableEq, Repr

abbrev Weight := Int

def light : Weight := -1
/-- The weight of regular fonts. -/
def regular : Weight := 0
def bold : Weight := 3
def extraBold : Weight := 4

def Style.number : Style → Int
  | .normal => 0
  | .italic => 1
  | .oblique => 2

/-- The weight which a last part of a name stands for, if it tells one. -/
def weightWord? (word : String) : Option Weight :=
  if word ∈ ["light", "xlight"] then some light
  else if word ∈ ["normal", "medium", "regular", "r"] then some regular
  else if word ∈ ["bold", "b"] then some bold
  else if word ∈ ["xbold", "black"] then some extraBold
  else none

/-- A text occurs within another one. -/
def occursIn (needle : List Char) : List Char → Bool
  | [] => needle.isEmpty
  | c :: cs => needle.isPrefixOf (c :: cs) || occursIn needle cs

/-- The part of a name after its last hyphen, if there is a hyphen. -/
def lastPart? (cs : List Char) : Option (List Char) :=
  if cs.contains '-' then some (cs.reverse.takeWhile (· != '-')).reverse else none

/-- The style and the weight which a file name tells. A last word after a hyphen counts before all else. -/
def guess (file : String) : Style × Weight :=
  let name := Path.base file.toList
  let name := (Text.lowercase (String.ofList (name.take (name.length - (Path.extension name).length)))).toList
  match (lastPart? name).bind fun word => weightWord? (String.ofList word) with
  | some weight => (.normal, weight)
  | none =>
    let tells (word : String) := occursIn word.toList name
    (if tells "italic" then .italic else .normal,
      if tells "bold" then bold else if tells "light" then light else regular)

/-- The name without its last dot and what follows, unless the dot is the first character. -/
def dropExtension (cs : List Char) : List Char :=
  if cs.contains '.' then
    let stem := (cs.reverse.dropWhile (· != '.')).drop 1 |>.reverse
    if stem.isEmpty then cs else stem
  else cs

/-- The key of a font: its name in lower case without blanks and extension, with its style and weight, given
by their numbers. -/
def normalize (name : String) (style : Int) (weight : Weight) : String :=
  let stem := dropExtension ((Text.trim name).toList.map fun c => if c == ' ' then '_' else c)
  Text.lowercase (String.ofList stem) ++
    (if style == 1 || style == 2 then "-italic" else "") ++
    (if weight == -1 || weight == -2 then "-light"
      else if weight == 2 || weight == 3 || weight == 4 then "-bold" else "")

end Compositor.FontName
