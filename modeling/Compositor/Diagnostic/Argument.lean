import Compositor.Text.Decimal
import Compositor.Text.Quoted

/-!
# Arguments of messages

A message has places for its arguments, marked by a percent sign and a letter: `s` for a text or a number,
`U` for a code point. Arguments and places belong together from left to right. What does not fit is told in
the message itself: an argument of another sort than its place asks for, a place without an argument, and
arguments without a place.
-/

namespace Compositor

/-- An argument of the texts of a diagnostic. -/
inductive Argument where
  | text (s : String)
  | number (n : Int)
  | code (point : Int)
deriving DecidableEq, Repr

instance : Coe String Argument := ⟨.text⟩

namespace Argument

/-- The sort and the value of an argument, for an argument which does not fit. Only the digits of code points
are grouped, by a mark between every three of them: a number is a text already. -/
def describe (mark : String) : Argument → String
  | text s => "string=" ++ s
  | number n => "string=" ++ toString n
  | code point => "int32=" ++ Text.grouped mark point

/-- The argument as it is put into a place, told with its sort if the place asks for another one. A negative
code point is written as the word of 64 bits which stands for it. -/
def fill (mark : String) (place : Char) : Argument → String
  | text s => if place == 's' then s else misfit (text s)
  | number n => if place == 's' then toString n else misfit (number n)
  | code point => if place == 'U' then Text.codeLabel (point % Text.wordCount).toNat else misfit (code point)
where
  misfit (a : Argument) : String := "%!" ++ place.toString ++ "(" ++ a.describe mark ++ ")"

end Argument

/-- A text with its places filled by arguments, from left to right. -/
def fillPlaces (mark : String) : List Char → List Argument → String
  | '%' :: place :: rest, a :: as => a.fill mark place ++ fillPlaces mark rest as
  | '%' :: place :: rest, [] => "%!" ++ place.toString ++ "(MISSING)" ++ fillPlaces mark rest []
  | c :: rest, as => c.toString ++ fillPlaces mark rest as
  | [], [] => ""
  | [], a :: as => "%!(EXTRA " ++ String.intercalate ", " ((a :: as).map (·.describe mark)) ++ ")"

/-- A text with its arguments. A text without places ignores them. -/
def fillText (mark : String) (text : String) (arguments : List Argument) : String :=
  if text.toList.contains '%' then fillPlaces mark text.toList arguments else text

end Compositor
