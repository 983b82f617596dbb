import Compositor.Measure.Scaled
import Compositor.Text.Blank
import Compositor.Text.CaseMap
import Compositor.Text.Letter

/-!
# Dimensions and units of measure

A dimension is a length in scaled points. `Dimen.parse` reads a dimension with a physical unit from a text, as
settings give it; the scanner of the engine reads dimensions from tokens.
-/

namespace Compositor.Measure

/-- A length in scaled points. -/
abbrev Dimen := Int64

/-- A printer's point. -/
def point : Dimen := 65536

def maxDimen : Dimen := 1073741823

/-- A unit of measure, as a ratio of printer's points. -/
structure LengthUnit where
  name : String
  numerator : Int64
  denominator : Int64
deriving DecidableEq, Repr

namespace LengthUnit

/-- The printer's point as a unit. -/
def pt : LengthUnit := ⟨"pt", 1, 1⟩

/-- The physical units: point, pica, inch, big point, centimetre, millimetre, Didot point, cicero and
scaled point. -/
def physical : List LengthUnit :=
  [pt, ⟨"pc", 12, 1⟩, ⟨"in", 7227, 100⟩, ⟨"bp", 7227, 7200⟩, ⟨"cm", 7227, 254⟩, ⟨"mm", 7227, 2540⟩,
    ⟨"dd", 1238, 1157⟩, ⟨"cc", 14856, 1157⟩, ⟨"sp", 1, 65536⟩]

/-- The physical unit with a given name, in any case of letters. -/
def find? (name : String) : Option LengthUnit :=
  physical.find? fun u => u.name == Text.lowercase name

/-- The length of `whole + fraction/65536` units, truncated. Scaled points ignore the fraction. -/
def scale (u : LengthUnit) (whole fraction : Int64) : Dimen :=
  if u.name == "sp" then whole else (whole * point + fraction) * u.numerator / u.denominator

end LengthUnit

/-- What is wrong with the text of a dimension. -/
inductive DimenFault where
  /-- The text is not a number with a unit of two letters. -/
  | malformed
  /-- The two letters are no physical unit. -/
  | unknownUnit (name : String)
deriving DecidableEq, Repr

def DimenFault.message : DimenFault → String
  | .malformed => "format error parsing dimension"
  | .unknownUnit name => "format error parsing dimension: unknown unit " ++ name

namespace Dimen

/-- A dimension in points, as in `12.0pt`. -/
def format (d : Dimen) : String := formatScaled d ++ "pt"

/-- The longest start of a list which is made of digits, and the rest. -/
def splitDigits (cs : List Char) : List Char × List Char :=
  cs.span fun c => Text.isAsciiDigit c.toNat

/-- The digits after a decimal point, if there is at least one, and the rest. -/
def splitFraction : List Char → Option (List Char) × List Char
  | '.' :: cs =>
    match splitDigits cs with
    | ([], _) => (none, '.' :: cs)
    | (digits, rest) => (some digits, rest)
  | cs => (none, cs)

/-- The dimension with the parts of a text, where `negative` is its sign. -/
def ofParts (negative : Bool) (whole : List Char) (fraction : Option (List Char)) (unit : String) :
    Except DimenFault Dimen :=
  match LengthUnit.find? unit with
  | none => .error (.unknownUnit unit)
  | some u =>
    match if whole.isEmpty then .ok 0 else Text.readInteger (String.ofList whole) with
    | .error _ => .error .malformed
    | .ok n =>
      let part := match fraction with
        | none => 0
        | some digits => roundDecimals (digits.map Text.digitValue)
      let d := u.scale n (Int64.ofNat part)
      .ok (if negative then -d else d)

/-- The sign in front of a text, and the rest. -/
def splitSign : List Char → Option Bool × List Char
  | '+' :: cs => (some false, cs)
  | '-' :: cs => (some true, cs)
  | cs => (none, cs)

/-- The dimension in a text after its sign: digits with an optional decimal point, and a unit. Something has to be in
front of the unit, if only a sign. -/
def parseUnsigned (sign : Option Bool) (cs : List Char) : Except DimenFault Dimen :=
  let (whole, cs) := splitDigits cs
  let (fraction, cs) := splitFraction cs
  match cs with
  | [a, b] =>
    if Text.isAsciiLetter a.toNat && Text.isAsciiLetter b.toNat &&
        !(sign.isNone && whole.isEmpty && fraction.isNone) then
      ofParts (sign.getD false) whole fraction (String.ofList [a, b])
    else .error .malformed
  | _ => .error .malformed

/-- The dimension written in a text: an optional sign, digits with an optional decimal point, and a unit.
A bare `0` needs no unit. -/
def parse (s : String) : Except DimenFault Dimen :=
  let s := Text.trim s
  if s == "0" then .ok 0
  else
    let (sign, cs) := splitSign s.toList
    parseUnsigned sign cs

/-- The number nearest to `n` with at most 53 significant bits, ties going to the even one. -/
def roundToDouble (n : Nat) : Nat :=
  let excess := Nat.log2 n + 1 - 53
  let unit := Nat.pow 2 excess
  let low := n / unit
  let twice := 2 * (n % unit)
  unit * (if twice > unit || (twice == unit && low % 2 == 1) then low + 1 else low)

/-- A dimension in points with six places, computed in double precision. -/
def formatPoints (d : Dimen) : String :=
  let magnitude := roundToDouble d.toInt.natAbs * 1000000
  let low := magnitude / unity
  let twice := 2 * (magnitude % unity)
  let millionths := if twice > unity || (twice == unity && low % 2 == 1) then low + 1 else low
  let places := toString (millionths % 1000000)
  (if d < 0 then "-" else "") ++ toString (millionths / 1000000) ++ "." ++
    String.ofList (List.replicate (6 - places.length) '0') ++ places

end Dimen

end Compositor.Measure
