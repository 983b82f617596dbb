import Compositor.Meaning.Basic
import Compositor.Text.CaseMap
import Compositor.Text.Letter

/-!
# What a scope can bind

Registers, character codes and meanings are all looked up and assigned in the same way. A key names one of
them; `Key.Value` is the type of its value and `Key.initial` the value it has before any assignment.
-/

namespace Compositor

open Compositor.Measure

/-- The name of a value which a scope can bind. Characters are given by their code point. -/
inductive Key where
  | count (name : String)
  | dimen (name : String)
  | glue (name : String)
  | toks (name : String)
  | box (name : String)
  | font (name : String)
  | catcode (code : Nat)
  | charcode (table : CodeTable) (code : Nat)
  | meaning (t : Token)
deriving DecidableEq, Repr

/-- The type of the value of a key. Box registers may be void, fonts missing, meanings undefined. -/
@[reducible] def Key.Value : Key → Type
  | count _ => Int64
  | dimen _ => Dimen
  | glue _ => Glue
  | toks _ => List Token
  | box _ => Option Box
  | font _ => Option Font
  | catcode _ => Catcode
  | charcode _ _ => Int64
  | meaning _ => Option Meaning

def initialCatcode (code : Nat) : Catcode :=
  match code with
  | 0x5c => .escape
  | 0x7b => .leftBrace
  | 0x7d => .rightBrace
  | 0x24 => .mathShift
  | 0x26 => .tabMark
  | 0x0d => .endLine
  | 0x23 => .parameter
  | 0x5e => .supMark
  | 0x5f => .subMark
  | 0x00 => .ignored
  | 0x20 => .space
  | 0x09 => .space
  | 0x7e => .active
  | 0x25 => .comment
  | 0x7f => .invalid
  | _ => if Text.isLetter code then .letter else .other

/-- The code of a character in a table before any assignment. -/
def initialCharcode (table : CodeTable) (code : Nat) : Int64 :=
  match table with
  | .lower => if Text.isLetter code then Int64.ofNat (Text.toLower code) else 0
  | .upper => if Text.isLetter code then Int64.ofNat (Text.toUpper code) else 0
  | .spaceFactor => if Text.isCapital code then 999 else 1000
  | .math =>
    if 0x30 ≤ code && code ≤ 0x39 then Int64.ofNat (0x7000 + code)
    else if code < 0x80 && Text.isLetter code then Int64.ofNat (0x7100 + code)
    else Int64.ofNat code
  | .delimiter => if code = 0x2e then 0 else -1

/-- The value of a key before any assignment. -/
def Key.initial : (k : Key) → k.Value
  | count _ => (0 : Int64)
  | dimen _ => (0 : Int64)
  | glue _ => Glue.zero
  | toks _ => ([] : List Token)
  | box _ => (none : Option Box)
  | font _ => (none : Option Font)
  | catcode code => initialCatcode code
  | charcode table code => initialCharcode table code
  | meaning _ => (none : Option Meaning)

end Compositor
