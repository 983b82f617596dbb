import Compositor.Text.Quoted
import Compositor.Text.Digit

/-!
# Decimal numerals of 64 bit integers

Reading takes an optional sign and at least one digit. Two things can be wrong with a numeral: it has a
character which does not belong there, or its value does not fit. Which one is found depends on what comes
first from left to right, where a value is too large as soon as it passes the unsigned range.
-/

namespace Compositor.Text

/-- What is wrong with the text of a number. -/
inductive NumeralFault where
  /-- The text is not a numeral. -/
  | malformed
  /-- The value of the numeral does not fit. -/
  | outOfRange
deriving DecidableEq, Repr

def NumeralFault.message : NumeralFault → String
  | .malformed => "invalid syntax"
  | .outOfRange => "value out of range"

def digitValue (c : Char) : Nat := c.toNat - 0x30

/-- The number of values of a word of 64 bits. -/
def wordCount : Nat := 18446744073709551616

/-- The number of values of a signed word of 64 bits which are not negative. -/
def signedCount : Nat := 9223372036854775808

/-- The value of a string of digits, continuing a value `acc` read so far. -/
def readDigits (acc : Nat) : List Char → Except NumeralFault Nat
  | [] => .ok acc
  | c :: rest =>
    if !isAsciiDigit c.toNat then .error .malformed
    else
      let value := acc * 10 + digitValue c
      if value ≥ wordCount then .error .outOfRange else readDigits value rest

def readNatural (cs : List Char) : Except NumeralFault Nat :=
  if cs.isEmpty then .error .malformed else readDigits 0 cs

/-- The value of a numeral with an optional sign. -/
def readInteger (s : String) : Except NumeralFault Int64 :=
  match s.toList with
  | '-' :: digits =>
    match readNatural digits with
    | .ok n => if n > signedCount then .error .outOfRange else .ok (Int64.ofInt (-(n : Int)))
    | .error fault => .error fault
  | cs =>
    let digits := match cs with
      | '+' :: digits => digits
      | _ => cs
    match readNatural digits with
    | .ok n => if n ≥ signedCount then .error .outOfRange else .ok (Int64.ofNat n)
    | .error fault => .error fault

/-- The shortest numeral of an integer. -/
def decimal (n : Int64) : String := toString n.toInt

/-- The two truth values and their accepted spellings. -/
def readTruth (s : String) : Except NumeralFault Bool :=
  if s ∈ ["1", "t", "T", "TRUE", "true", "True"] then .ok true
  else if s ∈ ["0", "f", "F", "FALSE", "false", "False"] then .ok false
  else .error .malformed

/-- Digits with a mark before every group of three, counted from the last digit. -/
def groupDigits (mark : List Char) : List Char → List Char
  | [] => []
  | c :: rest =>
    if rest.length % 3 == 0 && !rest.isEmpty then c :: (mark ++ groupDigits mark rest)
    else c :: groupDigits mark rest

/-- The numeral of an integer, with a mark between groups of three digits. -/
def grouped (mark : String) (n : Int) : String :=
  (if n < 0 then "-" else "") ++ String.ofList (groupDigits mark.toList (toString n.natAbs).toList)

end Compositor.Text
