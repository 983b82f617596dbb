import Compositor.Text.Printable

/-!
# Quoted text

Quoting writes printable characters as they are, escapes the quote and the backslash, and writes all other
characters as escape sequences.
-/

namespace Compositor.Text

/-- The number in base sixteen, filled up with zeros to a width. -/
def hexadecimal (width : Nat) (n : Nat) : String :=
  let digits := Nat.toDigits 16 n
  String.ofList (List.replicate (width - digits.length) '0' ++ digits)

/-- A code point as in `U+00E9`. -/
def codeLabel (code : Nat) : String :=
  "U+" ++ (hexadecimal 4 code).map Char.toUpper

def controlLetter? (code : Nat) : Option Char :=
  match code with
  | 0x07 => some 'a'
  | 0x08 => some 'b'
  | 0x09 => some 't'
  | 0x0a => some 'n'
  | 0x0b => some 'v'
  | 0x0c => some 'f'
  | 0x0d => some 'r'
  | _ => none

/-- A single character inside quotes `quote`. -/
def escape (quote : Char) (c : Char) : String :=
  if c == quote || c == '\\' then "\\" ++ c.toString
  else if isPrintable c.toNat then c.toString
  else match controlLetter? c.toNat with
    | some letter => "\\" ++ letter.toString
    | none =>
      if c.toNat < 0x80 then "\\x" ++ hexadecimal 2 c.toNat
      else if c.toNat < 0x10000 then "\\u" ++ hexadecimal 4 c.toNat
      else "\\U" ++ hexadecimal 8 c.toNat

def quoted (s : String) : String :=
  "\"" ++ String.join (s.toList.map (escape '\"')) ++ "\""

def singleQuote : Char := Char.ofNat 0x27

def quotedChar (c : Char) : String :=
  singleQuote.toString ++ escape singleQuote c ++ singleQuote.toString

end Compositor.Text
