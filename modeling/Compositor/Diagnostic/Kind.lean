import Compositor.Diagnostic.Fault

/-!
# Kinds of diagnostics

A diagnostic is recoverable if the run goes on after it, or fatal. Each kind has a number, a code, and two
texts with places for the arguments of the diagnostic: a message and a help text.
-/

namespace Compositor

/-- What a diagnostic is about. -/
inductive Kind where
  | undefinedControlSequence
  | extraRightBrace
  | groupMismatch
  | extraOr
  | extraElse
  | extraFi
  | missingNumber
  | numberTooBig
  | dimensionTooLarge
  | illegalUnit
  | missingToken
  | illegalMagnification
  | illegalRegister
  | misplaced
  | cantUseModifier
  | fontNotFound
  | unbalancedEnd
  | runawayArgument
  | useDoesntMatch
  | invalidCharacter
  | displayMathEnd
  | missingControlSequence
  | arithmeticOverflow
  | missingEndName
  | cantUseAfterThe
  | badCharacterCode
  | fileNotFound
  | inputEndedInSkip
  | errorLimit
  | incompatibleMagnification
  | noTypesetter
  | noStreams
  | configuration
  | aborted
  | internal
  /-- A number without a kind. -/
  | unlisted (number : Int)
deriving DecidableEq, Repr

namespace Kind

/-- The recoverable kinds in the order of their numbers, which start at 0. -/
def recoverableKinds : List Kind :=
  [undefinedControlSequence, extraRightBrace, groupMismatch, extraOr, extraElse, extraFi, missingNumber,
    numberTooBig, dimensionTooLarge, illegalUnit, missingToken, illegalMagnification, illegalRegister,
    misplaced, cantUseModifier, fontNotFound, unbalancedEnd, runawayArgument, useDoesntMatch,
    invalidCharacter, displayMathEnd, missingControlSequence, arithmeticOverflow, missingEndName,
    cantUseAfterThe, badCharacterCode, fileNotFound]

/-- The fatal kinds in the order of their numbers, which start at 100. -/
def fatalKinds : List Kind :=
  [inputEndedInSkip, errorLimit, incompatibleMagnification, noTypesetter, noStreams, configuration, aborted,
    internal]

def ofNumber (n : Int) : Kind :=
  let found := if n < 0 then none else recoverableKinds[n.toNat]? <|>
    (if n < 100 then none else fatalKinds[(n - 100).toNat]?)
  found.getD (unlisted n)

def number : Kind → Int
  | undefinedControlSequence => 0
  | extraRightBrace => 1
  | groupMismatch => 2
  | extraOr => 3
  | extraElse => 4
  | extraFi => 5
  | missingNumber => 6
  | numberTooBig => 7
  | dimensionTooLarge => 8
  | illegalUnit => 9
  | missingToken => 10
  | illegalMagnification => 11
  | illegalRegister => 12
  | misplaced => 13
  | cantUseModifier => 14
  | fontNotFound => 15
  | unbalancedEnd => 16
  | runawayArgument => 17
  | useDoesntMatch => 18
  | invalidCharacter => 19
  | displayMathEnd => 20
  | missingControlSequence => 21
  | arithmeticOverflow => 22
  | missingEndName => 23
  | cantUseAfterThe => 24
  | badCharacterCode => 25
  | fileNotFound => 26
  | inputEndedInSkip => 100
  | errorLimit => 101
  | incompatibleMagnification => 102
  | noTypesetter => 103
  | noStreams => 104
  | configuration => 105
  | aborted => 106
  | internal => 107
  | unlisted n => n

/-- A fatal diagnostic ends the run. -/
def isFatal (k : Kind) : Bool := k.number ≥ 100

def code : Kind → FaultCode
  | undefinedControlSequence | extraRightBrace | groupMismatch | extraOr | extraElse | extraFi | misplaced
  | cantUseModifier | unbalancedEnd | runawayArgument | useDoesntMatch | displayMathEnd
  | cantUseAfterThe => .input
  | missingNumber | missingToken | missingControlSequence | missingEndName | fileNotFound => .missing
  | numberTooBig | dimensionTooLarge | illegalUnit | illegalMagnification | illegalRegister
  | invalidCharacter | arithmeticOverflow | badCharacterCode => .invalid
  | fontNotFound => .resource
  | inputEndedInSkip | errorLimit | incompatibleMagnification => .fatal
  | noTypesetter | noStreams | configuration => .configuration
  | aborted => .interaction
  | internal | unlisted _ => .internal

def message : Kind → String
  | undefinedControlSequence => "Undefined control sequence %s"
  | extraRightBrace => "Too many \x7d's"
  | groupMismatch => "Extra %s, or forgotten %s"
  | extraOr => "Extra \\or"
  | extraElse => "Extra \\else"
  | extraFi => "Extra \\fi"
  | missingNumber => "Missing number, treated as zero"
  | numberTooBig => "Number too big"
  | dimensionTooLarge => "Dimension too large"
  | illegalUnit => "Illegal unit of measure (pt inserted)"
  | missingToken => "Missing %s inserted"
  | illegalMagnification => "Illegal magnification (%s), must be between 1 and %s"
  | illegalRegister => "Bad register code (%s)"
  | misplaced => "Misplaced %s"
  | cantUseModifier => "You can't use a prefix with `%s'"
  | fontNotFound => "Font %s=%s not loadable: font file not found"
  | unbalancedEnd => "(\\end occurred inside a group at level %s)"
  | runawayArgument => "Paragraph ended before %s was complete"
  | useDoesntMatch => "Use of %s doesn't match its definition"
  | invalidCharacter => "Text line contains an invalid character %U"
  | displayMathEnd => "Display math should end with $$"
  | missingControlSequence => "Missing control sequence inserted"
  | arithmeticOverflow => "Arithmetic overflow"
  | missingEndName => "Missing \\endcsname inserted"
  | cantUseAfterThe => "You can't use %s after \\the"
  | badCharacterCode => "Invalid code (%s), should be in the range 0..%s"
  | fileNotFound => "I can't find file `%s'"
  | inputEndedInSkip => "Incomplete %s; all text was ignored after line %s"
  | errorLimit => "That makes %s errors; please try again."
  | incompatibleMagnification =>
    "Incompatible magnification (%s); the previous value will be retained (%s)"
  | noTypesetter => "No typesetter configured"
  | noStreams => "No token stream factory configured"
  | configuration => "Configuration error: %s"
  | aborted => "Interaction aborted"
  | internal => "This can't happen (%s)"
  | unlisted _ => "Unknown error"

def help : Kind → String
  | undefinedControlSequence =>
    "The control sequence %s has never been defined. If you have misspelled it, just continue, and I'll " ++
    "forget about whatever was undefined."
  | extraRightBrace =>
    "You've closed more groups than you opened. Such booboos are generally harmless, so keep going."
  | groupMismatch => "I've deleted a group-closing symbol because it seems to be spurious."
  | extraOr | extraElse | extraFi => "I'm ignoring this; it doesn't match any \\if."
  | missingNumber => "A number should have been here; I inserted `0'."
  | numberTooBig => "I can only go up to 2147483647, so I'm using that number instead of yours."
  | dimensionTooLarge =>
    "I can't work with sizes bigger than about 19 feet. Continue and I'll use the largest value I can."
  | illegalUnit =>
    "Dimensions can be in units of em, ex, in, pt, pc, cm, mm, dd, cc, bp, or sp; but yours is a new one! " ++
    "I'll assume that you meant to say pt, for printer's points."
  | missingToken => "I expected to see %s here, so I've put one in."
  | illegalMagnification => "The magnification ratio is unchanged."
  | illegalRegister => "A register number must be between 0 and 32767. I changed this one to zero."
  | misplaced => "I can't figure out why you would want to use this here. I'm ignoring it."
  | cantUseModifier => "I'll pretend you didn't say \\long or \\outer or \\global here."
  | fontNotFound => "I wasn't able to read the font; I'll use a fallback font instead."
  | unbalancedEnd => "Some group was not closed before the end of the input."
  | runawayArgument =>
    "I suspect you've forgotten a `\x7d', causing me to apply this control sequence to too much text."
  | useDoesntMatch => "The arguments of a macro must follow the delimiters of its parameter text."
  | invalidCharacter =>
    "A funny symbol that I can't read has just been input. Continue, and I'll forget that it ever happened."
  | displayMathEnd =>
    "The `$' that I just saw supposedly matches a previous `$$'. So I shall assume that you typed `$$' " ++
    "both times."
  | missingControlSequence => "Please don't say \\def cs\x7b...\x7d, say \\def\\cs\x7b...\x7d."
  | arithmeticOverflow =>
    "I can't carry out that multiplication or division, since the result is out of range. The register is " ++
    "unchanged."
  | missingEndName =>
    "The control sequence marked <to be read again> should not appear between \\csname and \\endcsname."
  | cantUseAfterThe => "I'm forgetting what you said and using zero instead."
  | badCharacterCode => "I'm going to use 0 instead of that illegal code value."
  | fileNotFound => "The input file could not be opened; it is ignored."
  | inputEndedInSkip => "A forbidden end of input occurred while skipping conditional text."
  | errorLimit => "The run has been stopped because of too many errors."
  | incompatibleMagnification => "I can handle only one magnification ratio per job."
  | noTypesetter | noStreams | configuration | aborted | internal | unlisted _ => ""

end Kind

end Compositor
