import Compositor.Diagnostic.Basic
import Compositor.Measure.Glue
import Compositor.Meaning.Primitive
import Compositor.Text.Decimal

/-!
# Declarations of primitives

A declaration gives a control sequence the action of a class, with parameters. `Declaration.build` finds the
primitive, `Declaration.default?` the value which a declared register starts with.
-/

namespace Compositor

open Compositor.Measure

/-- The declaration of a primitive. -/
structure Declaration where
  name : String
  className : String
  parameters : List (String × String) := []
deriving DecidableEq, Repr

/-- The value which a declared register starts with. -/
inductive DefaultValue where
  | count (n : Int64)
  | dimen (d : Dimen)
  | glue (g : Glue)
deriving DecidableEq, Repr

namespace Declaration

/-- The text of a parameter, if it is given. -/
def parameter? (d : Declaration) (key : String) : Option String := d.parameters.lookup key

/-- The text of a parameter, empty if it is not given. -/
def parameter (d : Declaration) (key : String) : String := (d.parameter? key).getD ""

/-- The truth value of a parameter, false if it is not given. -/
def flag (d : Declaration) (key : String) : Except String Bool :=
  match d.parameter? key with
  | none => .ok false
  | some text =>
    match Text.readTruth text with
    | .ok b => .ok b
    | .error fault => .error ("strconv.ParseBool: parsing " ++ Text.quoted text ++ ": " ++ fault.message)

/-- What a parameter stands for, given the texts it may have. -/
def oneOf {α : Type} (d : Declaration) (key : String) (choices : List (String × α)) : Except String α :=
  match choices.lookup (d.parameter key) with
  | some a => .ok a
  | none =>
    .error ("parameter " ++ key ++ " must be one of [" ++ String.intercalate " " (choices.map (·.1)) ++
      "], is " ++ Text.quoted (d.parameter key))

def registerKind (d : Declaration) : Except String RegisterKind :=
  d.oneOf "kind" [("count", .count), ("dimen", .dimen), ("glue", .glue), ("toks", .toks)]

/-- A class without parameters. -/
def plain (p : Primitive) : Declaration → Except String Primitive := fun _ => .ok p

/-- A class of commands with one parameter. -/
def choice {α : Type} (key : String) (choices : List (String × α)) (make : α → Primitive) :
    Declaration → Except String Primitive := fun d => do
  return make (← d.oneOf key choices)

/-- A parameter of the run: a register named like its control sequence. Without a name it is a register whose
number follows. -/
def parameterRegister (d : Declaration) : Except String Primitive := do
  let kind ← d.registerKind
  return .command (.register kind (if d.name == "" then none else some d.name))

/-- A command which defines control sequences. -/
def definer (d : Declaration) : Except String Primitive := do
  let globally ← d.flag "global"
  let expanded ← d.flag "expand"
  return .command (.define globally expanded)

/-- A command which starts or ends a run of text in a direction. -/
def directionCommand (d : Declaration) : Except String Primitive := do
  let direction ← d.oneOf "dir" [("L", Direction.leftToRight), ("R", Direction.rightToLeft)]
  let make ← d.oneOf "op" [("begin", Command.beginDirection), ("end", Command.endDirection)]
  return .command (make direction)

/-- All classes in alphabetical order. -/
def classes : List (String × (Declaration → Except String Primitive)) := [
  ("aftergroup", plain (.command .afterGroup)),
  ("arithmetic",
    choice "op" [("advance", .advance), ("multiply", .multiply), ("divide", .divide)] fun op =>
      .command (.arithmetic op)),
  ("begingroup", plain (.command .beginGroup)),
  ("boxregister", fun d => do return .command (.boxRegister (← d.flag "copy"))),
  ("casechange", choice "table" [("lc", .lower), ("uc", .upper)] fun t => .command (.changeCase t)),
  ("char", plain (.command .char)),
  ("charcode",
    choice "table"
      [("cat", .categories), ("lc", .codes .lower), ("uc", .codes .upper), ("sf", .codes .spaceFactor),
        ("math", .codes .math), ("del", .codes .delimiter)] fun t => .command (.charCode t)),
  ("csname", plain (.expansion .controlSequenceName)),
  ("def", definer),
  ("direction", directionCommand),
  ("end", plain (.command .stop)),
  ("endcsname", plain (.command .endName)),
  ("endgroup", plain (.command .endGroup)),
  ("expandafter", plain (.expansion .expandAfter)),
  ("font", plain (.command .loadFont)),
  ("glue", choice "list" [("horizontal", false), ("vertical", true)] fun v => .command (.skip v)),
  ("ifcase", plain .switch),
  ("ifchar",
    choice "compare" [("char", Condition.sameCharacter), ("cat", Condition.sameCategory)] fun c =>
      .condition c),
  ("ifconst", fun d => do return .condition (.constant (← d.flag "value"))),
  ("ifdim", plain (.condition .dimension)),
  ("ifmode",
    choice "mode" [("vertical", .vertical), ("horizontal", .horizontal), ("math", .math), ("inner", .inner)]
      fun t => .condition (.mode t)),
  ("ifnum", plain (.condition .number)),
  ("ifodd", plain (.condition .odd)),
  ("ifx", plain (.condition .sameMeaning)),
  ("ignorespaces", plain (.command .ignoreSpaces)),
  ("input", plain (.command .input)),
  ("interaction",
    choice "mode"
      [("batch", .batch), ("nonstop", .nonstop), ("scroll", .scroll), ("errorstop", .errorStop)] fun m =>
      .command (.setInteraction m)),
  ("kern", plain (.command .kern)),
  ("let", plain (.command .assignMeaning)),
  ("mag", plain (.command .magnification)),
  ("makebox",
    choice "kind" [("h", BoxKind.horizontal), ("v", BoxKind.vertical)] fun k => .command (.makeBox k)),
  ("meaning", plain (.expansion .meaning)),
  ("message", plain (.command .message)),
  ("namespace", plain (.command .setSpace)),
  ("nullfont", plain (.command .nullFont)),
  ("number", plain (.expansion .number)),
  ("par", plain (.command .par)),
  ("parameter", parameterRegister),
  ("penalty", plain (.command .penalty)),
  ("prefix",
    choice "prefix"
      [("global", { isGlobal := true }), ("long", { isLong := true }), ("outer", { isOuter := true }),
        ("protected", { isProtected := true })] fun m => .modifier m),
  ("register", fun d => do return .command (.register (← d.registerKind) none)),
  ("registerdef", fun d => do return .command (.defineRegister (← d.registerKind))),
  ("relax", plain (.command .relax)),
  ("romannumeral", plain (.expansion .romanNumeral)),
  ("setbox", plain (.command .setBox)),
  ("string", plain (.expansion .string)),
  ("terminator",
    choice "tag" [("or", .orMark), ("else", .elseMark), ("fi", .fiMark)] fun m => .endMark m),
  ("the", plain (.expansion .the)),
  ("unless", plain .unless)]

def classNames : List String := classes.map (·.1)

def faultOf (d : Declaration) (message : String) : String := "primitive " ++ d.name ++ ": " ++ message

/-- The primitive of a declaration, or the wording of the fault in it. -/
def build (d : Declaration) : Except String Primitive :=
  match classes.lookup d.className with
  | none => .error (d.faultOf ("unknown class " ++ Text.quoted d.className))
  | some make =>
    match make d with
    | .ok p => .ok p
    | .error message => .error (d.faultOf message)

def defaultDimen (text : String) : Except String Dimen :=
  match Dimen.parse text with
  | .ok v => .ok v
  | .error fault => .error fault.message

/-- The default value which a text gives to a register of a kind. -/
def readDefault (d : Declaration) (text : String) : Except String DefaultValue := do
  match d.parameter "kind" with
  | "count" =>
    match Text.readInteger text with
    | .ok n => return .count n
    | .error fault =>
      throw ("strconv.ParseInt: parsing " ++ Text.quoted text ++ ": " ++ fault.message)
  | "dimen" => return .dimen (← defaultDimen text)
  | "glue" => return .glue (.rigid (← defaultDimen text))
  | kind => throw ("no default allowed for kind " ++ Text.quoted kind)

/-- The default value of a declaration if it has one, or the wording of the fault in it. -/
def default? (d : Declaration) : Except String (Option DefaultValue) :=
  match d.parameter? "default" with
  | none => .ok none
  | some text =>
    match d.readDefault text with
    | .ok v => .ok (some v)
    | .error message => .error (d.faultOf message)

def configurationError (message : String) : Diagnostic := { kind := .configuration, arguments := [message] }

end Declaration

end Compositor
