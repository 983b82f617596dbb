import Compositor.Declaration.Basic

/-!
# The built-in primitives
-/

namespace Compositor.Declaration

def builtin : List Declaration := [
  ⟨"global", "prefix", [("prefix", "global")]⟩,
  ⟨"long", "prefix", [("prefix", "long")]⟩,
  ⟨"outer", "prefix", [("prefix", "outer")]⟩,
  ⟨"protected", "prefix", [("prefix", "protected")]⟩,
  ⟨"def", "def", []⟩,
  ⟨"gdef", "def", [("global", "true")]⟩,
  ⟨"edef", "def", [("expand", "true")]⟩,
  ⟨"xdef", "def", [("global", "true"), ("expand", "true")]⟩,
  ⟨"let", "let", []⟩,
  ⟨"count", "register", [("kind", "count")]⟩,
  ⟨"dimen", "register", [("kind", "dimen")]⟩,
  ⟨"skip", "register", [("kind", "glue")]⟩,
  ⟨"toks", "register", [("kind", "toks")]⟩,
  ⟨"countdef", "registerdef", [("kind", "count")]⟩,
  ⟨"dimendef", "registerdef", [("kind", "dimen")]⟩,
  ⟨"skipdef", "registerdef", [("kind", "glue")]⟩,
  ⟨"toksdef", "registerdef", [("kind", "toks")]⟩,
  ⟨"advance", "arithmetic", [("op", "advance")]⟩,
  ⟨"multiply", "arithmetic", [("op", "multiply")]⟩,
  ⟨"divide", "arithmetic", [("op", "divide")]⟩,
  ⟨"box", "boxregister", []⟩,
  ⟨"copy", "boxregister", [("copy", "true")]⟩,
  ⟨"setbox", "setbox", []⟩,
  ⟨"hbox", "makebox", [("kind", "h")]⟩,
  ⟨"vbox", "makebox", [("kind", "v")]⟩,
  ⟨"mag", "mag", []⟩,
  ⟨"tolerance", "parameter", [("kind", "count"), ("default", "10000")]⟩,
  ⟨"pretolerance", "parameter", [("kind", "count"), ("default", "0")]⟩,
  ⟨"tracingcommands", "parameter", [("kind", "count")]⟩,
  ⟨"escapechar", "parameter", [("kind", "count"), ("default", "92")]⟩,
  ⟨"time", "parameter", [("kind", "count")]⟩,
  ⟨"day", "parameter", [("kind", "count")]⟩,
  ⟨"month", "parameter", [("kind", "count")]⟩,
  ⟨"year", "parameter", [("kind", "count")]⟩,
  ⟨"hsize", "parameter", [("kind", "dimen")]⟩,
  ⟨"vsize", "parameter", [("kind", "dimen")]⟩,
  ⟨"parindent", "parameter", [("kind", "dimen")]⟩,
  ⟨"hoffset", "parameter", [("kind", "dimen")]⟩,
  ⟨"voffset", "parameter", [("kind", "dimen")]⟩,
  ⟨"baselineskip", "parameter", [("kind", "glue")]⟩,
  ⟨"parskip", "parameter", [("kind", "glue")]⟩,
  ⟨"leftskip", "parameter", [("kind", "glue")]⟩,
  ⟨"rightskip", "parameter", [("kind", "glue")]⟩,
  ⟨"everypar", "parameter", [("kind", "toks")]⟩,
  ⟨"everymath", "parameter", [("kind", "toks")]⟩,
  ⟨"catcode", "charcode", [("table", "cat")]⟩,
  ⟨"lccode", "charcode", [("table", "lc")]⟩,
  ⟨"uccode", "charcode", [("table", "uc")]⟩,
  ⟨"sfcode", "charcode", [("table", "sf")]⟩,
  ⟨"mathcode", "charcode", [("table", "math")]⟩,
  ⟨"delcode", "charcode", [("table", "del")]⟩,
  ⟨"lowercase", "casechange", [("table", "lc")]⟩,
  ⟨"uppercase", "casechange", [("table", "uc")]⟩,
  ⟨"expandafter", "expandafter", []⟩,
  ⟨"the", "the", []⟩,
  ⟨"number", "number", []⟩,
  ⟨"romannumeral", "romannumeral", []⟩,
  ⟨"string", "string", []⟩,
  ⟨"meaning", "meaning", []⟩,
  ⟨"csname", "csname", []⟩,
  ⟨"endcsname", "endcsname", []⟩,
  ⟨"iftrue", "ifconst", [("value", "true")]⟩,
  ⟨"iffalse", "ifconst", [("value", "false")]⟩,
  ⟨"ifnum", "ifnum", []⟩,
  ⟨"ifdim", "ifdim", []⟩,
  ⟨"ifodd", "ifodd", []⟩,
  ⟨"ifx", "ifx", []⟩,
  ⟨"if", "ifchar", [("compare", "char")]⟩,
  ⟨"ifcat", "ifchar", [("compare", "cat")]⟩,
  ⟨"ifvmode", "ifmode", [("mode", "vertical")]⟩,
  ⟨"ifhmode", "ifmode", [("mode", "horizontal")]⟩,
  ⟨"ifmmode", "ifmode", [("mode", "math")]⟩,
  ⟨"ifinner", "ifmode", [("mode", "inner")]⟩,
  ⟨"ifcase", "ifcase", []⟩,
  ⟨"unless", "unless", []⟩,
  ⟨"or", "terminator", [("tag", "or")]⟩,
  ⟨"else", "terminator", [("tag", "else")]⟩,
  ⟨"fi", "terminator", [("tag", "fi")]⟩,
  ⟨"begingroup", "begingroup", []⟩,
  ⟨"endgroup", "endgroup", []⟩,
  ⟨"aftergroup", "aftergroup", []⟩,
  ⟨"relax", "relax", []⟩,
  ⟨"end", "end", []⟩,
  ⟨"par", "par", []⟩,
  ⟨"kern", "kern", []⟩,
  ⟨"hskip", "glue", [("list", "horizontal")]⟩,
  ⟨"vskip", "glue", [("list", "vertical")]⟩,
  ⟨"penalty", "penalty", []⟩,
  ⟨"char", "char", []⟩,
  ⟨"font", "font", []⟩,
  ⟨"nullfont", "nullfont", []⟩,
  ⟨"beginL", "direction", [("dir", "L"), ("op", "begin")]⟩,
  ⟨"endL", "direction", [("dir", "L"), ("op", "end")]⟩,
  ⟨"beginR", "direction", [("dir", "R"), ("op", "begin")]⟩,
  ⟨"endR", "direction", [("dir", "R"), ("op", "end")]⟩,
  ⟨"batchmode", "interaction", [("mode", "batch")]⟩,
  ⟨"nonstopmode", "interaction", [("mode", "nonstop")]⟩,
  ⟨"scrollmode", "interaction", [("mode", "scroll")]⟩,
  ⟨"errorstopmode", "interaction", [("mode", "errorstop")]⟩,
  ⟨"message", "message", []⟩,
  ⟨"namespace", "namespace", []⟩,
  ⟨"ignorespaces", "ignorespaces", []⟩,
  ⟨"input", "input", []⟩]

end Compositor.Declaration
