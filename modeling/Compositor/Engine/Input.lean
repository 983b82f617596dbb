import Compositor.Token.Tokenizer

/-!
# The input

The input is a stack of sources: texts being tokenized, and lists of tokens which were put in front of them.
A list of tokens leaves the stack with its last token, a text only when it is asked for more than it has.

* `pull` takes the next token from a stack, `pushTokens` puts tokens in front;
* `waiting` is the view of a stack as a single list, for one which holds no texts.
-/

namespace Compositor

/-- A source of tokens. -/
inductive Source where
  /-- A list of tokens, inserted at a place of the text below it. -/
  | tokens (ts : List Token) (place : Locator)
  /-- A text. -/
  | text (t : Tokenizer)
deriving Repr, Inhabited

/-- A stack of sources, the next one to read from first. -/
abbrev Input := List Source

/-- What taking a token from a stack results in. -/
inductive Pulled where
  | token (t : Token)
  /-- An invalid character of a text at a place. -/
  | invalid (c : Char) (place : Locator)
  /-- There is nothing left. -/
  | exhausted
deriving DecidableEq, Repr

namespace Input

/-- The place of the innermost text, or where the first list was inserted if there is none. -/
def locator (input : Input) : Locator :=
  let text? := input.findSome? fun
    | .text t => some t.locator
    | .tokens _ _ => none
  match text?, input with
  | some place, _ => place
  | none, .tokens _ place :: _ => place
  | none, _ => {}

def pushTokens (input : Input) (ts : List Token) : Input :=
  if ts.isEmpty then input else .tokens ts input.locator :: input

/-- The tokens which have been put in front of texts and not been read again, the next one first. -/
def waiting : Input → List Token
  | [] => []
  | .tokens ts _ :: rest => ts ++ waiting rest
  | .text _ :: rest => waiting rest

def pull (lexicon : Lexicon) : Input → Pulled × Input
  | [] => (.exhausted, [])
  | .tokens [] _ :: rest => pull lexicon rest
  | .tokens [t] _ :: rest => (.token t, rest)
  | .tokens (t :: ts) place :: rest => (.token t, .tokens ts place :: rest)
  | .text t :: rest =>
    match t.read lexicon with
    | (.token tok, t) => (.token tok, .text t :: rest)
    | (.invalid c place, t) => (.invalid c place, .text t :: rest)
    | (.finished, _) => pull lexicon rest

end Input

end Compositor
