import Compositor.Proofs.Engine.Reading
import Compositor.Proofs.Scope.Snapshots
import Compositor.Proofs.Token.Braces
import Mathlib.Data.List.Forall2
import Mathlib.Data.List.Infix

/-!
# Definitions are substitutions

A definition is written as a parameter text and a replacement text, and used by giving its arguments. This module says
what these texts are, and that defining a control sequence and using it is simultaneous substitution:

* `ParameterList` is a parameter text, `ReplacementItem` an item of a replacement text;
* `Fits` says which arguments a parameter can take, `Unbraced` which tokens take their place;
* `define_runs` reads a definition, `Definition.expand_runs` a use of it, and `define_expand` joins the two.
-/

namespace Compositor

/-! ## Definitions and arguments as they are written -/

/-- The control sequence which ends a paragraph. -/
def Token.IsPar (t : Token) : Prop := t.isControlSequence = true ∧ t.name = "par"

instance (t : Token) : Decidable t.IsPar := inferInstanceAs (Decidable (_ ∧ _))

/-- A parameter of a parameter text, with the tokens after it. -/
structure Parameter where
  mark : Token
  digit : Token
  number : Nat
  delimiter : List Token
  isMark : mark.cat = .parameter
  isDigit : parameterNumber? digit = some number
  arePlain : ∀ t ∈ delimiter, t.IsPlain

/-- A parameter text. Its parameters are numbered from one. -/
structure ParameterList where
  opening : List Token
  parameters : List Parameter
  arePlain : ∀ t ∈ opening, t.IsPlain
  areNumbered : parameters.map Parameter.number = List.range' 1 parameters.length

/-- An item of a replacement text: an ordinary token, a doubled parameter character, or a reference to an argument. -/
inductive ReplacementItem where
  | ordinary (t : Token) (isOrdinary : t.cat ≠ .parameter)
  | doubled (first second : Token) (isFirst : first.cat = .parameter) (isSecond : second.cat = .parameter)
  | reference (mark digit : Token) (n : Nat) (isMark : mark.cat = .parameter) (isDigit : parameterNumber? digit = some n)

def Parameter.tokens (p : Parameter) : List Token := p.mark :: p.digit :: p.delimiter

def ParameterList.tokens (p : ParameterList) : List Token := p.opening ++ p.parameters.flatMap Parameter.tokens

def ParameterList.delimiters (p : ParameterList) : List (List Token) := p.parameters.map Parameter.delimiter

namespace ReplacementItem

def tokens : ReplacementItem → List Token
  | ordinary t _ => [t]
  | doubled first second _ _ => [first, second]
  | reference mark digit _ _ _ => [mark, digit]

/-- What takes the place of an item, for given arguments. -/
def value (arguments : List (List Token)) : ReplacementItem → List Token
  | ordinary t _ => [t]
  | doubled _ second _ _ => [second]
  | reference _ _ n _ _ => (arguments[n - 1]?).getD []

/-- The item refers to one of a number of arguments, if to any. -/
def IsWithin (arity : Nat) : ReplacementItem → Prop
  | reference _ _ n _ _ => n ≤ arity
  | _ => True

end ReplacementItem

/-- A replacement text, written in braces: its items refer to one of a number of arguments. -/
structure ReplacementText (arity : Nat) where
  items : List ReplacementItem
  isBalanced : Balanced (items.flatMap ReplacementItem.tokens)
  areWithin : ∀ item ∈ items, item.IsWithin arity

def ReplacementText.tokens {arity : Nat} (r : ReplacementText arity) : List Token :=
  r.items.flatMap ReplacementItem.tokens

def ReplacementText.substitute {arity : Nat} (r : ReplacementText arity) (arguments : List (List Token)) : List Token :=
  r.items.flatMap (ReplacementItem.value arguments)

/-- The argument can be given to a parameter with this delimiter. Without a delimiter it is a group, or a token which is
neither a space nor a brace; otherwise the delimiter after it is the first one outside of groups. Only a long definition
takes the end of a paragraph. -/
structure Fits (isLong : Bool) (delimiter argument : List Token) : Prop where
  isBalanced : Balanced argument
  noPar : isLong = false → ∀ t ∈ argument, ¬ t.IsPar
  undelimited : delimiter = [] →
    (∃ inner, IsGroup argument inner) ∨ ∃ t, argument = [t] ∧ t.cat ≠ .space ∧ t.IsNoBrace
  delimited : delimiter ≠ [] →
    ∀ ts, ts <+: argument ++ delimiter → levelAfter 0 ts = some 0 → delimiter <:+ ts → ts = argument ++ delimiter

/-- The arguments of a use with the delimiters after them. -/
def useTokens : List (List Token) → List (List Token) → List Token
  | delimiter :: delimiters, argument :: arguments => argument ++ delimiter ++ useTokens delimiters arguments
  | _, _ => []

/-! ## Reading a parameter text -/

section ParameterTexts

variable {e e₁ : Engine} {input rest : Input} {t : Token} {p r : ParameterText}

theorem ParameterText.foldl_push_opening (opening ts : List Token) :
    ts.foldl push ⟨opening, []⟩ = ⟨opening ++ ts, []⟩ := by
  induction ts generalizing opening with
  | nil => simp
  | cons t ts ih =>
    rw [List.foldl_cons, push]
    simp [ih]

theorem ParameterText.foldl_push_delimiter (opening ts last : List Token) (delimiters : List (List Token)) :
    ts.foldl push ⟨opening, delimiters ++ [last]⟩ = ⟨opening, delimiters ++ [last ++ ts]⟩ := by
  induction ts generalizing last with
  | nil => simp
  | cons t ts ih =>
    rw [List.foldl_cons, push]
    simp [ih]

theorem parameterStep_plain (hpull : e.input.pull e.context.lexicon = (.token t, input)) (ht : t.IsPlain) :
    Runs (parameterStep · p) e (.again (p.push t)) (e.withInput input) := by
  obtain ⟨⟨hleft, hright⟩, hparameter⟩ := ht
  refine Runs.bind (next_runs hpull) (Runs.of_eq fun m => ?_)
  cases hcat : t.cat with
  | leftBrace => exact absurd hcat hleft
  | rightBrace => exact absurd hcat hright
  | parameter => exact absurd hcat hparameter
  | _ => simp [hcat]

theorem parameterStep_parameter (q : Parameter) (hnumber : q.number = p.arity + 1)
    (hinput : e.input.Delivers e.context.lexicon [q.mark, q.digit] rest) :
    Runs (parameterStep · p) e (.again p.pushParameter) (e.withInput rest) := by
  obtain ⟨input, hpull, input', hpull', rfl⟩ := hinput
  have hdigit : (some q.digit).bind parameterNumber? = some (p.arity + 1) := by
    rw [Option.bind_some, q.isDigit, hnumber]
  refine Runs.bind (next_runs hpull) ?_
  simp only [q.isMark]
  refine Runs.bind (next_runs (e := e.withInput input) hpull') (Runs.of_eq fun m => ?_)
  simp only [hdigit, if_true]
  rfl

theorem parameterStep_brace (hpull : e.input.pull e.context.lexicon = (.token t, input)) (ht : t.cat = .leftBrace) :
    Runs (parameterStep · p) e (.done p) (e.withInput (input.pushTokens [t])) := by
  refine Runs.bind (next_runs hpull) (Runs.of_eq fun m => ?_)
  simp only [ht]
  rfl

theorem parameterText_plain {ts : List Token} (hplain : ∀ t ∈ ts, t.IsPlain)
    (hinput : e.input.Delivers e.context.lexicon ts rest)
    (hrest : Loops parameterStep (ts.foldl ParameterText.push p) (e.withInput rest) r e₁) :
    Loops parameterStep p e r e₁ := by
  induction ts generalizing p e with
  | nil =>
    obtain rfl : e.input = rest := hinput
    exact hrest
  | cons t ts ih =>
    obtain ⟨input, hpull, hinput⟩ := hinput
    refine Loops.again (parameterStep_plain hpull (hplain t (by simp))) ?_
    exact ih (e := e.withInput input) (fun u hu => hplain u (by simp [hu])) hinput hrest

theorem parameterText_parameters {opening : List Token} {delimiters : List (List Token)} (qs : List Parameter)
    (hnumbers : qs.map Parameter.number = List.range' (delimiters.length + 1) qs.length)
    (hinput : e.input.Delivers e.context.lexicon (qs.flatMap Parameter.tokens) rest)
    (hrest : Loops parameterStep ⟨opening, delimiters ++ qs.map Parameter.delimiter⟩ (e.withInput rest) r e₁) :
    Loops parameterStep ⟨opening, delimiters⟩ e r e₁ := by
  induction qs generalizing delimiters e with
  | nil =>
    obtain rfl : e.input = rest := hinput
    simpa using hrest
  | cons q qs ih =>
    have hdelivers : e.input.Delivers e.context.lexicon ([q.mark, q.digit] ++ (q.delimiter ++ qs.flatMap Parameter.tokens))
        rest := hinput
    rw [Input.delivers_append] at hdelivers
    obtain ⟨mid, hmark, hinput⟩ := hdelivers
    rw [Input.delivers_append] at hinput
    obtain ⟨mid', hdelimiter, hinput⟩ := hinput
    rw [List.map_cons, List.length_cons, List.range'_succ, List.cons.injEq] at hnumbers
    refine Loops.again (parameterStep_parameter q hnumbers.1 hmark) ?_
    refine parameterText_plain (e := e.withInput mid) q.arePlain hdelimiter ?_
    rw [ParameterText.pushParameter, ParameterText.foldl_push_delimiter, List.nil_append]
    refine ih (e := e.withInput mid') ?_ hinput ?_
    · simpa using hnumbers.2
    · simpa using hrest

/-- **A parameter text is read up to the left brace after it, which is put back.** -/
theorem parameterText_runs (l : ParameterList) (ht : t.cat = .leftBrace)
    (hinput : e.input.Delivers e.context.lexicon (l.tokens ++ [t]) rest) :
    Runs parameterText e ⟨l.opening, l.delimiters⟩ (e.withInput (rest.pushTokens [t])) := by
  rw [ParameterList.tokens, List.append_assoc, Input.delivers_append] at hinput
  obtain ⟨mid, hopening, hinput⟩ := hinput
  rw [Input.delivers_append] at hinput
  obtain ⟨mid', hparameters, input, hpull, rfl⟩ := hinput
  refine Loops.runs (parameterText_plain l.arePlain hopening ?_)
  rw [ParameterText.foldl_push_opening, List.nil_append]
  refine parameterText_parameters (e := e.withInput mid) l.parameters l.areNumbered hparameters ?_
  exact Loops.done (parameterStep_brace (e := e.withInput mid') hpull ht)

end ParameterTexts

/-! ## Reading a replacement text -/

section Texts

variable {e : Engine} {i input rest : Input} {t brace : Token} {level level' : Nat}

def nextToken (expanded : Bool) (m : Machine) : Action (Option Token) :=
  if expanded then Proc.giving m.nextExpanded () else m.next

theorem nextToken_runs {expanded : Bool} (hpull : e.input.pull e.context.lexicon = (.token t, input))
    (ht : expanded = true → e.context.Unexpandable t) :
    Runs (nextToken expanded) e (some t) (e.withInput input) := by
  cases expanded with
  | false => exact next_runs hpull
  | true => exact Runs.giving (nextExpanded_runs hpull (ht rfl)) ()

theorem textStep_again {next : Machine → Action (Option Token)} {e₁ : Engine} (hnext : Runs next e (some t) e₁)
    (hlevel : t.nest level = some level') (ts : List Token) :
    Runs (fun m => textStep m (next m) (level, ts)) e (.again (level', ts ++ [t])) e₁ := by
  refine Runs.bind (hnext.giving ts) (Runs.of_eq fun m => ?_)
  simp only [hlevel]
  rfl

/-- **A balanced text is read up to the right brace after it.** -/
theorem untilRightBrace_runs {next : Machine → Action (Option Token)} {body : List Token} {e' : Engine}
    (hbrace : brace.cat = .rightBrace) (hbalanced : Balanced body) (h : e.Supplies next (body ++ [brace]) e') :
    Runs (fun m => untilRightBrace m (next m)) e body e' := by
  -- the level goes with the tokens which have been read, and the text is what is still to come
  have hloop : ∀ (body acc : List Token) (level : Nat) (e : Engine), levelAfter level body = some 0 →
      e.Supplies next (body ++ [brace]) e' → Loops (fun m => textStep m (next m)) (level, acc) e (acc ++ body) e' := by
    intro body
    induction body with
    | nil =>
      rintro acc level e hlevel ⟨_, hlast, rfl⟩
      obtain rfl : level = 0 := Option.some.inj hlevel
      refine Loops.done (Runs.bind (hlast.giving acc) (Runs.of_eq fun m => ?_))
      simp only [Token.nest_rightBrace_zero hbrace, List.append_nil]
      rfl
    | cons t body ih =>
      rintro acc level e hlevel ⟨mid, hfirst, hbody⟩
      rw [levelAfter_cons, Option.bind_eq_some_iff] at hlevel
      obtain ⟨level', hstep, hlevel⟩ := hlevel
      have hrest := ih (acc ++ [t]) level' mid hlevel hbody
      rw [List.append_assoc] at hrest
      exact Loops.again (textStep_again hfirst hstep acc) hrest
  exact Loops.runs (hloop body [] 0 e hbalanced h)

theorem openingBrace_runs {blanks : List Token} {e₁ : Engine} (hblanks : ∀ b ∈ blanks, b.cat = .space)
    (ht : t.cat = .leftBrace) (h : e.Supplies Machine.nextExpanded (blanks ++ [t]) e₁) : Runs openingBrace e () e₁ := by
  refine Runs.bind (Runs.lift (skipSpace_runs h hblanks (by simp [ht]))) (Runs.of_eq fun m => ?_)
  simp [ht]

/-- **A text in braces is read**, and what is read after the left brace is what a reader of its own supplies. -/
theorem balancedText_supplied {blanks body : List Token} {expanded : Bool} {left right : Token} {e₁ e' : Engine}
    (hblanks : ∀ b ∈ blanks, b.cat = .space) (hleft : left.cat = .leftBrace) (hright : right.cat = .rightBrace)
    (hbalanced : Balanced body) (hopening : e.Supplies Machine.nextExpanded (blanks ++ [left]) e₁)
    (hbody : e₁.Supplies (nextToken expanded) (body ++ [right]) e') : Runs (balancedText · expanded) e body e' :=
  Runs.bind (Runs.lift (openingBrace_runs hblanks hleft hopening)) (untilRightBrace_runs hright hbalanced hbody)

/-- A text in braces is read. Where it is read with expansion, its tokens must not be expandable. -/
theorem balancedText_runs {blanks body : List Token} {expanded : Bool} {left right : Token}
    (hblanks : ∀ b ∈ blanks, b.cat = .space) (hleft : left.cat = .leftBrace) (hright : right.cat = .rightBrace)
    (hbalanced : Balanced body) (hbody : expanded = true → ∀ t ∈ body, e.context.Unexpandable t)
    (hinput : e.input.Delivers e.context.lexicon (blanks ++ left :: (body ++ [right])) rest) :
    Runs (balancedText · expanded) e body (e.withInput rest) := by
  rw [← List.singleton_append, ← List.append_assoc, Input.delivers_append] at hinput
  obtain ⟨mid, hopening, hinput⟩ := hinput
  have hbrace {t : Token} (ht : t.cat = .leftBrace ∨ t.cat = .rightBrace) : e.context.Unexpandable t :=
    e.context.unexpandable_of_not_isCode (by rcases ht with ht | ht <;> simp [Token.isCode, ht])
  refine balancedText_supplied hblanks hleft hright hbalanced (supplies_nextExpanded (fun t ht => ?_) hopening) ?_
  · rcases List.mem_append.1 ht with ht | ht
    · exact e.context.unexpandable_of_space (hblanks t ht)
    · exact List.mem_singleton.1 ht ▸ hbrace (.inl hleft)
  · refine supplies_of_delivers (e := e.withInput mid) (fun t ht i _ hpull => ?_) hinput
    refine nextToken_runs (e := e.withInput i) hpull fun hexpanded => ?_
    rcases List.mem_append.1 ht with ht | ht
    · exact hbody hexpanded t ht
    · exact List.mem_singleton.1 ht ▸ hbrace (.inr hright)

end Texts

/-! ## Definitions -/

/-- What the engine keeps of an item of a replacement text. -/
def ReplacementItem.bodyItem : ReplacementItem → BodyItem
  | ordinary t _ => .token t
  | doubled _ second _ _ => .token second
  | reference _ _ n _ _ => .argument n

theorem parameterNumber?_cat {t : Token} {n : Nat} (h : parameterNumber? t = some n) : t.cat ≠ .parameter := by
  intro hcat
  simp [parameterNumber?, hcat] at h

theorem parseBody_eq {arity : Nat} (items : List ReplacementItem) (hwithin : ∀ item ∈ items, item.IsWithin arity) :
    parseBody arity (items.flatMap ReplacementItem.tokens) = items.map (some ·.bodyItem) := by
  induction items with
  | nil => rfl
  | cons item items ih =>
    have hitems := ih fun item h => hwithin item (by simp [h])
    rw [List.flatMap_cons, List.map_cons, ← hitems]
    cases item with
    | ordinary t ht =>
      -- a token at the end stands for itself whatever it is
      rcases hrest : items.flatMap ReplacementItem.tokens with _ | ⟨next, rest⟩
      · rfl
      · simp [ReplacementItem.tokens, parseBody, ht, ReplacementItem.bodyItem]
    | doubled first second hfirst hsecond =>
      simp [ReplacementItem.tokens, parseBody, hfirst, hsecond, ReplacementItem.bodyItem]
    | reference mark digit n hmark hdigit =>
      have hn : n ≤ arity := hwithin (.reference mark digit n hmark hdigit) (by simp)
      simp [ReplacementItem.tokens, parseBody, hmark, parameterNumber?_cat hdigit, hdigit, hn, ReplacementItem.bodyItem]

theorem presentItems_runs {e : Engine} (items : List BodyItem) :
    Runs (presentItems · (items.map some)) e items e := by
  induction items with
  | nil => exact Runs.of_eq fun _ => rfl
  | cons item items ih => exact Runs.bind ih (Runs.of_eq fun _ => rfl)

theorem replacementText_runs {e : Engine} {arity : Nat} (r : ReplacementText arity) :
    Runs (replacementText · arity r.tokens) e (r.items.map ReplacementItem.bodyItem) e := by
  refine Runs.congr (presentItems_runs (r.items.map ReplacementItem.bodyItem)) fun m => ?_
  rw [replacementText, ReplacementText.tokens, parseBody_eq r.items r.areWithin, List.map_map]
  rfl

def ParameterList.definition (l : ParameterList) (r : ReplacementText l.parameters.length) (name : String)
    (modifiers : Modifiers) : Definition where
  name := name
  opening := l.opening
  delimiters := l.delimiters
  body := r.items.map ReplacementItem.bodyItem
  isLong := modifiers.isLong
  isOuter := modifiers.isOuter
  isProtected := modifiers.isProtected

theorem ParameterList.substitute_definition (l : ParameterList) (r : ReplacementText l.parameters.length) (name : String)
    (modifiers : Modifiers) (arguments : List (List Token)) :
    (l.definition r name modifiers).substitute arguments = r.substitute arguments := by
  rw [Definition.substitute, definition, ReplacementText.substitute, List.flatMap_map]
  congr 1
  funext item
  cases item <;> rfl

theorem controlSequence_runs {e : Engine} {target : Token} {input : Input} (htarget : target.isCode = true)
    (hpull : e.input.pull e.context.lexicon = (.token target, input)) :
    Runs controlSequence e target (e.withInput input) := by
  have hcat : target.cat ≠ .space := by
    intro hcat
    simp [Token.isCode, hcat] at htarget
  have hinput : e.input.Delivers e.context.lexicon ([] ++ [target]) input := ⟨input, hpull, rfl⟩
  have hraw : Runs nonBlankRaw e (some target) (e.withInput input) := nonBlankRaw_runs (by simp) hinput hcat
  refine Runs.bind (Runs.lift hraw) (Runs.of_eq fun m => ?_)
  simp [htarget]

/-- **A definition is read and assigned.** Nothing else changes, and no error is reported. -/
theorem define_runs {e : Engine} {rest : Input} {target left right : Token} (l : ParameterList)
    (r : ReplacementText l.parameters.length) (modifiers : Modifiers) (globally expanded : Bool)
    (htarget : target.isCode = true) (hleft : left.cat = .leftBrace) (hright : right.cat = .rightBrace)
    (hbody : expanded = true → ∀ t ∈ r.tokens, e.context.Unexpandable t)
    (hinput : e.input.Delivers e.context.lexicon (target :: (l.tokens ++ left :: (r.tokens ++ [right]))) rest) :
    Runs (define · modifiers globally expanded) e ()
      ((e.withInput rest).modifyContext (·.setMeaning target (some (.definition (l.definition r target.name modifiers)))
        (globally || modifiers.isGlobal))) := by
  obtain ⟨input, hpull, hinput⟩ := hinput
  rw [← List.singleton_append, ← List.append_assoc, Input.delivers_append] at hinput
  obtain ⟨mid, hparameters, hinput⟩ := hinput
  have hbrace : (mid.pushTokens [left]).Delivers e.context.lexicon ([left] ++ (r.tokens ++ [right])) rest :=
    Input.delivers_append.2 ⟨mid, Input.delivers_pushTokens mid [left], hinput⟩
  refine Runs.bind (Runs.lift (controlSequence_runs htarget hpull)) ?_
  refine Runs.bind (parameterText_runs (e := e.withInput input) l hleft hparameters) ?_
  have hnone : ∀ b ∈ ([] : List Token), b.cat = .space := by simp
  refine Runs.bind (Runs.lift (balancedText_runs (e := e.withInput (mid.pushTokens [left])) hnone hleft hright r.isBalanced
    hbody hbrace)) ?_
  have hlength : ParameterText.arity ⟨l.opening, l.delimiters⟩ = l.parameters.length := by
    simp [ParameterText.arity, ParameterList.delimiters]
  rw [hlength]
  exact Runs.bind (replacementText_runs r) (Runs.of_eq fun _ => rfl)

/-! ## Arguments -/

namespace Definition

section Arguments

variable {d : Definition} {e : Engine} {input rest : Input} {t : Token} {level level' : Nat} {ts delimiter : List Token}

theorem argumentToken_runs (hpull : e.input.pull e.context.lexicon = (.token t, input)) :
    Runs (d.argumentToken ·) e t (e.withInput input) :=
  Runs.bind (next_runs hpull) (Runs.of_eq fun _ => rfl)

theorem endsParagraph_eq_false (h : d.isLong = false → ¬ t.IsPar) : d.endsParagraph t = false := by
  unfold endsParagraph
  rcases hlong : d.isLong with _ | _
  · have hpar := h hlong
    simp only [Token.IsPar, not_and] at hpar
    simpa using hpar
  · rfl

theorem matchTokens_runs (hinput : e.input.Delivers e.context.lexicon ts rest) :
    Runs (d.matchTokens · ts) e () (e.withInput rest) := by
  induction ts generalizing e with
  | nil =>
    obtain rfl : e.input = rest := hinput
    exact Runs.of_eq fun _ => rfl
  | cons t ts ih =>
    obtain ⟨input, hpull, hinput⟩ := hinput
    refine Runs.bind (argumentToken_runs hpull) ?_
    simp only [ne_eq, not_true_eq_false, if_false]
    exact Runs.bind (Runs.of_eq fun _ => rfl) (ih (e := e.withInput input) hinput)

/-! ### Groups and single tokens -/

theorem groupStep_again (hpull : e.input.pull e.context.lexicon = (.token t, input))
    (hpar : d.isLong = false → ¬ t.IsPar) (hlevel : t.nest level = some level') (acc : List Token) :
    Runs (d.groupStep · (level, acc)) e (.again (level', acc ++ [t])) (e.withInput input) := by
  refine Runs.bind (argumentToken_runs hpull) ?_
  simp only [endsParagraph_eq_false hpar, hlevel]
  exact Runs.of_eq fun _ => rfl

theorem groupArgument_runs {inner : List Token} {right : Token} (hright : right.cat = .rightBrace)
    (hbalanced : Balanced inner) (hpar : d.isLong = false → ∀ t ∈ inner, ¬ t.IsPar)
    (hinput : e.input.Delivers e.context.lexicon (inner ++ [right]) rest) :
    Runs (d.groupArgument ·) e inner (e.withInput rest) := by
  have hrightPar : d.isLong = false → ¬ right.IsPar := by
    rintro - ⟨hcs, -⟩
    simp [Token.isControlSequence, hright] at hcs
  have hloop : ∀ (inner acc : List Token) (level : Nat) (e : Engine), levelAfter level inner = some 0 →
      (d.isLong = false → ∀ t ∈ inner, ¬ t.IsPar) →
      e.input.Delivers e.context.lexicon (inner ++ [right]) rest →
      Loops (d.groupStep ·) (level, acc) e (acc ++ inner) (e.withInput rest) := by
    intro inner
    induction inner with
    | nil =>
      intro acc level e hlevel _ hinput
      obtain ⟨input, hpull, rfl⟩ := hinput
      obtain rfl : level = 0 := Option.some.inj hlevel
      refine Loops.done (Runs.bind (argumentToken_runs hpull) ?_)
      simp only [endsParagraph_eq_false hrightPar, Token.nest_rightBrace_zero hright, List.append_nil]
      exact Runs.of_eq fun _ => rfl
    | cons t inner ih =>
      intro acc level e hlevel hpar hinput
      obtain ⟨input, hpull, hinput⟩ := hinput
      rw [levelAfter_cons, Option.bind_eq_some_iff] at hlevel
      obtain ⟨level', hstep, hlevel⟩ := hlevel
      have hread := groupStep_again (d := d) hpull (fun hlong => hpar hlong t (by simp)) hstep acc
      have hrest := ih (acc ++ [t]) level' (e.withInput input) hlevel (fun hlong u hu => hpar hlong u (by simp [hu])) hinput
      rw [List.append_assoc] at hrest
      exact Loops.again hread hrest
  exact Loops.runs (hloop inner [] 0 e hbalanced hpar hinput)

theorem undelimitedArgument_runs {argument value : List Token} (hfits : Fits d.isLong [] argument)
    (hvalue : Unbraced argument value) (hinput : e.input.Delivers e.context.lexicon argument rest) :
    Runs (d.undelimitedArgument ·) e value (e.withInput rest) := by
  refine Loops.runs (Loops.done ?_)
  rcases hvalue with ⟨left, right, hleft, hright, hinner, rfl⟩ | ⟨hnone, rfl⟩
  · -- a group
    obtain ⟨input, hpull, hinput⟩ := hinput
    have hpar : d.isLong = false → ¬ left.IsPar := fun hlong => hfits.noPar hlong left (by simp)
    refine Runs.bind (argumentToken_runs hpull) ?_
    simp only [hleft, reduceCtorEq, endsParagraph_eq_false hpar, Bool.false_eq_true, if_false]
    refine Runs.bind ?_ (Runs.of_eq fun _ => rfl)
    refine groupArgument_runs (e := e.withInput input) hright hinner (fun hlong t ht => ?_) hinput
    exact hfits.noPar hlong t (by simp [ht])
  · -- a single token
    obtain ⟨inner, hgroup⟩ | ⟨t, rfl, hspace, hleft, hright⟩ := hfits.undelimited rfl
    · exact absurd hgroup (hnone inner)
    · obtain ⟨input, hpull, rfl⟩ := hinput
      have hpar : d.isLong = false → ¬ t.IsPar := fun hlong => hfits.noPar hlong t (by simp)
      refine Runs.bind (argumentToken_runs hpull) ?_
      simp only [hspace, if_false, endsParagraph_eq_false hpar, Bool.false_eq_true]
      refine Runs.of_eq fun m => ?_
      cases hcat : t.cat with
      | leftBrace => exact absurd hcat hleft
      | rightBrace => exact absurd hcat hright
      | _ => rfl

/-! ### Delimited arguments -/

theorem delimitedStep_again (hpull : e.input.pull e.context.lexicon = (.token t, input))
    (hpar : d.isLong = false → ¬ t.IsPar) (hlevel : t.nest level = some level') {acc : List Token}
    (hbefore : ¬ (level' = 0 ∧ delimiter <:+ acc ++ [t])) :
    Runs (d.delimitedStep · delimiter (level, acc)) e (.again (level', acc ++ [t])) (e.withInput input) := by
  have hcond : (level' = 0 && delimiter.isSuffixOf (acc ++ [t])) = false := by
    rw [Bool.eq_false_iff]
    simpa using hbefore
  refine Runs.bind (argumentToken_runs hpull) ?_
  simp only [endsParagraph_eq_false hpar, Bool.false_eq_true, if_false, hlevel, hcond]
  exact Runs.of_eq fun _ => rfl

theorem delimitedStep_done (hpull : e.input.pull e.context.lexicon = (.token t, input))
    (hpar : d.isLong = false → ¬ t.IsPar) (hlevel : t.nest level = some 0) {acc argument : List Token}
    (hend : acc ++ [t] = argument ++ delimiter) :
    Runs (d.delimitedStep · delimiter (level, acc)) e (.done (stripBraces argument)) (e.withInput input) := by
  have htake : (argument ++ delimiter).take ((argument ++ delimiter).length - delimiter.length) = argument := by
    simp
  refine Runs.bind (argumentToken_runs hpull) ?_
  simp only [endsParagraph_eq_false hpar, Bool.false_eq_true, if_false, hlevel, hend, htake]
  refine Runs.of_eq fun _ => ?_
  simp

/-- An argument and its delimiter are read, as long as something of the delimiter is still to come. -/
theorem delimited_advances {argument seen unseen : List Token} (hfits : Fits d.isLong delimiter argument)
    (hne : delimiter ≠ []) (hplain : ∀ t ∈ delimiter, t.IsNoBrace) (hwhole : argument ++ delimiter = seen ++ unseen)
    (hunseen : unseen ≠ []) (hpar : d.isLong = false → ∀ t ∈ seen, ¬ t.IsPar)
    (hinput : e.input.Delivers e.context.lexicon seen rest) :
    ∃ level, levelAfter level unseen = some 0 ∧
      Advances (d.delimitedStep · delimiter) (0, []) e (level, seen) (e.withInput rest) := by
  have hend : levelAfter 0 (seen ++ unseen) = some 0 := by
    rw [← hwhole, levelAfter_append, hfits.isBalanced]
    exact levelAfter_noBraces hplain
  -- the tokens read and those to come make up what is seen, and the level goes with the former
  have hloop : ∀ (ts acc : List Token) (level : Nat) (e : Engine), acc ++ ts = seen → levelAfter 0 acc = some level →
      e.input.Delivers e.context.lexicon ts rest → ∃ level', levelAfter level' unseen = some 0 ∧
        Advances (d.delimitedStep · delimiter) (level, acc) e (level', seen) (e.withInput rest) := by
    intro ts
    induction ts with
    | nil =>
      rintro acc level e rfl hlevel hinput
      obtain rfl : e.input = rest := hinput
      rw [List.append_nil, levelAfter_append, hlevel, Option.bind_some] at hend
      rw [List.append_nil]
      exact ⟨level, hend, .refl _ _⟩
    | cons t ts ih =>
      rintro acc level e rfl hlevel ⟨input, hpull, hinput⟩
      obtain ⟨level₁, hstep, -⟩ : ∃ level₁, t.nest level = some level₁ ∧ levelAfter level₁ (ts ++ unseen) = some 0 := by
        rw [List.append_assoc, levelAfter_append, hlevel, Option.bind_some, List.cons_append, levelAfter_cons,
          Option.bind_eq_some_iff] at hend
        exact hend
      have hlevel₁ : levelAfter 0 (acc ++ [t]) = some level₁ := by
        rw [levelAfter_append, hlevel, Option.bind_some, levelAfter_singleton, hstep]
      obtain ⟨level', hlast, hadvances⟩ := ih (acc ++ [t]) level₁ (e.withInput input) (by simp) hlevel₁ hinput
      refine ⟨level', hlast, .again (delimitedStep_again hpull (fun hlong => hpar hlong t (by simp)) hstep ?_) hadvances⟩
      -- an earlier delimiter outside of groups would be the first one
      rintro ⟨rfl, hsuffix⟩
      have hsplit : argument ++ delimiter = acc ++ [t] ++ (ts ++ unseen) := by simp [hwhole]
      have hfirst := hfits.delimited hne (acc ++ [t]) ⟨ts ++ unseen, hsplit.symm⟩ hlevel₁ hsuffix
      rw [← hfirst] at hsplit
      simp [hunseen] at hsplit
  exact hloop seen [] 0 e rfl rfl hinput

theorem delimitedArgument_runs {argument value : List Token} (hfits : Fits d.isLong delimiter argument)
    (hne : delimiter ≠ []) (hplain : ∀ t ∈ delimiter, t.IsNoBrace)
    (hdelimiter : d.isLong = false → ∀ t ∈ delimiter, ¬ t.IsPar) (hvalue : Unbraced argument value)
    (hinput : e.input.Delivers e.context.lexicon (argument ++ delimiter) rest) :
    Runs (d.delimitedArgument · delimiter) e value (e.withInput rest) := by
  have hpar : d.isLong = false → ∀ t ∈ argument ++ delimiter, ¬ t.IsPar := by
    intro hlong t ht
    rcases List.mem_append.1 ht with ht | ht
    · exact hfits.noPar hlong t ht
    · exact hdelimiter hlong t ht
  obtain ⟨seen, last, hwhole⟩ : ∃ seen last, argument ++ delimiter = seen ++ [last] :=
    ⟨_, _, (List.dropLast_append_getLast (by simp [hne])).symm⟩
  rw [hwhole] at hpar hinput
  obtain ⟨mid, hseen, input, hpull, rfl⟩ := Input.delivers_append.1 hinput
  obtain ⟨level, hlast, hadvances⟩ := delimited_advances hfits hne hplain hwhole (by simp)
    (fun hlong t ht => hpar hlong t (by simp [ht])) hseen
  rw [← stripBraces_eq hfits.isBalanced hvalue]
  refine Loops.runs (hadvances.loops (Loops.done ?_))
  rw [levelAfter_singleton] at hlast
  exact delimitedStep_done (e := e.withInput mid) hpull (fun hlong => hpar hlong last (by simp)) hlast hwhole.symm

/-! ### All arguments -/

theorem readArguments_runs {delimiters arguments values : List (List Token)}
    (hplain : ∀ delimiter ∈ delimiters, ∀ t ∈ delimiter, t.IsNoBrace)
    (hpar : d.isLong = false → ∀ delimiter ∈ delimiters, ∀ t ∈ delimiter, ¬ t.IsPar)
    (hfits : List.Forall₂ (Fits d.isLong) delimiters arguments) (hvalues : List.Forall₂ Unbraced arguments values)
    (hinput : e.input.Delivers e.context.lexicon (useTokens delimiters arguments) rest) :
    Runs (d.readArguments · delimiters) e values (e.withInput rest) := by
  induction hfits generalizing values e with
  | nil =>
    cases hvalues
    obtain rfl : e.input = rest := hinput
    exact Runs.of_eq fun _ => rfl
  | @cons delimiter argument delimiters arguments hargument _ ih =>
    obtain _ | @⟨_, value, _, values, hvalue, hvalues⟩ := hvalues
    rw [useTokens, Input.delivers_append] at hinput
    obtain ⟨mid, hfirst, hinput⟩ := hinput
    have hrest := ih (e := e.withInput mid) (fun delimiter h => hplain delimiter (by simp [h]))
      (fun hlong delimiter h => hpar hlong delimiter (by simp [h])) hvalues hinput
    have hcons : Runs (fun m => return value :: (← d.readArguments m delimiters)) (e.withInput mid) (value :: values)
        (e.withInput rest) := Runs.bind hrest (Runs.of_eq fun _ => rfl)
    by_cases hempty : delimiter = []
    · subst hempty
      rw [List.append_nil] at hfirst
      exact Runs.bind (undelimitedArgument_runs hargument hvalue hfirst) hcons
    · have hdelimited := delimitedArgument_runs hargument hempty (hplain delimiter (by simp))
        (fun hlong => hpar hlong delimiter (by simp)) hvalue hfirst
      simp only [readArguments, List.isEmpty_iff, hempty, if_false]
      exact Runs.bind hdelimited hcons

/-- **A use of a definition is replaced by its replacement text with the arguments in place.** -/
theorem expand_runs {arguments values : List (List Token)}
    (hplain : ∀ delimiter ∈ d.delimiters, ∀ t ∈ delimiter, t.IsNoBrace)
    (hpar : d.isLong = false → ∀ delimiter ∈ d.delimiters, ∀ t ∈ delimiter, ¬ t.IsPar)
    (hfits : List.Forall₂ (Fits d.isLong) d.delimiters arguments) (hvalues : List.Forall₂ Unbraced arguments values)
    (hinput : e.input.Delivers e.context.lexicon (d.opening ++ useTokens d.delimiters arguments) rest) :
    Runs (d.expand ·) e (d.substitute values) (e.withInput rest) := by
  rw [Input.delivers_append] at hinput
  obtain ⟨mid, hopening, hinput⟩ := hinput
  refine Runs.bind (matchTokens_runs hopening) ?_
  exact Runs.bind (readArguments_runs (e := e.withInput mid) hplain hpar hfits hvalues hinput) (Runs.of_eq fun _ => rfl)

end Arguments

end Definition

/-! ## Defining and using -/

theorem exists_forall₂_unbraced (arguments : List (List Token)) : ∃ values, List.Forall₂ Unbraced arguments values := by
  induction arguments with
  | nil => exact ⟨[], .nil⟩
  | cons argument arguments ih =>
    obtain ⟨values, hvalues⟩ := ih
    obtain ⟨value, hvalue⟩ := exists_unbraced argument
    exact ⟨value :: values, .cons hvalue hvalues⟩

/-- **Defining a control sequence and using it is simultaneous substitution.** A definition is read up to its right
brace, without an error and without any other change. Whatever the state of the engine is later, the use of the
definition with fitting arguments is then replaced by the replacement text with every reference replaced by its argument,
which loses one pair of braces around it; nothing but the use is read. -/
theorem define_expand {e : Engine} {rest : Input} {target left right : Token} (l : ParameterList)
    (r : ReplacementText l.parameters.length) (modifiers : Modifiers) (globally expanded : Bool)
    (htarget : target.isCode = true) (hleft : left.cat = .leftBrace) (hright : right.cat = .rightBrace)
    (hbody : expanded = true → ∀ t ∈ r.tokens, e.context.Unexpandable t)
    (hpar : modifiers.isLong = false → ∀ delimiter ∈ l.delimiters, ∀ t ∈ delimiter, ¬ t.IsPar)
    (hinput : e.input.Delivers e.context.lexicon (target :: (l.tokens ++ left :: (r.tokens ++ [right]))) rest) :
    ∃ (d : Definition) (e₁ : Engine), Runs (define · modifiers globally expanded) e () e₁ ∧
      e₁ = (e.withInput rest).modifyContext
        (·.setMeaning target (some (.definition d)) (globally || modifiers.isGlobal)) ∧
      e₁.context.meaning target = some (.definition d) ∧
      ∀ (e₂ : Engine) (arguments : List (List Token)) (rest' : Input),
        List.Forall₂ (Fits modifiers.isLong) l.delimiters arguments →
        e₂.input.Delivers e₂.context.lexicon (l.opening ++ useTokens l.delimiters arguments) rest' →
        ∃ values, List.Forall₂ Unbraced arguments values ∧
          Runs (d.expand ·) e₂ (r.substitute values) (e₂.withInput rest') := by
  refine ⟨l.definition r target.name modifiers, _, define_runs l r modifiers globally expanded htarget hleft hright hbody
    hinput, rfl, Context.meaning_setMeaning _ _ _ _, ?_⟩
  intro e₂ arguments rest' hfits huse
  have hplain : ∀ delimiter ∈ l.delimiters, ∀ t ∈ delimiter, t.IsNoBrace := by
    intro delimiter hdelimiter t ht
    obtain ⟨p, hp, rfl⟩ := List.mem_map.1 hdelimiter
    exact (p.arePlain t ht).1
  obtain ⟨values, hvalues⟩ := exists_forall₂_unbraced arguments
  refine ⟨values, hvalues, ?_⟩
  rw [← l.substitute_definition r target.name modifiers values]
  exact Definition.expand_runs (d := l.definition r target.name modifiers) hplain hpar hfits hvalues huse

namespace ParameterList

/-- `a#1.#2` -/
def sample : ParameterList where
  opening := [.letter 'a']
  parameters :=
    [⟨.character .parameter '#', .other '1', 1, [.other '.'], rfl, by decide, by decide⟩,
      ⟨.character .parameter '#', .other '2', 2, [], rfl, by decide, by decide⟩]
  arePlain := by decide
  areNumbered := by decide

/-- `#2##{#1}` -/
def sampleText : ReplacementText sample.parameters.length where
  items :=
    [.reference (.character .parameter '#') (.other '2') 2 rfl (by decide),
      .doubled (.character .parameter '#') (.character .parameter '#') rfl rfl,
      .ordinary .leftBrace (by decide),
      .reference (.character .parameter '#') (.other '1') 1 rfl (by decide),
      .ordinary .rightBrace (by decide)]
  isBalanced := by decide
  areWithin := by simp [ReplacementItem.IsWithin, sample]

/-- The arguments of `a{b.c}.x`. -/
def sampleArguments : List (List Token) :=
  [[.leftBrace, .letter 'b', .other '.', .letter 'c', .rightBrace], [.letter 'x']]

theorem sample_fits : List.Forall₂ (Fits false) sample.delimiters sampleArguments := by
  have hfirst : ∀ ts ∈ ([.leftBrace, .letter 'b', .other '.', .letter 'c', .rightBrace, .other '.'] : List Token).inits,
      levelAfter 0 ts = some 0 → [Token.other '.'] <:+ ts →
      ts = [.leftBrace, .letter 'b', .other '.', .letter 'c', .rightBrace, .other '.'] := by decide
  refine .cons ⟨by decide, fun _ => by decide, (fun h => by cases h), fun _ ts hts => ?_⟩ (.cons ?_ .nil)
  · exact hfirst ts ((List.mem_inits ts _).2 hts)
  · exact ⟨by decide, fun _ => by decide, fun _ => .inr ⟨_, rfl, by decide, by decide⟩, fun h => absurd rfl h⟩

def sampleTokens : List Token :=
  .controlSequence "x" "" :: (sample.tokens ++ .leftBrace :: (sampleText.tokens ++ [.rightBrace]))

def sampleUse : List Token := sample.opening ++ useTokens sample.delimiters sampleArguments

end ParameterList

open ParameterList in
/-- A definition with two parameters and a use of it, whose first argument is a group with the delimiter in it. -/
theorem define_expand_sample :
    ∃ (d : Definition) (e₁ : Engine),
      Runs (define · .none false false) { context := {}, input := Input.pushTokens [] sampleTokens } () e₁ ∧
      e₁.context.meaning (.controlSequence "x" "") = some (.definition d) ∧
      ∃ values, List.Forall₂ Unbraced sampleArguments values ∧
        Runs (d.expand ·) { e₁ with input := Input.pushTokens [] sampleUse } (sampleText.substitute values)
          { e₁ with input := [] } := by
  let e : Engine := { context := {}, input := Input.pushTokens [] sampleTokens }
  have hinput : e.input.Delivers e.context.lexicon sampleTokens [] := Input.delivers_pushTokens [] sampleTokens
  obtain ⟨d, e₁, hdefine, -, hmeaning, huse⟩ :=
    define_expand sample sampleText .none false false (by decide) rfl rfl (by simp) (fun _ => by decide) hinput
  refine ⟨d, e₁, hdefine, hmeaning, ?_⟩
  exact huse { e₁ with input := Input.pushTokens [] sampleUse } sampleArguments [] sample_fits
    (Input.delivers_pushTokens [] sampleUse)

end Compositor
