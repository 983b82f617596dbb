import Compositor.Declaration.Builtin
import Compositor.Proofs.Engine.Copies
import Compositor.Proofs.Engine.Grouping

/-!
# Definitions are well formed

A definition is read from any tokens, however malformed they are: misplaced parameter characters are reported, and reading
goes on after each of them. What is defined in the end can be used without looking for an argument which is not there.

* `Definition.WellFormed` says what holds of all definitions which are read (`readDefinition_ok`);
* `Definition.substitute?` is the replacement which insists on its arguments. For well-formed definitions it is
  `Definition.substitute`, since there is an argument for each of the parameters (`readArguments_length`);
* `Context.Relaxes` says what may become of meanings while a definition is read: only an undefined one changes, if a name is
  made while the replacement text is expanded;
* `definitions_well_formed` is the statement about `define`.
-/

namespace Compositor

/-! ## Well-formed definitions -/

/-- The token which an item of a replacement text stands for, unless it stands for an argument. -/
def BodyItem.token? : BodyItem → Option Token
  | token t => some t
  | argument _ => none

namespace Definition

/-- The tokens of the replacement text, without the references to arguments. -/
def tokens (d : Definition) : List Token := d.body.filterMap BodyItem.token?

/-- There are no more parameters than there are digits for them, the tokens between them can be matched, and the replacement
text refers only to parameters which there are. -/
structure WellFormed (d : Definition) : Prop where
  arity_le : d.arity ≤ 9
  arePlain : ∀ ts ∈ d.opening :: d.delimiters, ∀ t ∈ ts, t.IsPlain
  inRange : ∀ n, .argument n ∈ d.body → 1 ≤ n ∧ n ≤ d.arity

/-- What takes the place of an item. There is nothing if its argument is missing. -/
def value? (arguments : List (List Token)) : BodyItem → Option (List Token)
  | .token t => some [t]
  | .argument n => if n = 0 then none else arguments[n - 1]?

/-- The replacement text with the arguments in place, if none of them is missing. -/
def substitute? (d : Definition) (arguments : List (List Token)) : Option (List Token) :=
  (d.body.mapM (value? arguments)).map List.flatten

variable {d : Definition} {m : Machine} {e e' : Engine} {arguments delimiters : List (List Token)}

theorem mapM_value? (d : Definition) {items : List BodyItem}
    (h : ∀ n, .argument n ∈ items → 1 ≤ n ∧ n ≤ arguments.length) :
    (items.mapM (value? arguments)).map List.flatten = some ({ d with body := items }.substitute arguments) := by
  induction items with
  | nil => rfl
  | cons item items ih =>
    obtain ⟨tail, htail, hflatten⟩ := Option.map_eq_some_iff.1 (ih fun n hn => h n (List.mem_cons_of_mem item hn))
    rw [substitute] at hflatten
    cases item with
    | token t => simp [value?, htail, hflatten, substitute]
    | argument n =>
      obtain ⟨hlow, hhigh⟩ := h n List.mem_cons_self
      have hargument : arguments[n - 1]? = some arguments[n - 1] := List.getElem?_eq_getElem (by omega)
      simp [value?, htail, hflatten, hargument, Nat.ne_of_gt hlow, substitute]

theorem readArguments_length (h : d.readArguments m delimiters e = .ok arguments e') :
    arguments.length = delimiters.length := by
  induction delimiters generalizing arguments e with
  | nil =>
    cases h
    rfl
  | cons delimiter delimiters ih =>
    obtain ⟨argument, e₁, h⟩ : ∃ argument e₁,
        (do return argument :: (← d.readArguments m delimiters) : Action _) e₁ = .ok arguments e' := by
      rw [readArguments] at h
      split at h <;> exact (Proc.bind_eq_ok h).imp fun argument => Exists.imp fun e₁ => And.right
    obtain ⟨rest, e₂, hrest, h⟩ := Proc.bind_eq_ok h
    cases h
    rw [List.length_cons, List.length_cons, ih hrest]

/-- **No argument is missing** when a well-formed definition is used. -/
theorem WellFormed.substitute?_eq (hd : d.WellFormed) (h : d.readArguments m d.delimiters e = .ok arguments e') :
    d.substitute? arguments = some (d.substitute arguments) := by
  refine mapM_value? d fun n hn => ?_
  rw [readArguments_length h]
  exact hd.inRange n hn

end Definition

/-! ## What is read -/

/-- Reads the control sequence which is to be defined, and its parameter text. -/
def readHead (m : Machine) : Action (Token × ParameterText) := do
  let target ← controlSequence m
  return (target, ← parameterText m)

/-- Reads a definition and the control sequence which is to be defined. -/
def readDefinition (m : Machine) (modifiers : Modifiers) (expanded : Bool) : Action (Token × Definition) := do
  let (target, p) ← readHead m
  let text ← balancedText m expanded
  let body ← replacementText m p.arity text
  return (target,
    { name := target.name, opening := p.opening, delimiters := p.delimiters, body,
      isLong := modifiers.isLong, isOuter := modifiers.isOuter, isProtected := modifiers.isProtected })

section Reading

variable {n : Nat} {m : Machine} {modifiers : Modifiers} {globally expanded : Bool} {e e' : Engine} {target : Token}
  {d : Definition}

theorem define_eq (m : Machine) (modifiers : Modifiers) (globally expanded : Bool) :
    define m modifiers globally expanded = (do
      let (target, d) ← readDefinition m modifiers expanded
      modifyContext (·.setMeaning target (some (.definition d)) (globally || modifiers.isGlobal))) := by
  simp only [define, readDefinition, readHead, bind_assoc, pure_bind]

theorem isNoBrace_of_parameter {t : Token} (h : t.cat = .parameter) : t.IsNoBrace := by simp [Token.IsNoBrace, h]

theorem isNoBrace_of_parameterNumber? {t : Token} {k : Nat} (h : parameterNumber? t = some k) : t.IsNoBrace := by
  simp [Token.IsNoBrace, (parameterNumber?_eq_some h).1]

/-- What is found in a replacement text has the braces of the text, since only parameter characters and digits are left
out. -/
theorem levelAfter_parseBody (arity level : Nat) (text : List Token) :
    levelAfter level (((parseBody arity text).filterMap id).filterMap BodyItem.token?) = levelAfter level text := by
  have hleft : ∀ (t : Token) (ts : List Token) (level : Nat), t.IsNoBrace → levelAfter level (t :: ts) = levelAfter level ts :=
    fun t ts level ht => by rw [levelAfter_cons, Token.nest_noBrace ht, Option.bind_some]
  fun_induction parseBody arity text generalizing level with
  | case1 | case2 t => rfl
  | case3 t next rest _ ih =>
    show levelAfter level (t :: _) = _
    rw [levelAfter_cons, levelAfter_cons]
    exact congrArg _ (funext ih)
  | case4 t next rest ht _ ih =>
    rw [hleft t (next :: rest) level (isNoBrace_of_parameter (not_not.1 ht))]
    show levelAfter level (next :: _) = _
    rw [levelAfter_cons, levelAfter_cons]
    exact congrArg _ (funext ih)
  | case5 t next rest ht _ k hnumber _ ih =>
    rw [hleft t (next :: rest) level (isNoBrace_of_parameter (not_not.1 ht)),
      hleft next rest level (isNoBrace_of_parameterNumber? hnumber)]
    exact ih level
  | case6 t next rest ht _ k _ _ ih | case7 t next rest ht _ _ ih =>
    rw [hleft t (next :: rest) level (isNoBrace_of_parameter (not_not.1 ht))]
    exact ih level

/-- **What is defined is well formed**, and its replacement text is balanced unless a token is reported to be missing. -/
theorem readDefinition_ok (h : readDefinition (machine n) modifiers expanded e = .ok (target, d) e') :
    ∃ p e₁ text e₂, readHead (machine n) e = .ok (target, p) e₁ ∧
      (balancedText (machine n) expanded : Proc (List Token) (List Token)) e₁ = .ok text e₂ ∧ d.WellFormed ∧
        (e₂.missing = e₁.missing → Balanced d.tokens) := by
  have hm := machine_sound n
  obtain ⟨⟨target', p⟩, e₁, hhead, h⟩ := Proc.bind_eq_ok h
  obtain ⟨text, e₂, htext, h⟩ := Proc.bind_eq_ok h
  obtain ⟨body, e₃, hbody, h⟩ := Proc.bind_eq_ok h
  cases h
  rw [Proc.lift_eq_ok] at htext
  have hp : p.WellFormed := by
    obtain ⟨_, mid, -, hhead⟩ := Proc.bind_eq_ok hhead
    obtain ⟨p', _, hparameters, hhead⟩ := Proc.bind_eq_ok hhead
    cases hhead
    have hmeets : Meets ⟨False, .scanning, False⟩ (parameterText (machine n)) ParameterText.WellFormed :=
      meets_parameterText hm
    exact ((hmeets mid False.elim).ok hparameters).2
  have hitems : body = (parseBody p.arity text).filterMap id := by
    have hmeets : Meets ⟨False, .scanning, False⟩ (presentItems (machine n) (parseBody p.arity text)) _ :=
      meets_presentItems hm _
    exact ((hmeets e₂ False.elim).ok hbody).2
  refine ⟨p, e₁, text, e₂, hhead, htext, ⟨hp.arity_le, hp.arePlain, fun k hk => ?_⟩, fun hmissing => ?_⟩
  · rw [hitems, List.mem_filterMap] at hk
    obtain ⟨_, hitem, rfl⟩ := hk
    rcases mem_parseBody hitem with ⟨t, -, heq⟩ | ⟨k', heq, hk'⟩
    · cases heq
    · cases heq
      exact hk'
  · obtain ⟨opening, rest, -, ⟨blanks, group, -, ⟨left, right, -, -, hbalanced, -⟩, -⟩, -⟩ :=
      balancedText_draws htext hmissing
    rw [Balanced, Definition.tokens, hitems, levelAfter_parseBody]
    exact hbalanced

end Reading

/-! ## Meanings while a definition is read -/

/-- Meanings stay as they are, but undefined tokens may become a `relax`. -/
def Context.Relaxes (c c' : Context) : Prop :=
  ∀ t, c'.meaning t = c.meaning t ∨
    c.meaning t = none ∧ ∃ id, c'.meaning t = some (.primitive id "relax" (.command .relax))

/-- A meaning is given to an undefined token, and perhaps to others of the same name which have none of their own. -/
theorem Context.relaxes_setMeaning {c : Context} {t : Token} (ht : c.meaning t = none) (id : Nat) (globally : Bool) :
    c.Relaxes (c.setMeaning t (some (.primitive id "relax" (.command .relax))) globally) := by
  intro u
  cases hu : c.meaning u with
  | some m => exact .inl (Context.meaning_setMeaning_of_undefined ht hu _ globally)
  | none => exact (hu ▸ c.meaning_setMeaning_cases t u _ globally).imp_right fun hrelax => ⟨rfl, id, hrelax⟩

theorem keptByScanners_relaxes : KeptByScanners Context.Relaxes where
  refl _ _ := .inl rfl
  trans {c c₁ c'} h h' t := by
    rcases h t with heq | ⟨hnone, id, hrelax⟩
    · rw [← heq]
      exact h' t
    · refine .inr ⟨hnone, ?_⟩
      rcases h' t with heq | ⟨hundefined, -⟩
      · exact ⟨id, heq.trans hrelax⟩
      · cases hrelax.symm.trans hundefined
  relax _ _ id ht := Context.relaxes_setMeaning ht id false
  mode c mode t := .inl (congrFun (c.meaning_setInteraction mode true) t)
  lock _ _ _ := .inl rfl
  conditionals _ _ _ := .inl rfl

theorem ignoresReports_meaning : IgnoresReports fun e => e.context.meaning where
  stopped _ _ := rfl
  consulted _ _ := rfl
  answered _ _ := rfl
  decided _ _ := rfl
  forgiven _ _ := rfl
  messaged _ _ := rfl
  aside _ _ _ _ _ _ _ := rfl
  mode e mode := e.context.meaning_setInteraction mode true

section Stopped

variable {n : Nat} {modifiers : Modifiers} {expanded : Bool} {e e' : Engine} {target left : Token} {p : ParameterText}

theorem meets_readDefinition {m : Machine} (hm : m.Sound) (modifiers : Modifiers) (expanded : Bool) :
    Meets ⟨False, .scanning, False⟩ (readDefinition m modifiers expanded) fun _ => True := by
  have hhead : Meets ⟨False, .scanning, False⟩ (readHead m) fun _ => True :=
    (meets_controlSequence hm).lift.bind fun _ _ => (meets_parameterText hm).bind fun _ _ => .pure trivial
  refine hhead.bind fun head _ => (meets_balancedText hm expanded).lift.bind fun text _ => ?_
  exact (meets_presentItems hm _).bind fun _ _ => .pure trivial

theorem relaxes_readDefinition (n : Nat) (modifiers : Modifiers) (expanded : Bool) (e : Engine) :
    e.context.Relaxes (finalState (readDefinition (machine n) modifiers expanded e)).context := by
  obtain ⟨o, hcourse⟩ := Attains.course (meets_readDefinition (machine_sound n) modifiers expanded e False.elim)
  exact hcourse.keeps_context rfl keptByScanners_relaxes

/-! ### Without expansion -/

theorem keeps_meaning_next (n : Nat) : Keeps (fun e => e.context.meaning) (machine n).next :=
  keeps_next ignoresReports_meaning (fun _ _ _ => rfl) n

theorem keeps_meaning_reportHere (n : Nat) (kind : Kind) (arguments : List Argument) :
    Keeps (fun e => e.context.meaning) (reportHere (machine n) kind arguments) :=
  keeps_reportHere ignoresReports_meaning (keeps_meaning_next n) (fun _ _ _ => rfl) arguments

theorem keeps_meaning_readHead (n : Nat) : Keeps (fun e => e.context.meaning) (readHead (machine n)) := by
  have hnext := keeps_meaning_next n
  have hreport := keeps_meaning_reportHere n
  have hpush : ∀ {β : Type} (t : Token), Keeps (fun e => e.context.meaning) (pushBack t : Proc β Unit) :=
    fun t => keeps_pushBack ignoresReports_meaning t
  have hcontrolSequence : Keeps (fun e => e.context.meaning) (controlSequence (machine n)) := by
    have hmissing := ((hreport .missingControlSequence []).giving inaccessible).bind fun _ => Keeps.pure inaccessible
    refine (Keeps.iterate (fun _ => hnext.bind fun x => .pure (skipSpace x)) _ ()).lift.bind fun x => ?_
    cases x with
    | none => exact hmissing
    | some t => exact .ite (.pure t) ((hpush t).bind fun _ => hmissing)
  have hparameterText : Keeps (fun e => e.context.meaning) (parameterText (machine n)) := by
    refine .iterate (fun (p : ParameterText) => hnext.bind fun x => ?_) (machine n).fuel _
    cases x with
    | none => exact keeps_complain ignoresReports_meaning _ _
    | some t =>
      have hmisplaced : Keeps (fun e => e.context.meaning) (do
          reportParameterCharacter (machine n)
          return .again p : Action (Turn ParameterText ParameterText)) := (hreport _ _).bind fun _ => .pure _
      dsimp only
      split
      · exact (hpush t).bind fun _ => .pure _
      · exact (hpush t).bind fun _ => keeps_complain ignoresReports_meaning _ _
      · refine hnext.bind fun x => .ite (.pure _) ?_
        cases x with
        | none => exact hmisplaced
        | some u => exact (hpush u).bind fun _ => hmisplaced
      · exact .pure _
  exact hcontrolSequence.lift.bind fun _ => hparameterText.bind fun _ => .pure _

theorem keeps_meaning_untilRightBrace (n : Nat) :
    Keeps (fun e => e.context.meaning) (untilRightBrace (machine n) (machine n).next) := by
  refine .iterate (fun (s : Nat × List Token) => ?_) (machine n).fuel _
  refine ((keeps_meaning_next n).giving s.2).bind fun x => ?_
  cases x with
  | none => exact ((keeps_meaning_reportHere n _ _).giving s.2).bind fun _ => .pure _
  | some t =>
    dsimp only
    split <;> exact .pure _

theorem keeps_meaning_presentItems (n : Nat) (items : List (Option BodyItem)) :
    Keeps (fun e => e.context.meaning) (presentItems (machine n) items) := by
  induction items with
  | nil => exact .pure []
  | cons item items ih =>
    cases item with
    | none => exact (keeps_meaning_reportHere n _ _).bind fun _ => ih
    | some item => exact ih.bind fun body => .pure (item :: body)

/-- A parameter text ends in front of a left brace. -/
theorem readHead_ahead (h : readHead (machine n) e = .ok (target, p) e') :
    ∃ left ts, e'.input.ahead = left :: ts ∧ left.cat = .leftBrace := by
  obtain ⟨_, e₁, -, h⟩ := Proc.bind_eq_ok h
  obtain ⟨p', e₂, hparameters, h⟩ := Proc.bind_eq_ok h
  cases h
  obtain ⟨p', e₃, hstep⟩ := iterate_ends hparameters
  obtain ⟨x, e₄, -, hstep⟩ := Proc.bind_eq_ok hstep
  cases x with
  | none => cases hstep
  | some t =>
    cases hcat : t.cat with
    | leftBrace =>
      simp only [hcat] at hstep
      cases hstep
      exact ⟨t, e₄.input.ahead, e₄.input.ahead_pushTokens [t], hcat⟩
    | parameter =>
      -- after a parameter character, reading goes on in any case
      simp only [hcat] at hstep
      obtain ⟨y, e₅, -, hstep⟩ := Proc.bind_eq_ok hstep
      by_cases hnumber : y.bind parameterNumber? = some (p'.arity + 1)
      · rw [if_pos hnumber] at hstep
        cases hstep
      · rw [if_neg hnumber] at hstep
        cases y with
        | none =>
          obtain ⟨_, _, -, hstep⟩ := Proc.bind_eq_ok hstep
          cases hstep
        | some u =>
          obtain ⟨_, _, -, hstep⟩ := Proc.bind_eq_ok hstep
          obtain ⟨_, _, -, hstep⟩ := Proc.bind_eq_ok hstep
          cases hstep
    | _ =>
      simp only [hcat] at hstep
      cases hstep

theorem attempts_openingBrace {ts : List Token} (hahead : e.input.ahead = left :: ts) (hleft : left.cat = .leftBrace)
    (n : Nat) : ∃ rest, Attempts (openingBrace (machine n)) e () (e.withInput rest) := by
  obtain ⟨rest, hpull, -⟩ := Input.pull_of_ahead hahead e.context.lexicon
  have hunexpandable : e.context.Unexpandable left :=
    e.context.unexpandable_of_not_isCode (by simp [Token.isCode, hleft])
  have hread : Attempts (machine n).nextExpanded e (some left) (e.withInput rest) :=
    attempts_nextExpanded hpull (by simp) (by simpa [Pulled.token?] using hunexpandable) n
  have hnonBlank : Attempts (nonBlank (machine n)) e (some left) (e.withInput rest) := by
    refine Attempts.iterate (hread.bind ?_) _
    simp [skipSpace, hleft]
  refine ⟨rest, hnonBlank.lift.bind ?_⟩
  simp [hleft]

theorem meaning_readDefinition (n : Nat) (modifiers : Modifiers) (e : Engine) :
    (finalState (readDefinition (machine n) modifiers false e)).context.meaning = e.context.meaning := by
  have hhead := keeps_meaning_readHead n e
  unfold readDefinition
  cases hread : readHead (machine n) e with
  | error i e₁ =>
    rw [hread] at hhead
    rw [Proc.bind_error hread]
    exact hhead
  | ok head e₁ =>
    obtain ⟨target, p⟩ := head
    rw [hread] at hhead
    obtain ⟨left, ts, hahead, hleft⟩ := readHead_ahead hread
    obtain ⟨rest, hopening⟩ := attempts_openingBrace hahead hleft n
    let Kept (e' : Engine) : Prop := e'.context.meaning = e.context.meaning
    have hopened : Kept (finalState (openingBrace (machine n) e₁)) := by
      rcases hopening with ⟨i, h⟩ | h <;> rw [h] <;> exact hhead
    have htext : Kept (finalState (balancedText (machine n) false e₁)) := by
      have hlift := congrArg (·.context.meaning) (finalState_lift (γ := List Token) (openingBrace (machine n)) e₁)
      exact finalState_bind (S := Kept) (hlift.trans hopened) (fun _ h => h) fun _ e₂ h =>
        (keeps_meaning_untilRightBrace n e₂).trans h
    rw [Proc.bind_ok hread]
    have hlift := congrArg (·.context.meaning) (finalState_lift (γ := Unit) (balancedText (machine n) false) e₁)
    exact finalState_bind (S := Kept) (P := Kept) (hlift.trans htext) (fun _ h => h) fun text e₂ h =>
      (((keeps_meaning_presentItems n _).bind fun _ => .pure _) e₂).trans h

end Stopped

/-! ## The statement -/

/-- **Definitions are well formed**, whatever they are read from. If a definition is made, it has at most nine parameters,
what stands between them are neither braces nor parameter characters, and its replacement text refers only to these
parameters. Its braces are balanced unless a token was reported to be missing while the text was read. So whatever it is
used with, no argument is missing.

If a definition is stopped, all meanings are as before. Only if the replacement text was to be expanded, an undefined
token may have become a `relax`, since names which are made are defined in this way. -/
theorem definitions_well_formed (n : Nat) (modifiers : Modifiers) (globally expanded : Bool) (e : Engine) :
    (∀ e', define (machine n) modifiers globally expanded e = .ok () e' →
      ∃ target p e₁ text e₂ d, readHead (machine n) e = .ok (target, p) e₁ ∧
        balancedText (machine n) expanded e₁ = .ok text e₂ ∧ d.WellFormed ∧
        (e₂.missing = e₁.missing → Balanced d.tokens) ∧ e'.context.meaning target = some (.definition d) ∧
        ∀ m e₃ arguments e₄, d.readArguments m d.delimiters e₃ = .ok arguments e₄ →
          d.substitute? arguments = some (d.substitute arguments)) ∧
    ∀ i e', define (machine n) modifiers globally expanded e = .error i e' → ∀ t,
      e'.context.meaning t = e.context.meaning t ∨
        expanded = true ∧ e.context.meaning t = none ∧
          ∃ id, e'.context.meaning t = some (.primitive id "relax" (.command .relax)) := by
  rw [define_eq]
  refine ⟨fun e' h => ?_, fun i e' h t => ?_⟩
  · obtain ⟨⟨target, d⟩, e₃, hread, h⟩ := Proc.bind_eq_ok h
    cases h
    obtain ⟨p, e₁, text, e₂, hhead, htext, hd, hbalanced⟩ := readDefinition_ok hread
    exact ⟨target, p, e₁, text, e₂, d, hhead, htext, hd, hbalanced, Context.meaning_setMeaning _ _ _ _,
      fun m e₃ arguments e₄ => hd.substitute?_eq⟩
  · have hstopped : finalState (readDefinition (machine n) modifiers expanded e) = e' := by
      cases hread : readDefinition (machine n) modifiers expanded e with
      | ok head e₁ =>
        rw [Proc.bind_ok hread] at h
        cases h
      | error j e₁ =>
        rw [Proc.bind_error hread] at h
        cases h
        rfl
    cases expanded with
    | false => exact .inl (by rw [← hstopped, meaning_readDefinition])
    | true =>
      have hrelaxes := relaxes_readDefinition n modifiers true e t
      rw [hstopped] at hrelaxes
      exact hrelaxes.imp_right fun h => ⟨rfl, h⟩

def Engine.reads (text : String) : Engine := (Engine.new default {}).pushText text ""

/-- Parameter characters are misplaced in the parameter text, in the replacement text and in front of a brace. What is
defined is well formed. A definition without a text leaves everything undefined. -/
theorem definitions_well_formed_misplaced :
    (∃ target d e', define (machine 12) .none false false (.reads "\\a#1x#3\x7b#1\x7b#2#\x7d\x7d") = .ok () e' ∧ d.WellFormed ∧
      Balanced d.tokens ∧ e'.context.meaning target = some (.definition d) ∧ e'.errorCount = 3) ∧
    ∃ i e', define (machine 12) .none false false (.reads "\\a\x7d") = .error i e' ∧
      ∀ t, e'.context.meaning t = (Engine.reads "\\a\x7d").context.meaning t := by
  constructor
  · obtain ⟨hdefined, -⟩ := definitions_well_formed 12 .none false false (.reads "\\a#1x#3\x7b#1\x7b#2#\x7d\x7d")
    have hvalue : valueOf (define (machine 12) .none false false (.reads "\\a#1x#3\x7b#1\x7b#2#\x7d\x7d")) = some () := by
      decide +kernel
    have hdefine := eq_ok_of_valueOf hvalue
    obtain ⟨target, p, e₁, text, e₂, d, hhead, htext, hd, hbalanced, hmeaning, -⟩ := hdefined _ hdefine
    have hfirst : finalState (readHead (machine 12) (.reads "\\a#1x#3\x7b#1\x7b#2#\x7d\x7d")) = e₁ := by rw [hhead]; rfl
    have hsecond : finalState (balancedText (machine 12) false e₁) = e₂ := by rw [htext]; rfl
    have hmissing : e₂.missing = e₁.missing := by
      rw [← hsecond, ← hfirst]
      decide +kernel
    exact ⟨target, d, _, hdefine, hd, hbalanced hmissing, hmeaning, by decide +kernel⟩
  · obtain ⟨-, hstopped⟩ := definitions_well_formed 12 .none false false (.reads "\\a\x7d")
    have hvalue : valueOf (define (machine 12) .none false false (.reads "\\a\x7d")) = none := by decide +kernel
    cases hdefine : define (machine 12) .none false false (.reads "\\a\x7d") with
    | ok u e' =>
      rw [hdefine] at hvalue
      cases hvalue
    | error i e' => exact ⟨i, e', rfl, fun t => (hstopped i e' hdefine t).resolve_right fun h => nomatch h.1⟩

/-- The input ends after a name has been made of the control sequence which is being defined. The definition is stopped, and
the control sequence is not undefined any more. -/
theorem stopped_definition_leaves_relax :
    let declared := Declaration.builtin.filter fun d => d.name ∈ ["csname", "endcsname", "iffalse"]
    let e : Engine := (((Engine.new default {}).install declared).toOption.getD default).pushText
      "\\foo\x7b\\csname foo\\endcsname\\iffalse" ""
    let r := define (machine 12) .none false true e
    e.context.meaning (.controlSequence "foo" "") = none ∧ valueOf r = none ∧
      (finalState r).trace.findSome? (fun | .stopped d => some d.kind | _ => none) = some .inputEndedInSkip ∧
      (finalState r).context.meaning (.controlSequence "foo" "") = some (.primitive 4 "relax" (.command .relax)) := by
  decide +kernel

end Compositor
