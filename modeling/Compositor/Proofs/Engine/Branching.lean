import Compositor.Proofs.Engine.Constants

/-!
# Conditionals select their branches

A passage is a text with conditionals in it, nested to any depth, whose conditions are constant: `choice` has two
branches, `switch` any number of them. `Passage.meaning` is what is left when each conditional is replaced by the branch
which it selects. The engine reads just that:

* a branch which is not selected is skipped without expansion; `Carries` follows the level of nesting over it;
* a selected branch is read with its conditional on the stack, and the end mark after it takes the conditional away;
* `yields_passage` puts both together, by induction over the passage.
-/

namespace Compositor

/-! ## Passages -/

/-- A token which ends a branch. -/
structure MarkToken (c : Context) (mark : EndMark) where
  token : Token
  isMark : ∃ id name, c.meaning? token = some (.primitive id name (.endMark mark))

/-- A token which starts a conditional with a constant condition. -/
structure TestToken (c : Context) where
  token : Token
  value : Bool
  isTest : ∃ id name, c.meaning? token = some (.primitive id name (.condition (.constant value)))

/-- A token which negates the conditional after it. -/
structure NegationToken (c : Context) where
  token : Token
  isNegation : ∃ id name, c.meaning? token = some (.primitive id name .unless)

/-- The start of a conditional with two branches. -/
structure Opener (c : Context) where
  negation : Option (NegationToken c)
  test : TestToken c

/-- The start of a conditional with numbered branches: a token, a number and a space. The number holds no token at which
conditionals start or end. -/
structure Selector (c : Context) where
  token : Token
  isSwitch : ∃ id name, c.meaning? token = some (.primitive id name .switch)
  number : IntegerConstant
  areText : ∀ t ∈ number.tokens, SkipClass.ofMeaning (c.meaning? t) = .text
  blank : Token
  isBlank : blank.cat = .space

mutual

/-- A text with conditionals. -/
inductive Passage (c : Context) : Type where
  | done
  | token (t : Token) (isUnexpandable : c.Unexpandable t) (rest : Passage c)
  | choice (opener : Opener c) (branch : Passage c) (ending : Ending c) (rest : Passage c)
  | switch (selector : Selector c) (cases : Cases c) (rest : Passage c)

/-- The end of a conditional, possibly with an alternative branch. -/
inductive Ending (c : Context) : Type where
  | fi (mark : MarkToken c .fiMark)
  | otherwise (mark : MarkToken c .elseMark) (branch : Passage c) (fi : MarkToken c .fiMark)

/-- The numbered branches of a conditional, and its end. -/
inductive Cases (c : Context) : Type where
  | last (branch : Passage c) (ending : Ending c)
  | more (branch : Passage c) (mark : MarkToken c .orMark) (cases : Cases c)

end

variable {c : Context}

def Opener.tokens (o : Opener c) : List Token := (o.negation.map NegationToken.token).toList ++ [o.test.token]

/-- The opener selects the first branch. -/
def Opener.value (o : Opener c) : Bool := o.test.value != o.negation.isSome

def Selector.tokens (s : Selector c) : List Token := s.token :: (s.number.tokens ++ [s.blank])

mutual

def Passage.tokens : Passage c → List Token
  | .done => []
  | .token t _ rest => t :: rest.tokens
  | .choice opener branch ending rest => opener.tokens ++ (branch.tokens ++ (ending.tokens ++ rest.tokens))
  | .switch selector cases rest => selector.tokens ++ (cases.tokens ++ rest.tokens)

def Ending.tokens : Ending c → List Token
  | .fi mark => [mark.token]
  | .otherwise mark branch fi => mark.token :: (branch.tokens ++ [fi.token])

def Cases.tokens : Cases c → List Token
  | .last branch ending => branch.tokens ++ ending.tokens
  | .more branch mark cases => branch.tokens ++ mark.token :: cases.tokens

end

/-- The branch with a number, the alternative one if there is none. -/
def selectBranch (branches : List (List Token)) (alternative : List Token) (n : Int) : List Token :=
  if n < 0 then alternative else (branches[n.toNat]?).getD alternative

mutual

/-- A passage with each conditional replaced by the branch which it selects. -/
def Passage.meaning : Passage c → List Token
  | .done => []
  | .token t _ rest => t :: rest.meaning
  | .choice opener branch ending rest => (if opener.value then branch.meaning else ending.meaning) ++ rest.meaning
  | .switch selector cases rest =>
    selectBranch cases.meanings cases.alternative selector.number.value ++ rest.meaning

/-- The meaning of the alternative branch, which may be missing. -/
def Ending.meaning : Ending c → List Token
  | .fi _ => []
  | .otherwise _ branch _ => branch.meaning

def Cases.meanings : Cases c → List (List Token)
  | .last branch _ => [branch.meaning]
  | .more branch _ cases => branch.meaning :: cases.meanings

/-- The meaning of the branch for all other numbers. -/
def Cases.alternative : Cases c → List Token
  | .last _ ending => ending.meaning
  | .more _ _ cases => cases.alternative

end

/-! ## Skipping -/

/-- Skipping passes these tokens, which change the number of open conditionals from one value to another. -/
def Carries (c : Context) (atOr : Bool) : List Token → Nat → Nat → Prop
  | [], level, level' => level = level'
  | t :: ts, level, level' => ∃ mid, (SkipClass.ofMeaning (c.meaning? t)).pass atOr level = .again mid ∧
      Carries c atOr ts mid level'

section Skipping

variable {atOr : Bool} {level : Nat}

theorem carries_append {ts us : List Token} {k l : Nat} :
    Carries c atOr (ts ++ us) k l ↔ ∃ mid, Carries c atOr ts k mid ∧ Carries c atOr us mid l := by
  induction ts generalizing k with
  | nil => simp [Carries]
  | cons t ts ih =>
    simp only [List.cons_append, Carries, ih]
    constructor
    · rintro ⟨mid, hpass, mid', hts, hus⟩
      exact ⟨mid', ⟨mid, hpass, hts⟩, hus⟩
    · rintro ⟨mid', ⟨mid, hpass, hts⟩, hus⟩
      exact ⟨mid, hpass, mid', hts, hus⟩

theorem carries_text {ts : List Token} (h : ∀ t ∈ ts, SkipClass.ofMeaning (c.meaning? t) = .text) :
    Carries c atOr ts level level := by
  induction ts with
  | nil => rfl
  | cons t ts ih =>
    refine ⟨level, ?_, ih fun u hu => h u (by simp [hu])⟩
    rw [h t (by simp)]
    rfl

theorem skipClass_unexpandable {t : Token} (h : c.Unexpandable t) : SkipClass.ofMeaning (c.meaning? t) = .text := by
  unfold Context.Unexpandable at h
  generalize c.meaning? t = meaning? at h ⊢
  rcases meaning? with _ | meaning
  · rfl
  · cases meaning with
    | primitive id name p =>
      cases p with
      | modifier | command => rfl
      | _ => cases h
    | _ => rfl

theorem MarkToken.skipClass {mark : EndMark} (k : MarkToken c mark) :
    SkipClass.ofMeaning (c.meaning? k.token) = .mark mark := by
  obtain ⟨id, name, h⟩ := k.isMark
  rw [h]
  rfl

theorem MarkToken.carries {mark : EndMark} (k : MarkToken c mark) :
    Carries c atOr [k.token] (level + 1) (if mark = .fiMark then level else level + 1) := by
  refine ⟨_, ?_, rfl⟩
  rw [k.skipClass]
  cases mark <;> rfl

theorem Opener.carries (o : Opener c) : Carries c atOr o.tokens level (level + 1) := by
  obtain ⟨negation?, test⟩ := o
  have htest : Carries c atOr [test.token] level (level + 1) := by
    obtain ⟨id, name, h⟩ := test.isTest
    refine ⟨level + 1, ?_, rfl⟩
    rw [h]
    rfl
  rcases negation? with _ | negation
  · exact htest
  · obtain ⟨id, name, h⟩ := negation.isNegation
    refine ⟨level, ?_, htest⟩
    rw [h]
    rfl

theorem Selector.carries (s : Selector c) : Carries c atOr s.tokens level (level + 1) := by
  obtain ⟨id, name, h⟩ := s.isSwitch
  refine ⟨level + 1, by rw [h]; rfl, carries_text fun t ht => ?_⟩
  rcases List.mem_append.1 ht with ht | ht
  · exact s.areText t ht
  · rw [List.mem_singleton.1 ht]
    exact skipClass_unexpandable (c.unexpandable_of_not_isCode (by simp [Token.isCode, s.isBlank]))

mutual

/-- Skipping a passage ends with as many open conditionals as it starts with. -/
theorem Passage.carries (p : Passage c) (level : Nat) : Carries c atOr p.tokens level level := by
  cases p with
  | done => rfl
  | token t h rest =>
    refine ⟨level, ?_, rest.carries level⟩
    rw [skipClass_unexpandable h]
    rfl
  | choice opener branch ending rest =>
    rw [Passage.tokens]
    have hbranch := branch.carries (level + 1)
    have hending := carries_append.2 ⟨level, ending.carries level, rest.carries level⟩
    exact carries_append.2 ⟨level + 1, opener.carries, carries_append.2 ⟨level + 1, hbranch, hending⟩⟩
  | switch selector cases rest =>
    rw [Passage.tokens]
    have hcases := cases.carries level
    exact carries_append.2 ⟨level + 1, selector.carries, carries_append.2 ⟨level, hcases, rest.carries level⟩⟩

theorem Ending.carries (n : Ending c) (level : Nat) : Carries c atOr n.tokens (level + 1) level := by
  cases n with
  | fi mark => exact mark.carries
  | otherwise mark branch fi =>
    rw [Ending.tokens, ← List.singleton_append]
    have hbranch := branch.carries (level + 1)
    exact carries_append.2 ⟨level + 1, mark.carries, carries_append.2 ⟨level + 1, hbranch, fi.carries⟩⟩

theorem Cases.carries (n : Cases c) (level : Nat) : Carries c atOr n.tokens (level + 1) level := by
  cases n with
  | last branch ending =>
    exact carries_append.2 ⟨level + 1, branch.carries (level + 1), ending.carries level⟩
  | more branch mark cases =>
    rw [Cases.tokens, ← List.singleton_append]
    have hcases := cases.carries level
    exact carries_append.2 ⟨level + 1, branch.carries _, carries_append.2 ⟨level + 1, mark.carries, hcases⟩⟩

end

end Skipping

/-! ## The engine while it reads a passage -/

/-- The engine with another input, other open conditionals and another serial number. -/
def Engine.reading (e : Engine) (input : Input) (conditionals : List Conditional) (serial : Nat) : Engine :=
  { e with input, serial, context := { e.context with conditionals } }

section Reading

variable {e : Engine} {i rest : Input} {cs : List Conditional} {s : Nat} {k : Conditional} {t : Token} {atOr : Bool}

theorem readExpandedStep_reading {e₁ : Engine} (hpull : i.pull e.context.lexicon = (.token t, rest))
    (hexpand : Runs (expand · t) (e.reading rest cs s) true e₁) :
    Runs readExpandedStep (e.reading i cs s) (.again ()) e₁ :=
  readExpandedStep_expand (e := e.reading i cs s) hpull hexpand

theorem skipStep_runs (level : Nat) (hpull : i.pull e.context.lexicon = (.token t, rest)) :
    Runs (skipStep · k atOr level) (e.reading i cs s) ((SkipClass.ofMeaning (e.context.meaning? t)).pass atOr level)
      (e.reading rest cs s) := by
  refine Runs.bind (next_runs (e := e.reading i cs s) hpull) (Runs.of_eq fun m => ?_)
  exact meaningOf_bind t _ (e.reading rest cs s)

theorem skip_advances {ts : List Token} {level level' : Nat} (hcarries : Carries e.context atOr ts level level')
    (hinput : i.Delivers e.context.lexicon ts rest) :
    Advances (skipStep · k atOr) level (e.reading i cs s) level' (e.reading rest cs s) := by
  induction ts generalizing i level with
  | nil =>
    obtain rfl : i = rest := hinput
    obtain rfl : level = level' := hcarries
    exact .refl _ _
  | cons u ts ih =>
    obtain ⟨mid, hpull, hinput⟩ := hinput
    obtain ⟨_, hpass, hcarries⟩ := hcarries
    exact .again (hpass ▸ skipStep_runs level hpull) (ih hcarries hinput)

theorem skip_runs {ts : List Token} {level : Nat} {mark : EndMark} (hcarries : Carries e.context atOr ts 0 level)
    (hmark : (SkipClass.ofMeaning (e.context.meaning? t)).pass atOr level = .done mark)
    (hinput : i.Delivers e.context.lexicon (ts ++ [t]) rest) :
    Runs (skip · k atOr) (e.reading i cs s) mark (e.reading rest cs s) := by
  obtain ⟨mid, hts, input, hpull, rfl⟩ := Input.delivers_append.1 hinput
  exact ((skip_advances hcarries hts).loops (Loops.done (hmark ▸ skipStep_runs level hpull))).runs

/-- An end mark of the conditional which is skipped ends the skipping. An `or` does so only if asked for. -/
theorem skip_mark {ts : List Token} {mark : EndMark} (hcarries : Carries e.context atOr ts 0 0)
    (n : MarkToken e.context mark) (hor : mark = .orMark → atOr = true)
    (hinput : i.Delivers e.context.lexicon (ts ++ [n.token]) rest) :
    Runs (skip · k atOr) (e.reading i cs s) mark (e.reading rest cs s) := by
  refine skip_runs hcarries ?_ hinput
  rw [n.skipClass]
  cases mark with
  | orMark => simp [SkipClass.pass, hor rfl]
  | elseMark | fiMark => rfl

theorem skipToFi_runs {ts : List Token} (hcarries : Carries e.context false ts 0 0) (n : Ending e.context)
    (hinput : i.Delivers e.context.lexicon (ts ++ n.tokens) rest) :
    Runs (skipToFi · k) (e.reading i cs s) () (e.reading rest cs s) := by
  refine Loops.runs ?_
  cases n with
  | fi mark => exact Loops.done (Runs.bind (skip_mark hcarries mark (by simp) hinput) (Runs.of_eq fun m => rfl))
  | otherwise mark branch fi =>
    rw [Ending.tokens, ← List.singleton_append, ← List.append_assoc, Input.delivers_append] at hinput
    obtain ⟨mid, hmark, hbranch⟩ := hinput
    refine Loops.again (Runs.bind (skip_mark hcarries mark (by simp) hmark) (Runs.of_eq fun m => rfl)) ?_
    have hfi : Runs (skip · k false) (e.reading mid cs s) .fiMark (e.reading rest cs s) :=
      skip_mark (branch.carries 0) fi (by simp) hbranch
    exact Loops.done (Runs.bind hfi (Runs.of_eq fun m => rfl))

/-! ### End marks -/

theorem MarkToken.reads {mark : EndMark} {e₁ : Engine} (n : MarkToken e.context mark)
    (hpull : i.pull e.context.lexicon = (.token n.token, rest))
    (hend : Runs (endBranch · n.token mark) (e.reading rest cs s) () e₁) : Reads (e.reading i cs s) [] e₁ := by
  obtain ⟨id, name, hmeaning⟩ := n.isMark
  refine Reads.expanded (readExpandedStep_reading hpull ?_)
  refine Runs.congr (Runs.bind (q := fun _ _ => pure true) hend (Runs.of_eq fun m => rfl)) fun m => ?_
  rw [expand, meaningOf_bind, show (e.reading rest cs s).context.meaning? n.token = _ from hmeaning]

/-- After the last branch its conditional is taken off the stack. -/
theorem reads_fi (n : MarkToken e.context .fiMark) (hk : k.evaluating = false)
    (hinput : i.Delivers e.context.lexicon [n.token] rest) :
    Reads (e.reading i (k :: cs) s) [] (e.reading rest cs s) := by
  obtain ⟨input, hpull, rfl⟩ := hinput
  refine n.reads hpull (Runs.of_eq fun m => ?_)
  unfold endBranch
  simp [context, Engine.reading, hk, modifyContext, Engine.modifyContext, Context.popConditional]

theorem leaveBranch_runs {ts : List Token} (hcarries : Carries e.context false ts 0 0) (n : Ending e.context)
    (hinput : i.Delivers e.context.lexicon (ts ++ n.tokens) rest) :
    Runs (leaveBranch · k) (e.reading i (k :: cs) s) () (e.reading rest cs s) := by
  have hskip : Runs (skipToFi · k) (e.reading i cs s) () (e.reading rest cs s) := skipToFi_runs hcarries n hinput
  exact Runs.bind (Runs.of_eq fun _ => rfl) hskip

/-- The end of a conditional after its selected branch is read without any token. -/
theorem reads_ending (n : Ending e.context) (hk : k.evaluating = false) (hvalue : k.value = true)
    (hinput : i.Delivers e.context.lexicon n.tokens rest) :
    Reads (e.reading i (k :: cs) s) [] (e.reading rest cs s) := by
  cases n with
  | fi mark => exact reads_fi mark hk hinput
  | otherwise mark branch fi =>
    obtain ⟨input, hpull, hinput⟩ := hinput
    refine mark.reads hpull (Runs.congr (leaveBranch_runs (branch.carries 0) (.fi fi) hinput) fun m => ?_)
    unfold endBranch
    simp [context, Engine.reading, hk, hvalue]

/-! ### Starts of conditionals -/

/-- A condition is evaluated with its conditional on the stack, and without it afterwards. -/
theorem decide_runs {β : Type} {x : Machine → Proc β β} {b : β}
    (hx : Runs x (e.reading i ({ k with evaluating := true } :: cs) s) b
      (e.reading rest ({ k with evaluating := true } :: cs) s)) :
    Runs (fun m => decide m k (x m)) (e.reading i cs s) b (e.reading rest cs s) := by
  refine Runs.bind (Runs.of_eq fun _ => rfl) (Runs.absorb ?_)
  have hdecided : (e.reading rest ({ k with evaluating := true } :: cs) s).modifyContext (·.dropConditional k.id) =
      e.reading rest cs s := by
    simp [Engine.reading, Engine.modifyContext, Context.dropConditional, Compositor.dropConditional]
  rw [← hdecided]
  exact hx.afterwards _

/-- A conditional whose condition holds is put on the stack. -/
theorem startConditional_runs {name : String} {value negated : Bool} (hvalue : (value != negated) = true) :
    ∃ k : Conditional, k.evaluating = false ∧ k.value = true ∧
      Runs (startConditional · name (.constant value) negated) (e.reading i cs s) ()
        (e.reading i (k :: cs) (s + 1)) := by
  refine ⟨{ id := s, place := i.locator, name, negated, value := value != negated }, rfl, hvalue, ?_⟩
  refine Runs.bind (a := s) (Runs.of_eq fun _ => rfl) (Runs.bind (a := i.locator) (Runs.of_eq fun _ => rfl) ?_)
  refine Runs.bind (decide_runs (Runs.of_eq fun _ => rfl)) (Runs.of_eq fun m => ?_)
  simp only [hvalue]
  rfl

/-- A conditional whose condition does not hold skips to its alternative branch, or to its end. -/
theorem startConditional_skips {name : String} {value negated : Bool} (hvalue : (value != negated) = false) :
    ∃ k : Conditional, k.evaluating = false ∧ ∀ {mark : EndMark} {mid : Input},
      Runs (skip · k false) (e.reading i cs (s + 1)) mark (e.reading mid cs (s + 1)) →
      Runs (startConditional · name (.constant value) negated) (e.reading i cs s) ()
        (e.reading mid (if mark = .elseMark then k :: cs else cs) (s + 1)) := by
  refine ⟨{ id := s, place := i.locator, name, negated, value := value != negated }, rfl, ?_⟩
  intro mark mid hskip
  refine Runs.bind (a := s) (Runs.of_eq fun _ => rfl) (Runs.bind (a := i.locator) (Runs.of_eq fun _ => rfl) ?_)
  refine Runs.bind (decide_runs (Runs.of_eq fun _ => rfl)) ?_
  simp only [hvalue] at hskip ⊢
  refine Runs.bind hskip (Runs.of_eq fun m => ?_)
  cases mark <;> rfl

theorem Opener.reads (o : Opener e.context) (cs : List Conditional) (s : Nat)
    (hinput : i.Delivers e.context.lexicon o.tokens rest) :
    ∃ name, ∀ {e₁ : Engine},
      Runs (startConditional · name (.constant o.test.value) o.negation.isSome) (e.reading rest cs s) () e₁ →
      Reads (e.reading i cs s) [] e₁ := by
  obtain ⟨negation?, test⟩ := o
  obtain ⟨id, name, htest⟩ := test.isTest
  refine ⟨name, fun {e₁} hstart => ?_⟩
  rcases negation? with _ | negation
  · obtain ⟨input, hpull, rfl⟩ := hinput
    refine Reads.expanded (readExpandedStep_reading hpull ?_)
    refine Runs.congr (Runs.bind (q := fun _ _ => pure true) hstart (Runs.of_eq fun m => rfl)) fun m => ?_
    rw [expand, meaningOf_bind, show (e.reading input cs s).context.meaning? test.token = _ from htest]
    rfl
  · obtain ⟨word, name', hword⟩ := negation.isNegation
    obtain ⟨input, hpull, input', hpull', rfl⟩ := hinput
    refine Reads.expanded (readExpandedStep_reading hpull ?_)
    have hnegate : Runs (negateNext · name') (e.reading input cs s) () e₁ := by
      refine Runs.bind (next_runs (e := e.reading input cs s) hpull') (Runs.congr hstart fun m => ?_)
      refine (meaningOf_bind test.token _ _).trans ?_
      rw [show ((e.reading input cs s).withInput input').context.meaning? test.token = _ from htest]
      rfl
    refine Runs.congr (Runs.bind (q := fun _ _ => pure true) hnegate (Runs.of_eq fun m => rfl)) fun m => ?_
    rw [expand, meaningOf_bind, show (e.reading input cs s).context.meaning? negation.token = _ from hword]

/-- The start of a conditional with numbered branches is read by looking for the selected one. -/
theorem Selector.reads (n : Selector e.context) (cs : List Conditional) (s : Nat)
    (hinput : i.Delivers e.context.lexicon n.tokens rest) :
    ∃ k : Conditional, k.evaluating = false ∧ k.value = true ∧ k.isSwitch = true ∧
      k.branch.toInt = n.number.value ∧ ∀ {e₁ : Engine},
        Loops (selectStep · k) 0 (e.reading rest cs (s + 1)) () e₁ → Reads (e.reading i cs s) [] e₁ := by
  obtain ⟨id, name, hswitch⟩ := n.isSwitch
  obtain ⟨input, hpull, hinput⟩ := hinput
  let branch := Int64.ofInt n.number.value
  refine ⟨{ id := s, place := input.locator, name, isSwitch := true, branch, value := true }, rfl, rfl, rfl,
    n.number.toInt_value, fun {e₁} hselect => ?_⟩
  have hstart : Runs (startSwitch · name) (e.reading input cs s) () e₁ := by
    refine Runs.bind (a := s) (Runs.of_eq fun _ => rfl) (Runs.bind (a := input.locator) (Runs.of_eq fun _ => rfl) ?_)
    refine Runs.bind (decide_runs (x := Machine.number) ?_) hselect.runs
    exact number_runs n.number n.isBlank hinput
  refine Reads.expanded (readExpandedStep_reading hpull ?_)
  refine Runs.congr (Runs.bind (q := fun _ _ => pure true) hstart (Runs.of_eq fun m => rfl)) fun m => ?_
  rw [expand, meaningOf_bind, show (e.reading input cs s).context.meaning? n.token = _ from hswitch]

/-! ### Numbered branches -/

/-- All branches up to the end of a conditional are passed by skipping which does not stop between them. -/
theorem Cases.tokens_eq : ∀ n : Cases c, ∃ (ts : List Token) (ending : Ending c),
    n.tokens = ts ++ ending.tokens ∧ Carries c false ts 0 0
  | .last branch ending => ⟨branch.tokens, ending, rfl, branch.carries 0⟩
  | .more branch mark cases => by
    obtain ⟨ts, ending, htokens, hcarries⟩ := cases.tokens_eq
    refine ⟨branch.tokens ++ mark.token :: ts, ending, by simp [tokens, htokens], ?_⟩
    have hmark : Carries c false [mark.token] 0 0 := by
      refine ⟨0, ?_, rfl⟩
      rw [mark.skipClass]
      rfl
    exact carries_append.2 ⟨0, branch.carries 0, carries_append.2 ⟨0, hmark, hcarries⟩⟩

/-- After the selected branch the following ones are read without any token. -/
theorem reads_or (n : MarkToken e.context .orMark) (others : Cases e.context) (hk : k.evaluating = false)
    (hvalue : k.value = true) (hswitch : k.isSwitch = true)
    (hinput : i.Delivers e.context.lexicon (n.token :: others.tokens) rest) :
    Reads (e.reading i (k :: cs) s) [] (e.reading rest cs s) := by
  obtain ⟨input, hpull, hinput⟩ := hinput
  obtain ⟨ts, ending, htokens, hcarries⟩ := others.tokens_eq
  rw [htokens] at hinput
  refine n.reads hpull (Runs.congr (leaveBranch_runs hcarries ending hinput) fun m => ?_)
  unfold endBranch
  simp [context, Engine.reading, hk, hvalue, hswitch]

theorem selectBranch_ne_zero (branch : List Token) (branches : List (List Token)) (alternative : List Token) {n : Int}
    (hn : n ≠ 0) : selectBranch (branch :: branches) alternative n = selectBranch branches alternative (n - 1) := by
  unfold selectBranch
  by_cases h : n < 0
  · rw [if_pos h, if_pos (by omega)]
  · rw [if_neg h, if_neg (by omega), show n.toNat = (n - 1).toNat + 1 by omega, List.getElem?_cons_succ]

theorem selectBranch_nil (alternative : List Token) (n : Int) : selectBranch [] alternative n = alternative := by
  simp [selectBranch]

/-- A branch with another number is skipped up to the next one. -/
theorem selectStep_or {j : Nat} {mid : Input} (hj : (j : Int) ≠ k.branch.toInt)
    (hskip : Runs (skip · k true) (e.reading i cs s) .orMark (e.reading mid cs s)) :
    Runs (selectStep · k j) (e.reading i cs s) (.again (j + 1)) (e.reading mid cs s) := by
  simp only [selectStep, if_neg hj]
  exact Runs.bind hskip (Runs.of_eq fun _ => rfl)

theorem selectStep_last {j : Nat} {mid : Input} {mark : EndMark} (hj : (j : Int) ≠ k.branch.toInt)
    (hmark : mark ≠ .orMark) (hskip : Runs (skip · k true) (e.reading i cs s) mark (e.reading mid cs s)) :
    Runs (selectStep · k j) (e.reading i cs s) (.done ())
      (e.reading mid (if mark = .elseMark then { k with value := false } :: cs else cs) s) := by
  simp only [selectStep, if_neg hj]
  refine Runs.bind hskip (Runs.of_eq fun _ => ?_)
  cases mark with
  | orMark => exact absurd rfl hmark
  | elseMark | fiMark => rfl

/-! ### Whole passages -/

mutual

theorem Passage.reads (p : Passage e.context) {i rest : Input} (cs : List Conditional) (s : Nat)
    (hinput : i.Delivers e.context.lexicon p.tokens rest) :
    ∃ s', Reads (e.reading i cs s) p.meaning (e.reading rest cs s') := by
  cases p with
  | done => exact ⟨s, (show i = rest from hinput) ▸ Reads.refl _⟩
  | token t ht others =>
    obtain ⟨input, hpull, hinput⟩ := hinput
    obtain ⟨s', hothers⟩ := others.reads cs s hinput
    exact ⟨s', Reads.token (readExpandedStep_token (e := e.reading i cs s) hpull ht) hothers⟩
  | choice opener branch ending others =>
    rw [Passage.tokens, Input.delivers_append] at hinput
    obtain ⟨j, hopener, hinput⟩ := hinput
    obtain ⟨name, hstart⟩ := opener.reads cs s hopener
    rw [Passage.meaning]
    by_cases hvalue : opener.value = true
    · -- the first branch is read with its conditional on the stack
      rw [Input.delivers_append] at hinput
      obtain ⟨j', hbranch, hinput⟩ := hinput
      rw [Input.delivers_append] at hinput
      obtain ⟨j'', hending, hothers⟩ := hinput
      obtain ⟨k, hk, hkvalue, hruns⟩ := startConditional_runs hvalue
      obtain ⟨s₁, hbranch⟩ := branch.reads (k :: cs) (s + 1) hbranch
      obtain ⟨s₂, hothers⟩ := others.reads cs s₁ hothers
      refine ⟨s₂, ?_⟩
      have hselected := ((hstart hruns).trans hbranch).trans (reads_ending ending hk hkvalue hending)
      rw [List.nil_append, List.append_nil] at hselected
      rw [if_pos hvalue]
      exact hselected.trans hothers
    · -- the first branch is skipped, and an alternative one is read
      rw [← List.append_assoc, Input.delivers_append] at hinput
      obtain ⟨j', hending, hothers⟩ := hinput
      obtain ⟨k, hk, hruns⟩ := startConditional_skips (Bool.eq_false_iff.2 hvalue)
      obtain ⟨mark, mid, s₁, hskip, -, hending⟩ := ending.reads (s := s + 1) hk (branch.carries 0) hending k
      obtain ⟨s₂, hothers⟩ := others.reads cs s₁ hothers
      refine ⟨s₂, ?_⟩
      have hselected := (hstart (hruns hskip)).trans hending
      rw [List.nil_append] at hselected
      rw [if_neg hvalue]
      exact hselected.trans hothers
  | switch selector cases others =>
    rw [Passage.tokens, Input.delivers_append] at hinput
    obtain ⟨j, hselector, hinput⟩ := hinput
    rw [Input.delivers_append] at hinput
    obtain ⟨j', hcases, hothers⟩ := hinput
    obtain ⟨k, hk, hvalue, hswitch, hbranch, hstart⟩ := selector.reads cs s hselector
    obtain ⟨e₁, s₁, hselect, hcases⟩ := cases.reads (s := s + 1) hk hvalue hswitch 0 hcases
    obtain ⟨s₂, hothers⟩ := others.reads cs s₁ hothers
    refine ⟨s₂, ?_⟩
    have hselected := (hstart hselect).trans hcases
    rw [List.nil_append, hbranch, Int.natCast_zero, Int.sub_zero] at hselected
    exact hselected.trans hothers

/-- An unselected branch is skipped to the end of its conditional, or to an alternative which is read. -/
theorem Ending.reads (n : Ending e.context) {i rest : Input} {cs : List Conditional} {s : Nat} {ts : List Token}
    {atOr : Bool} {k : Conditional} (hk : k.evaluating = false) (hcarries : Carries e.context atOr ts 0 0)
    (hinput : i.Delivers e.context.lexicon (ts ++ n.tokens) rest) (l : Conditional) :
    ∃ mark mid s', Runs (skip · l atOr) (e.reading i cs s) mark (e.reading mid cs s) ∧ mark ≠ .orMark ∧
      Reads (e.reading mid (if mark = .elseMark then k :: cs else cs) s) n.meaning (e.reading rest cs s') := by
  cases n with
  | fi mark => exact ⟨.fiMark, rest, s, skip_mark hcarries mark (by simp) hinput, by simp, Reads.refl _⟩
  | otherwise mark branch fi =>
    rw [Ending.tokens, ← List.singleton_append, ← List.append_assoc, Input.delivers_append] at hinput
    obtain ⟨mid, hmark, hinput⟩ := hinput
    rw [Input.delivers_append] at hinput
    obtain ⟨mid', hbranch, hfi⟩ := hinput
    obtain ⟨s', hreads⟩ := branch.reads (k :: cs) s hbranch
    have hend := hreads.trans (reads_fi fi hk hfi)
    rw [List.append_nil] at hend
    exact ⟨.elseMark, mid, s', skip_mark hcarries mark (by simp) hmark, by simp, hend⟩

/-- Numbered branches are skipped up to the selected one, which is read. -/
theorem Cases.reads (n : Cases e.context) {i rest : Input} {cs : List Conditional} {s : Nat} {k : Conditional}
    (hk : k.evaluating = false) (hvalue : k.value = true) (hswitch : k.isSwitch = true) (j : Nat)
    (hinput : i.Delivers e.context.lexicon n.tokens rest) :
    ∃ e₁ s', Loops (selectStep · k) j (e.reading i cs s) () e₁ ∧
      Reads e₁ (selectBranch n.meanings n.alternative (k.branch.toInt - j)) (e.reading rest cs s') := by
  by_cases hj : (j : Int) = k.branch.toInt
  · -- the first of these branches is the selected one
    have hselect : Loops (selectStep · k) j (e.reading i cs s) () (e.reading i (k :: cs) s) := by
      refine Loops.done (Runs.of_eq fun m => ?_)
      rw [selectStep, if_pos hj]
      rfl
    rw [← hj, Int.sub_self]
    cases n with
    | last branch ending =>
      rw [Cases.tokens, Input.delivers_append] at hinput
      obtain ⟨mid, hbranch, hending⟩ := hinput
      obtain ⟨s', hbranch⟩ := branch.reads (k :: cs) s hbranch
      have hreads := hbranch.trans (reads_ending ending hk hvalue hending)
      rw [List.append_nil] at hreads
      exact ⟨_, s', hselect, hreads⟩
    | more branch mark cases =>
      rw [Cases.tokens, Input.delivers_append] at hinput
      obtain ⟨mid, hbranch, hothers⟩ := hinput
      obtain ⟨s', hbranch⟩ := branch.reads (k :: cs) s hbranch
      have hreads := hbranch.trans (reads_or mark cases hk hvalue hswitch hothers)
      rw [List.append_nil] at hreads
      exact ⟨_, s', hselect, hreads⟩
  · have hne : k.branch.toInt - j ≠ 0 := by omega
    cases n with
    | last branch ending =>
      have hk' : ({ k with value := false } : Conditional).evaluating = false := hk
      obtain ⟨mark, mid, s', hskip, hmark, hreads⟩ := ending.reads (s := s) hk' (branch.carries 0) hinput k
      refine ⟨_, s', Loops.done (selectStep_last hj hmark hskip), ?_⟩
      rw [Cases.meanings, selectBranch_ne_zero _ _ _ hne, selectBranch_nil]
      exact hreads
    | more branch mark cases =>
      rw [Cases.tokens, ← List.singleton_append, ← List.append_assoc, Input.delivers_append] at hinput
      obtain ⟨mid, hbranch, hothers⟩ := hinput
      obtain ⟨e₁, s', hselect, hreads⟩ := cases.reads (s := s) hk hvalue hswitch (j + 1) hothers
      have hskip : Runs (skip · k true) (e.reading i cs s) .orMark (e.reading mid cs s) :=
        skip_mark (branch.carries 0) mark (fun _ => rfl) hbranch
      refine ⟨e₁, s', Loops.again (selectStep_or hj hskip) hselect, ?_⟩
      rw [Cases.meanings, selectBranch_ne_zero _ _ _ hne, Cases.alternative,
        show k.branch.toInt - j - 1 = k.branch.toInt - (j + 1 : Nat) by omega]
      exact hreads

end

end Reading

/-- **Reading a passage gives what its conditionals select.** Whatever the state of the engine is, and whatever
unexpandable token comes after the passage, reading with expansion gives the meaning of the passage and that token. No
error is reported and the stack of conditionals is as before: nothing but the input has changed, and the number which
the next conditional gets. -/
theorem yields_passage (e : Engine) (p : Passage e.context) {sentinel : Token}
    (hsentinel : e.context.Unexpandable sentinel) {rest : Input}
    (hinput : e.input.Delivers e.context.lexicon (p.tokens ++ [sentinel]) rest) :
    ∃ serial, e.Yields (p.meaning ++ [sentinel]) { e with input := rest, serial } := by
  rw [Input.delivers_append] at hinput
  obtain ⟨mid, hpassage, input, hpull, rfl⟩ := hinput
  obtain ⟨serial, hreads⟩ := p.reads e.context.conditionals e.serial hpassage
  refine ⟨serial, hreads.yields ?_⟩
  exact readExpandedStep_token (e := e.reading mid e.context.conditionals serial) hpull hsentinel

namespace Passage

def sampleContext : Context :=
  [("ifcase", Primitive.switch), ("or", .endMark .orMark), ("else", .endMark .elseMark), ("fi", .endMark .fiMark),
    ("unless", .unless), ("iffalse", .condition (.constant false))].foldl
    (fun c (name, p) => c.setMeaning (.controlSequence name "") (some (.primitive 1 name p)) true) {}

def sampleMark (name : String) (mark : EndMark)
    (h : sampleContext.meaning? (.controlSequence name "") = some (.primitive 1 name (.endMark mark))) :
    MarkToken sampleContext mark := ⟨.controlSequence name "", 1, name, h⟩

/-- `\ifcase -2 a\or b\else\unless\iffalse c\fi\fi` -/
def sample : Passage sampleContext :=
  .switch
    { token := .controlSequence "ifcase" "", isSwitch := ⟨1, "ifcase", by decide⟩
      number :=
        { signs := [⟨[], .other '-', by simp, by decide⟩], blanks := []
          magnitude := .decimal ⟨.other '2', 2, by decide⟩ [], areBlanks := by simp, inRange := by decide }
      areText := by decide, blank := .blank, isBlank := by decide }
    (.more (.token (.letter 'a') (by decide) .done) (sampleMark "or" .orMark (by decide))
      (.last (.token (.letter 'b') (by decide) .done)
        (.otherwise (sampleMark "else" .elseMark (by decide))
          (.choice
            { negation := some ⟨.controlSequence "unless" "", 1, "unless", by decide⟩
              test := ⟨.controlSequence "iffalse" "", false, 1, "iffalse", by decide⟩ }
            (.token (.letter 'c') (by decide) .done) (.fi (sampleMark "fi" .fiMark (by decide))) .done)
          (sampleMark "fi" .fiMark (by decide)))))
    .done

end Passage

/-- A number without a branch selects the alternative one, in which another conditional is nested. -/
theorem yields_passage_nested :
    ∃ serial, Engine.Yields
      { context := Passage.sampleContext, input := Input.pushTokens [] (Passage.sample.tokens ++ [.letter 'z']) }
      [.letter 'c', .letter 'z'] { context := Passage.sampleContext, input := [], serial } :=
  yields_passage
    { context := Passage.sampleContext, input := Input.pushTokens [] (Passage.sample.tokens ++ [.letter 'z']) }
    Passage.sample (by decide) (Input.delivers_pushTokens [] (Passage.sample.tokens ++ [.letter 'z']))

end Compositor
