import Compositor.Proofs.Engine.Magnification
import Compositor.Proofs.Engine.Reading

/-!
# What becomes of the tokens which are read

A scanner takes tokens which cannot be expanded from the input, and puts back those which it has no use for. `Handles` follows
a scanner through what it does with each of them. Its `Desk` has the tokens which it has in hand, and those which it has put
back and not read again.

* `Handles Spent d e d' e'` says that nothing was done on the way but what its constructors name: no token leaves the hand
  unless it is put back, spent, or used as a quantity;
* `Front` has the tokens which have been put back, and what handlers of errors have inserted in front of them;
* `Input.ahead` are the tokens which are read before any text, `Desk.Sound` says that those put back are among them;
* `Handles.sound` says that they stay so: what has been put back is the next to be read.
-/

namespace Compositor

/-! ## Tokens in front of the texts -/

namespace Input

/-- The tokens in front of all texts, which are the next to be read. -/
def ahead : Input → List Token
  | [] => []
  | .tokens ts _ :: rest => ts ++ ahead rest
  | .text _ :: _ => []

@[simp] theorem ahead_pushTokens (input : Input) (ts : List Token) : (input.pushTokens ts).ahead = ts ++ input.ahead := by
  unfold pushTokens
  split
  · simp_all
  · rfl

/-- The first of them is read, and the others are left. -/
theorem pull_of_ahead {t : Token} {ts : List Token} {input : Input} (h : input.ahead = t :: ts) (lexicon : Lexicon) :
    ∃ rest, input.pull lexicon = (.token t, rest) ∧ rest.ahead = ts := by
  induction input with
  | nil => cases h
  | cons source rest ih =>
    match source with
    | .text _ => cases h
    | .tokens [] _ => exact ih h
    | .tokens [u] _ =>
      obtain ⟨rfl, rfl⟩ := List.cons.inj h
      exact ⟨rest, rfl, rfl⟩
    | .tokens (u :: v :: us) place =>
      obtain ⟨rfl, rfl⟩ := List.cons.inj h
      exact ⟨.tokens (v :: us) place :: rest, rfl, rfl⟩

/-- Whatever the categories of characters are, they are delivered one after the other. -/
theorem delivers_of_ahead {ts : List Token} {input : Input} (h : ts <+: input.ahead) (lexicon : Lexicon) :
    ∃ rest, input.Delivers lexicon ts rest := by
  induction ts generalizing input with
  | nil => exact ⟨input, rfl⟩
  | cons t ts ih =>
    obtain ⟨us, hus⟩ := h
    have hahead : input.ahead = t :: (ts ++ us) := hus.symm
    obtain ⟨mid, hpull, hmid⟩ := pull_of_ahead hahead lexicon
    obtain ⟨rest, hrest⟩ := ih ⟨us, hmid.symm⟩
    exact ⟨rest, mid, hpull, hrest⟩

end Input

/-! ## Reading tokens one by one -/

/-- The token which has been taken from an input, if it is one. -/
def Pulled.token? : Pulled → Option Token
  | token t => some t
  | invalid _ _ | exhausted => none

theorem iterate_ends {β σ ρ : Type} [Inhabited β] {step : σ → Proc β (Turn σ ρ)} {fuel : Nat} {s : σ} {r : ρ} {e e' : Engine}
    (h : iterate step fuel s e = .ok r e') : ∃ s₁ e₁, step s₁ e₁ = .ok (.done r) e' := by
  induction fuel generalizing s e with
  | zero => cases h
  | succ fuel ih =>
    rw [iterate] at h
    obtain ⟨turn, e₁, hturn, h⟩ := Proc.bind_eq_ok h
    cases turn with
    | again s' => exact ih h
    | done r' =>
      cases h
      exact ⟨s, e, hturn⟩

/-- The procedure has this result, unless there is no fuel for it and nothing happens. -/
def Attempts {α β : Type} (p : Proc β α) (e : Engine) (a : α) (e' : Engine) : Prop :=
  (∃ i, p e = .error i e) ∨ p e = .ok a e'

namespace Attempts

variable {α β γ σ ρ : Type} {p : Proc β α} {q : α → Proc β γ} {e e₁ e₂ : Engine} {a b : α} {c : γ}

theorem eq_of_ok (h : Attempts p e a e₁) (hp : p e = .ok b e₂) : b = a ∧ e₂ = e₁ := by
  rcases h with ⟨i, h⟩ | h
  · cases h.symm.trans hp
  · cases h.symm.trans hp
    exact ⟨rfl, rfl⟩

theorem bind (h : Attempts p e a e₁) (hq : q a e₁ = .ok c e₂) : Attempts (p >>= q) e c e₂ :=
  h.imp (fun ⟨i, h⟩ => ⟨i, Proc.bind_error h⟩) fun h => (Proc.bind_ok h).trans hq

theorem leaving (h : Attempts p e a e₁) (f : β → γ) : Attempts (p.leaving f) e a e₁ :=
  h.imp (fun ⟨i, h⟩ => ⟨⟨i.cause, f i.sofar⟩, by simp only [Proc.leaving, h]⟩) fun h => by simp only [Proc.leaving, h]

theorem lift [Inhabited γ] (h : Attempts p e a e₁) : Attempts (monadLift p : Proc γ α) e a e₁ := h.leaving fun _ => default

theorem iterate [Inhabited β] {step : σ → Proc β (Turn σ ρ)} {s : σ} {r : ρ} (h : Attempts (step s) e (.done r) e₁)
    (fuel : Nat) : Attempts (iterate step fuel s) e r e₁ := by
  cases fuel with
  | zero => exact .inl ⟨_, rfl⟩
  | succ fuel =>
    rw [Compositor.iterate]
    exact h.bind rfl

end Attempts

theorem expand_eq_false {m : Machine} {t : Token} {e e' : Engine} (h : expand m t e = .ok false e') :
    e' = e ∧ e.context.Unexpandable t := by
  rw [expand, meaningOf_bind] at h
  unfold Context.Unexpandable
  have hno : ∀ p : Action Unit, (do p; return true : Action Bool) e ≠ .ok false e' := by
    intro p hp
    obtain ⟨u, e₁, -, hfalse⟩ := Proc.bind_eq_ok hp
    cases hfalse
  generalize e.context.meaning? t = meaning? at h ⊢
  rcases meaning? with _ | meaning
  · cases h
    exact ⟨rfl, rfl⟩
  · cases meaning with
    | definition d => exact (hno _ h).elim
    | primitive id name p =>
      cases p with
      | modifier | command =>
        cases h
        exact ⟨rfl, rfl⟩
      | _ => exact (hno _ h).elim
    | character | undefined | bare =>
      cases h
      exact ⟨rfl, rfl⟩

section Reading

variable {n : Nat} {e e' : Engine} {t : Token} {ts : List Token} {x : Option Token}

theorem attempts_next {pulled : Pulled} {rest : Input} (hpull : e.input.pull e.context.lexicon = (pulled, rest))
    (hvalid : ∀ c place, pulled ≠ .invalid c place) (n : Nat) :
    Attempts (machine n).next e pulled.token? (e.withInput rest) := by
  cases n with
  | zero => exact .inl ⟨_, rfl⟩
  | succ n =>
    refine Attempts.iterate (.inr ?_) (machine n).fuel
    rw [Proc.get_bind]
    simp only [hpull]
    cases pulled with
    | invalid c place => exact absurd rfl (hvalid c place)
    | token | exhausted => rfl

/-- What the input gives is read, unless it is an invalid character. -/
theorem next_of_pull {pulled : Pulled} {rest : Input} (hpull : e.input.pull e.context.lexicon = (pulled, rest))
    (hvalid : ∀ c place, pulled ≠ .invalid c place) (h : (machine n).next e = .ok x e') :
    x = pulled.token? ∧ e' = e.withInput rest :=
  (attempts_next hpull hvalid n).eq_of_ok h

/-- The first token in front of the texts is read. -/
theorem next_of_ahead (hahead : e.input.ahead = t :: ts) (h : (machine n).next e = .ok x e') :
    x = some t ∧ ∃ rest, e' = e.withInput rest ∧ rest.ahead = ts := by
  obtain ⟨rest, hpull, hrest⟩ := Input.pull_of_ahead hahead e.context.lexicon
  obtain ⟨rfl, rfl⟩ := next_of_pull hpull (by simp) h
  exact ⟨rfl, rest, rfl, hrest⟩

theorem readExpandedStep_done (h : readExpandedStep (machine n) e = .ok (.done (some t)) e') :
    (machine n).next e = .ok (some t) e' ∧ e'.context.Unexpandable t := by
  obtain ⟨y, e₁, hnext, h⟩ := Proc.bind_eq_ok h
  rw [Proc.lift_eq_ok] at hnext
  cases y with
  | none => cases h
  | some u =>
    obtain ⟨expanded, e₂, hexpand, h⟩ := Proc.bind_eq_ok h
    cases expanded with
    | true => cases h
    | false =>
      cases h
      obtain ⟨rfl, ht⟩ := expand_eq_false (Proc.leaving_eq_ok.1 hexpand)
      exact ⟨hnext, ht⟩

/-- **Only unexpandable tokens are read** with expansion. -/
theorem unexpandable_of_nextExpanded (h : (machine n).nextExpanded e = .ok (some t) e') : e'.context.Unexpandable t := by
  cases n with
  | zero => cases h
  | succ n =>
    obtain ⟨-, e₁, hstep⟩ := iterate_ends (h : readExpanded (machine n) e = .ok (some t) e')
    exact (readExpandedStep_done hstep).2

theorem attempts_nextExpanded {pulled : Pulled} {rest : Input} (hpull : e.input.pull e.context.lexicon = (pulled, rest))
    (hvalid : ∀ c place, pulled ≠ .invalid c place) (ht : ∀ t ∈ pulled.token?, e.context.Unexpandable t) (n : Nat) :
    Attempts (machine n).nextExpanded e pulled.token? (e.withInput rest) := by
  cases n with
  | zero => exact .inl ⟨_, rfl⟩
  | succ n =>
    refine Attempts.iterate ((attempts_next hpull hvalid n).lift.bind ?_) (machine n).fuel
    cases hy : pulled.token? with
    | none => rfl
    | some t =>
      have hexpand : Proc.giving (expand (machine n) t) t (e.withInput rest) = .ok false (e.withInput rest) :=
        Proc.leaving_eq_ok.2 (expand_unexpandable (e := e.withInput rest) (machine n) (ht t hy))
      exact Proc.bind_ok hexpand

theorem nextExpanded_of_pull {pulled : Pulled} {rest : Input} (hpull : e.input.pull e.context.lexicon = (pulled, rest))
    (hvalid : ∀ c place, pulled ≠ .invalid c place) (ht : ∀ t ∈ pulled.token?, e.context.Unexpandable t)
    (h : (machine n).nextExpanded e = .ok x e') : x = pulled.token? ∧ e' = e.withInput rest :=
  (attempts_nextExpanded hpull hvalid ht n).eq_of_ok h

/-- An unexpandable token in front of the texts is read as it is. -/
theorem nextExpanded_of_ahead (hahead : e.input.ahead = t :: ts) (ht : e.context.Unexpandable t)
    (h : (machine n).nextExpanded e = .ok x e') : x = some t ∧ ∃ rest, e' = e.withInput rest ∧ rest.ahead = ts := by
  obtain ⟨rest, hpull, hrest⟩ := Input.pull_of_ahead hahead e.context.lexicon
  obtain ⟨rfl, rfl⟩ := nextExpanded_of_pull hpull (by simp) (by simpa [Pulled.token?] using ht) h
  exact ⟨rfl, rest, rfl, hrest⟩

end Reading

/-! ## Tokens stay unexpandable -/

section Unexpandable

variable {c : Context} {t : Token} {strict : Prop} {o : Option Stop} {e e' : Engine}

theorem Context.Unexpandable.setMeaning (h : c.Unexpandable t) (u : Token) {r : Meaning}
    (hr : Meaning.isExpandable (some r) = false) (globally : Bool) : (c.setMeaning u (some r) globally).Unexpandable t := by
  unfold Context.Unexpandable Context.meaning? at h ⊢
  by_cases hcode : t.isCode = true
  · rw [if_pos hcode] at h ⊢
    rcases c.meaning_setMeaning_cases u t r globally with heq | heq <;> rw [heq]
    · exact h
    · exact hr
  · rw [if_neg hcode]
    rfl

theorem Context.Unexpandable.setInteraction (h : c.Unexpandable t) (mode : Interaction) :
    (c.setInteraction mode true).Unexpandable t := by
  unfold Context.Unexpandable Context.meaning? at h ⊢
  rwa [c.meaning_setInteraction]

/-- **Scanning makes no token expandable.** -/
theorem Course.unexpandable (h : Course strict .scanning o e e') {t : Token} (ht : e.context.Unexpandable t) :
    e'.context.Unexpandable t :=
  h.keeps_context (R := fun c c' => ∀ t, c.Unexpandable t → c'.Unexpandable t) rfl
    { refl := fun _ _ ht => ht
      trans := fun h h' t ht => h' t (h t ht)
      relax := fun _ u _ _ _ ht => ht.setMeaning u rfl false
      mode := fun _ mode _ ht => ht.setInteraction mode
      lock := fun _ _ _ ht => ht
      conditionals := fun _ _ _ ht => ht } t ht

end Unexpandable

/-! ## What handlers do with the input -/

theorem Engine.pushText_input (e : Engine) (text source : String) :
    ∃ sources, (e.pushText text source).input = sources ++ e.input := by
  unfold Engine.pushText
  split
  · exact ⟨[_], rfl⟩
  · exact ⟨[], rfl⟩

theorem Engine.intervene_input (e : Engine) (i : Intervention) : ∃ sources, (e.intervene i).input = sources ++ e.input := by
  cases i with
  | insertText text source => exact e.pushText_input text source
  | insertTokens tokens =>
    show ∃ sources, e.input.pushTokens (tokens.map Subtype.val) = sources ++ e.input
    unfold Input.pushTokens
    split
    · exact ⟨[], rfl⟩
    · exact ⟨[_], rfl⟩
  | setInteraction | say | halt => exact ⟨[], rfl⟩

theorem Engine.interventions_input (e : Engine) (is : List Intervention) :
    ∃ sources, (is.foldl Engine.intervene e).input = sources ++ e.input := by
  induction is generalizing e with
  | nil => exact ⟨[], rfl⟩
  | cons i is ih =>
    obtain ⟨first, hfirst⟩ := e.intervene_input i
    obtain ⟨more, hmore⟩ := ih (e.intervene i)
    refine ⟨more ++ first, hmore.trans ?_⟩
    rw [hfirst, List.append_assoc]

/-- Only the reply of a handler of its own kind can insert something. -/
theorem consult_input {m : Machine} {d : Diagnostic} {goesOn : Bool} {e e' : Engine} (h : consult m d e = .ok goesOn e')
    (hhandler : e.handler ≠ .prompter) : ∃ sources, e'.input = sources ++ e.input := by
  unfold consult at h
  rw [Proc.get_bind] at h
  cases hcase : e.handler with
  | carryOn | recorder =>
    simp only [hcase] at h
    cases h
    exact ⟨[], rfl⟩
  | custom answer =>
    simp only [hcase] at h
    cases h
    exact Engine.interventions_input ..
  | printer | noTerminal =>
    simp only [hcase] at h
    split at h
    · rw [Proc.modify_bind] at h
      split at h <;> (cases h; exact ⟨[], rfl⟩)
    · cases h
      exact ⟨[], rfl⟩
  | prompter => exact (hhandler hcase).elim

/-- **A handler can only insert** something in front of the input, unless a user is asked. -/
theorem report_input {m : Machine} {d : Diagnostic} {e e' : Engine} (hreport : report m d e = .ok () e')
    (hhandler : e.handler ≠ .prompter) : ∃ sources, e'.input = sources ++ e.input := by
  rcases hfatal : d.isFatal with _ | _
  · rcases Int.lt_or_le e.settings.maxErrors (e.errorCount + 1 : Nat) with hcount | hcount
    · cases (report_of_excess hfatal hcount).symm.trans hreport
    · rw [report_of_recoverable hfatal hcount] at hreport
      obtain ⟨goesOn, e₁, hasked, hrest⟩ := Proc.bind_eq_ok hreport
      cases goesOn with
      | false => cases hrest
      | true =>
        cases hrest
        exact consult_input (e := (e.countError (e.phrase d)).record (.consulted (e.phrase d))) hasked hhandler
  · cases (report_of_fatal hfatal e).symm.trans hreport

/-! ## What scanners do with tokens -/

def Context.Denotes (c : Context) (m : Machine) (t : Token) (q : Quantity) : Prop :=
  ∃ id name command, c.meaning? t = some (.primitive id name (.command command)) ∧ quantityOf? m command = some q

/-- The value of the quantity is found. -/
def Quantity.Evaluates (e e' : Engine) : Quantity → Prop
  | count value => ∃ v, value e = .ok v e'
  | dimen value => ∃ v, value e = .ok v e'
  | glue value => ∃ v, value e = .ok v e'
  | toks value => ∃ v, value e = .ok v e'

/-- What has been put back in front of the input and not been read again. -/
structure Front where
  /-- What handlers have inserted in front of that, while nothing has been read. -/
  cover : Input
  tokens : List Token

namespace Front

def nothing : Front := ⟨[], []⟩

/-- After a token has been read. If it is one which handlers have inserted, what it does with the tokens below is not known. -/
def read : Front → Front
  | ⟨[], tokens⟩ => ⟨[], tokens.tail⟩
  | ⟨_ :: _, _⟩ => nothing

def push (ts : List Token) : Front → Front
  | ⟨[], tokens⟩ => ⟨[], ts ++ tokens⟩
  | ⟨_ :: _, _⟩ => ⟨[], ts⟩

def insert (sources : Input) (front : Front) : Front := { front with cover := sources ++ front.cover }

end Front

/-- The tokens which have been read. -/
structure Desk where
  /-- Those which nothing has been done with. -/
  hand : List Token
  front : Front

/-- What has been done with tokens on the way from one state to another. They are read with expansion, or the token after
the mark of a character constant without it. Only what is `Spent` may be dropped. -/
inductive Handles (Spent : Token → Prop) : Desk → Engine → Desk → Engine → Prop where
  | refl (d : Desk) (e : Engine) : Handles Spent d e d e
  /-- A token is taken in hand. If some have been put back, it is the first of them. -/
  | read {d : Desk} {e e₁ e₂ : Engine} {hand : List Token} {front : Front} {t : Token} {k : Nat}
      (h : Handles Spent d e ⟨hand, front⟩ e₁) (hread : (machine k).nextExpanded e₁ = .ok (some t) e₂) :
      Handles Spent d e ⟨hand ++ [t], front.read⟩ e₂
  /-- There is no token left. -/
  | finish {d : Desk} {e e₁ e₂ : Engine} {hand : List Token} {front : Front} {k : Nat} (h : Handles Spent d e ⟨hand, front⟩ e₁)
      (hread : (machine k).nextExpanded e₁ = .ok none e₂ ∨ (machine k).next e₁ = .ok none e₂) :
      Handles Spent d e ⟨hand, .nothing⟩ e₂
  | putBack {d : Desk} {e e₁ : Engine} {hand ts : List Token} {front : Front} (h : Handles Spent d e ⟨hand ++ ts, front⟩ e₁) :
      Handles Spent d e ⟨hand, front.push ts⟩ (e₁.pushTokens ts)
  | spend {d : Desk} {e e₁ : Engine} {hand : List Token} {front : Front} {t : Token}
      (h : Handles Spent d e ⟨hand ++ [t], front⟩ e₁) (ht : Spent t) : Handles Spent d e ⟨hand, front⟩ e₁
  /-- A token is used as the quantity which it denotes. Tokens may be read for that, as the number of a register. -/
  | evaluate {d : Desk} {e e₁ e₂ : Engine} {hand : List Token} {front front' : Front} {t : Token} {q : Quantity} {k : Nat}
      (h : Handles Spent d e ⟨hand ++ [t], front⟩ e₁) (hq : e₁.context.Denotes (machine k) t q) (hvalue : q.Evaluates e₁ e₂)
      (hinner : Handles Spent ⟨hand, front⟩ e₁ ⟨hand, front'⟩ e₂) : Handles Spent d e ⟨hand, front'⟩ e₂
  /-- A token is used as a character constant, after its mark. -/
  | constant {d : Desk} {e e₁ e₂ : Engine} {hand : List Token} {front : Front} {mark t : Token} {k : Nat}
      (h : Handles Spent d e ⟨hand ++ [mark], front⟩ e₁) (hmark : mark.isOther characterMark = true)
      (hread : (machine k).next e₁ = .ok (some t) e₂) (ht : t.isControlSequence = true → t.isControlSymbol = true) :
      Handles Spent d e ⟨hand, front.read⟩ e₂
  /-- A token which cannot be a character constant is put back at once. If it is expandable, this is the next thing done. -/
  | decline {d : Desk} {e e₁ e₂ : Engine} {hand : List Token} {front : Front} {t : Token} {k : Nat}
      (h : Handles Spent d e ⟨hand, front⟩ e₁) (hread : (machine k).next e₁ = .ok (some t) e₂) :
      Handles Spent d e ⟨hand, if e₂.context.Unexpandable t then front.read.push [t] else .nothing⟩ (e₂.pushTokens [t])
  /-- A problem is reported. The handler may insert something in front of the input. -/
  | report {d : Desk} {e e₁ e₂ : Engine} {hand : List Token} {front : Front} {problem : Diagnostic} {k : Nat} {sources : Input}
      (h : Handles Spent d e ⟨hand, front⟩ e₁) (hproblem : problem.kind ≠ .errorLimit ∧ problem.kind ≠ .aborted)
      (hreport : Compositor.report (machine k) problem e₁ = .ok () e₂) (hinput : e₂.input = sources ++ e₁.input) :
      Handles Spent d e ⟨hand, front.insert sources⟩ e₂
  /-- A problem is reported, and the user has tokens deleted. -/
  | delete {d : Desk} {e e₁ e₂ : Engine} {hand : List Token} {front : Front} {problem : Diagnostic} {k : Nat}
      (h : Handles Spent d e ⟨hand, front⟩ e₁) (hproblem : problem.kind ≠ .errorLimit ∧ problem.kind ≠ .aborted)
      (hhandler : e₁.handler = .prompter) (hreport : Compositor.report (machine k) problem e₁ = .ok () e₂)
      (hinput : ∀ sources, e₂.input ≠ sources ++ e₁.input) :
      Handles Spent d e ⟨hand, .nothing⟩ e₂
  /-- The magnification is locked. -/
  | lock {d d₁ : Desk} {e e₁ : Engine} {context : Context} (h : Handles Spent d e d₁ e₁)
      (hlock : e₁.context.setMagnification e₁.context.magnification true = .ok context) :
      Handles Spent d e d₁ { e₁ with context }

/-- What has been put back is next in the input, after what handlers have inserted. -/
def Front.IsAhead (front : Front) (input : Input) : Prop :=
  ∃ below, input = front.cover ++ below ∧ front.tokens <+: Input.ahead below

/-- What is on a desk is unexpandable, and what has been put back is next. -/
structure Desk.Sound (d : Desk) (e : Engine) : Prop where
  isAhead : d.front.IsAhead e.input
  unexpandable : ∀ t, t ∈ d.hand ∨ t ∈ d.front.tokens → e.context.Unexpandable t

theorem Handles.trans {Spent : Token → Prop} {d d' d'' : Desk} {e e' e'' : Engine} (h : Handles Spent d e d' e')
    (h' : Handles Spent d' e' d'' e'') : Handles Spent d e d'' e'' := by
  generalize hd : d' = d₁ at h'
  generalize he : e' = e₁ at h'
  induction h' with
  | refl => exact hd ▸ he ▸ h
  | read _ hread ih => exact (ih hd he).read hread
  | finish _ hread ih => exact (ih hd he).finish hread
  | putBack _ ih => exact (ih hd he).putBack
  | spend _ ht ih => exact (ih hd he).spend ht
  | evaluate _ hq hvalue hinner ih => exact (ih hd he).evaluate hq hvalue hinner
  | constant _ hmark hread ht ih => exact (ih hd he).constant hmark hread ht
  | decline _ hread ih => exact (ih hd he).decline hread
  | report _ hproblem hreport hinput ih => exact (ih hd he).report hproblem hreport hinput
  | delete _ hproblem hhandler hreport hinput ih => exact (ih hd he).delete hproblem hhandler hreport hinput
  | lock _ hlock ih => exact (ih hd he).lock hlock

/-! ## What has been put back is next -/

theorem Front.isAhead_nothing (input : Input) : Front.nothing.IsAhead input := ⟨input, rfl, List.nil_prefix⟩

namespace Desk.Sound

variable {hand : List Token} {front : Front} {t : Token} {e e' : Engine} {k : Nat}

/-- What is in hand stays unexpandable while other tokens are read. -/
theorem later (h : Desk.Sound ⟨hand, front⟩ e) {o : Option Stop} (hcourse : Course False .scanning o e e') :
    Desk.Sound ⟨hand, .nothing⟩ e' where
  isAhead := Front.isAhead_nothing e'.input
  unexpandable := by
    rintro u (hu | hu)
    · exact hcourse.unexpandable (h.unexpandable u (.inl hu))
    · cases hu

theorem of_subset {hand' : List Token} {front' : Front} (h : Desk.Sound ⟨hand, front⟩ e) (hcontext : e'.context = e.context)
    (hahead : front'.IsAhead e'.input) (hsubset : ∀ u, u ∈ hand' ∨ u ∈ front'.tokens → u ∈ hand ∨ u ∈ front.tokens) :
    Desk.Sound ⟨hand', front'⟩ e' where
  isAhead := hahead
  unexpandable u hu := hcontext ▸ h.unexpandable u (hsubset u hu)

/-- The first token of those which have been put back is the next one. -/
theorem exists_ahead {front : List Token} (h : Desk.Sound ⟨hand, ⟨[], t :: front⟩⟩ e) :
    ∃ ts, e.input.ahead = t :: (front ++ ts) ∧ e.context.Unexpandable t := by
  obtain ⟨below, hbelow, ts, hts⟩ := h.isAhead
  obtain rfl : e.input = below := hbelow
  exact ⟨ts, hts.symm, h.unexpandable t (.inr List.mem_cons_self)⟩

theorem read_later (h : Desk.Sound ⟨hand, front⟩ e) (hread : (machine k).nextExpanded e = .ok (some t) e') :
    Desk.Sound ⟨hand ++ [t], .nothing⟩ e' := by
  have hcourse := (((machine_sound k).nextExpanded (R := Regime.reading.loose) e False.elim).ok hread).1
  refine ⟨Front.isAhead_nothing e'.input, fun u hu => ?_⟩
  rcases hu with hu | hu
  · rcases List.mem_append.1 hu with hu | hu
    · exact (h.later hcourse).unexpandable u (.inl hu)
    · exact List.mem_singleton.1 hu ▸ unexpandable_of_nextExpanded hread
  · cases hu

theorem read (h : Desk.Sound ⟨hand, front⟩ e) (hread : (machine k).nextExpanded e = .ok (some t) e') :
    Desk.Sound ⟨hand ++ [t], front.read⟩ e' := by
  obtain ⟨cover, tokens⟩ := front
  cases cover with
  | cons => exact h.read_later hread
  | nil =>
    cases tokens with
    | nil => exact h.read_later hread
    | cons first tokens =>
      obtain ⟨ts, hahead, hfirst⟩ := h.exists_ahead
      obtain ⟨ht, rest, rfl, hrest⟩ := nextExpanded_of_ahead hahead hfirst hread
      cases ht
      refine h.of_subset rfl ⟨rest, rfl, ts, hrest.symm⟩ fun u hu => ?_
      simp only [Front.read, List.mem_append, List.mem_cons, List.tail_cons] at hu ⊢
      tauto

/-- A token which is read without expansion is the first of those which have been put back, if there is one. -/
theorem next (h : Desk.Sound ⟨hand, front⟩ e) (hread : (machine k).next e = .ok (some t) e') :
    Desk.Sound ⟨hand, front.read⟩ e' := by
  have hcourse := (((machine_sound k).next (R := Regime.reading.loose) e False.elim).ok hread).1
  obtain ⟨cover, tokens⟩ := front
  cases cover with
  | cons => exact h.later hcourse
  | nil =>
    cases tokens with
    | nil => exact h.later hcourse
    | cons first tokens =>
      obtain ⟨ts, hahead, -⟩ := h.exists_ahead
      obtain ⟨ht, rest, rfl, hrest⟩ := next_of_ahead hahead hread
      cases ht
      refine h.of_subset rfl ⟨rest, rfl, ts, hrest.symm⟩ fun u hu => ?_
      simp only [Front.read, List.mem_cons, List.tail_cons] at hu ⊢
      tauto

theorem finish (h : Desk.Sound ⟨hand, front⟩ e)
    (hread : (machine k).nextExpanded e = .ok none e' ∨ (machine k).next e = .ok none e') :
    Desk.Sound ⟨hand, .nothing⟩ e' := by
  rcases hread with hread | hread
  · exact h.later (((machine_sound k).nextExpanded (R := Regime.reading.loose) e False.elim).ok hread).1
  · exact h.later (((machine_sound k).next (R := Regime.reading.loose) e False.elim).ok hread).1

theorem putBack {ts : List Token} (h : Desk.Sound ⟨hand ++ ts, front⟩ e) :
    Desk.Sound ⟨hand, front.push ts⟩ (e.pushTokens ts) := by
  obtain ⟨cover, tokens⟩ := front
  obtain ⟨below, hbelow, us, hus⟩ := h.isAhead
  have hahead : (e.pushTokens ts).input.ahead = ts ++ e.input.ahead := Input.ahead_pushTokens _ _
  cases cover with
  | nil =>
    obtain rfl : e.input = below := hbelow
    refine h.of_subset rfl ⟨(e.pushTokens ts).input, rfl, us, ?_⟩ fun u hu => ?_
    · rw [hahead, ← hus]
      exact List.append_assoc ..
    · simp only [Front.push, List.mem_append] at hu ⊢
      tauto
  | cons =>
    refine h.of_subset rfl ⟨(e.pushTokens ts).input, rfl, e.input.ahead, hahead.symm⟩ fun u hu => ?_
    simp only [Front.push, List.mem_append] at hu ⊢
    tauto

/-- A token which has been read without expansion is put back, if it is unexpandable. -/
theorem push (h : Desk.Sound ⟨hand, front⟩ e) :
    Desk.Sound ⟨hand, if e.context.Unexpandable t then front.push [t] else .nothing⟩ (e.pushTokens [t]) := by
  by_cases ht : e.context.Unexpandable t
  · rw [if_pos ht]
    have hheld : Desk.Sound ⟨hand ++ [t], front⟩ e := by
      refine ⟨h.isAhead, fun u hu => ?_⟩
      rcases hu with hu | hu
      · rcases List.mem_append.1 hu with hu | hu
        · exact h.unexpandable u (.inl hu)
        · exact List.mem_singleton.1 hu ▸ ht
      · exact h.unexpandable u (.inr hu)
    exact hheld.putBack
  · rw [if_neg ht]
    exact h.of_subset rfl (Front.isAhead_nothing _) fun u hu => hu.imp_right fun hu => by cases hu

theorem insert {sources : Input} (h : Desk.Sound ⟨hand, front⟩ e) {o : Option Stop} (hcourse : Course False .scanning o e e')
    (hinput : e'.input = sources ++ e.input) : Desk.Sound ⟨hand, front.insert sources⟩ e' where
  isAhead := by
    obtain ⟨below, hbelow, hahead⟩ := h.isAhead
    refine ⟨below, ?_, hahead⟩
    rw [hinput, hbelow]
    exact (List.append_assoc ..).symm
  unexpandable u hu := hcourse.unexpandable (h.unexpandable u hu)

end Desk.Sound

/-- **What has been put back stays in front of the input**, until it is read again. -/
theorem Handles.sound {Spent : Token → Prop} {d d' : Desk} {e e' : Engine} (h : Handles Spent d e d' e') (hd : d.Sound e) :
    d'.Sound e' := by
  have hreported : ∀ {k : Nat} {problem : Diagnostic} {e₁ e₂ : Engine},
      problem.kind ≠ .errorLimit ∧ problem.kind ≠ .aborted →
      Compositor.report (machine k) problem e₁ = .ok () e₂ → Course False .scanning none e₁ e₂ := by
    intro k problem e₁ e₂ hproblem hreport
    have hmeets : Meets Regime.reading.loose (Compositor.report (machine k) problem) fun _ => True :=
      meets_report (machine_sound k) ⟨hproblem.1, hproblem.2, False.elim⟩
    exact ((hmeets e₁ False.elim).ok hreport).1
  have hless : ∀ {hand : List Token} {front : Front} {t : Token} {e₁ : Engine}, Desk.Sound ⟨hand ++ [t], front⟩ e₁ →
      Desk.Sound ⟨hand, front⟩ e₁ := fun h =>
    h.of_subset rfl h.isAhead fun u hu => hu.imp_left fun hu => List.mem_append.2 (.inl hu)
  induction h with
  | refl => exact hd
  | read _ hread ih => exact (ih hd).read hread
  | finish _ hread ih => exact (ih hd).finish hread
  | putBack _ ih => exact (ih hd).putBack
  | spend _ _ ih => exact hless (ih hd)
  | evaluate _ _ _ _ ih ih' => exact ih' (hless (ih hd))
  | constant _ _ hread _ ih => exact (hless (ih hd)).next hread
  | decline _ hread ih => exact ((ih hd).next hread).push
  | report _ hproblem hreport hinput ih => exact (ih hd).insert (hreported hproblem hreport) hinput
  | delete _ hproblem _ hreport _ ih => exact (ih hd).later (hreported hproblem hreport)
  | lock _ hlock ih =>
    have hcourse : Course False .scanning none _ _ := .scan (.refl _) (.lockMagnification hlock)
    exact ⟨(ih hd).isAhead, fun u hu => hcourse.unexpandable ((ih hd).unexpandable u hu)⟩

end Compositor
