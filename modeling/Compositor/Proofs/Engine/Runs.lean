import Compositor.Engine.Run

/-!
# Procedures which come to an end

A procedure of the engine gets a machine, and with it some fuel. `Runs p e a e'` says that `p` comes to its end for
all machines with enough fuel: it delivers `a` and leaves the engine `e'`, whatever the fuel is beyond that. No
statement about what the engine does has to mention an amount of fuel. `Stops p e i e'` says the same of a procedure which
is stopped.

* `Runs.bind` joins two procedures, `Loops` is the same notion for a loop;
* `Advances` follows a loop for some of its turns, whatever comes after them;
* `Input.Delivers` says which tokens an input is going to give, `Input.Holds` that these are all of them;
* `next_runs` reads a token, `next_runs_none` comes to the end of the input.
-/

namespace Compositor

variable {α β γ σ ρ : Type}

/-! ## The monad of procedures -/

namespace Proc

theorem bind_ok {x : Proc β α} {f : α → Proc β γ} {e e' : Engine} {a : α} (h : x e = .ok a e') :
    (x >>= f) e = f a e' := by
  simp only [bind, EStateM.bind, h]

theorem bind_error {x : Proc β α} {f : α → Proc β γ} {e e' : Engine} {i : Interrupted β} (h : x e = .error i e') :
    (x >>= f) e = .error i e' := by
  simp only [bind, EStateM.bind, h]

theorem bind_eq_ok {x : Proc β α} {f : α → Proc β γ} {e e' : Engine} {c : γ} (h : (x >>= f) e = .ok c e') :
    ∃ a e₁, x e = .ok a e₁ ∧ f a e₁ = .ok c e' := by
  cases hx : x e with
  | ok a e₁ => exact ⟨a, e₁, rfl, (bind_ok hx).symm.trans h⟩
  | error i e₁ => cases (bind_error hx).symm.trans h

/-- What a procedure leaves when it is stopped does not matter if it is not stopped. -/
theorem leaving_eq_ok {x : Proc γ α} {f : γ → β} {a : α} {e e' : Engine} :
    x.leaving f e = .ok a e' ↔ x e = .ok a e' := by
  unfold leaving
  cases x e <;> simp

theorem lift_eq_ok [Inhabited β] {x : Proc γ α} {a : α} {e e' : Engine} :
    (monadLift x : Proc β α) e = .ok a e' ↔ x e = .ok a e' := by
  show x.leaving (fun _ => default) e = _ ↔ _
  exact leaving_eq_ok

theorem lift_ok [Inhabited β] {x : Proc γ α} {a : α} {e e' : Engine} (h : x e = .ok a e') :
    (monadLift x : Proc β α) e = .ok a e' := lift_eq_ok.2 h

theorem mapBoth_eq_ok {x : Proc α α} {f : α → β} {b : β} {e e' : Engine} (h : (x.mapBoth f : Proc β β) e = .ok b e') :
    ∃ a, x e = .ok a e' ∧ f a = b := by
  unfold mapBoth at h
  cases hx : x e with
  | ok a e₁ =>
    rw [hx] at h
    cases h
    exact ⟨a, rfl, rfl⟩
  | error i e₁ =>
    rw [hx] at h
    cases h

theorem onStop_eq_ok {x : Proc β α} {f : Engine → Engine} {a : α} {e e' : Engine} :
    x.onStop f e = .ok a e' ↔ x e = .ok a e' := by
  unfold onStop
  cases x e <;> simp

@[simp] theorem pure_apply (a : α) (e : Engine) : (pure a : Proc β α) e = .ok a e := rfl

@[simp] theorem get_bind (f : Engine → Proc β α) (e : Engine) : (get >>= f) e = f e e := rfl

@[simp] theorem context_bind (f : Context → Proc β α) (e : Engine) : (context >>= f) e = f e.context e := rfl

@[simp] theorem set_bind (e' : Engine) (f : PUnit → Proc β α) (e : Engine) : (set e' >>= f) e = f ⟨⟩ e' := rfl

@[simp] theorem modify_bind (g : Engine → Engine) (f : PUnit → Proc β α) (e : Engine) :
    (modify g >>= f) e = f ⟨⟩ (g e) := rfl

@[simp] theorem modify_apply (g : Engine → Engine) (e : Engine) : (modify g : Proc β PUnit) e = .ok ⟨⟩ (g e) := rfl

end Proc

/-! ## Runs -/

/-- With enough fuel the procedure delivers `a` and leaves the engine `e'`. -/
def Runs (p : Machine → Proc β α) (e : Engine) (a : α) (e' : Engine) : Prop :=
  ∃ k, ∀ n ≥ k, p (machine n) e = .ok a e'

namespace Runs

variable {p : Machine → Proc β α} {e e₁ e₂ : Engine} {a : α}

theorem of_eq (h : ∀ m, p m e = .ok a e₁) : Runs p e a e₁ := ⟨0, fun n _ => h (machine n)⟩

theorem congr {q : Machine → Proc β α} (h : Runs q e a e₁) (hpq : ∀ m, p m e = q m e) : Runs p e a e₁ := by
  obtain ⟨k, hk⟩ := h
  exact ⟨k, fun n hn => by rw [hpq, hk n hn]⟩

theorem bind {q : Machine → α → Proc β γ} {c : γ} (hp : Runs p e a e₁) (hq : Runs (fun m => q m a) e₁ c e₂) :
    Runs (fun m => p m >>= q m) e c e₂ := by
  obtain ⟨k, hk⟩ := hp
  obtain ⟨l, hl⟩ := hq
  refine ⟨max k l, fun n hn => ?_⟩
  exact (Proc.bind_ok (hk n (by omega))).trans (hl n (by omega))

theorem leaving (hp : Runs p e a e₁) (f : β → γ) : Runs (fun m => (p m).leaving f) e a e₁ := by
  obtain ⟨k, hk⟩ := hp
  exact ⟨k, fun n hn => by simp only [Proc.leaving, hk n hn]⟩

theorem giving (hp : Runs p e a e₁) (c : γ) : Runs (fun m => (p m).giving c) e a e₁ := hp.leaving _

/-- A procedure used where another value would be left on a stop. -/
theorem lift [Inhabited γ] (hp : Runs p e a e₁) : Runs (fun m => (monadLift (p m) : Proc γ α)) e a e₁ :=
  hp.giving default

theorem afterwards (hp : Runs p e a e₁) (f : Engine → Engine) : Runs (fun m => (p m).afterwards f) e a (f e₁) := by
  obtain ⟨k, hk⟩ := hp
  exact ⟨k, fun n hn => by simp only [Proc.afterwards, hk n hn]⟩

theorem mapBoth {p : Machine → Proc α α} (hp : Runs p e a e₁) (f : α → γ) :
    Runs (fun m => (p m).mapBoth f) e (f a) e₁ := by
  obtain ⟨k, hk⟩ := hp
  exact ⟨k, fun n hn => by simp only [Proc.mapBoth, hk n hn]⟩

theorem absorb {p : Machine → Proc β β} {b : β} (hp : Runs p e b e₁) : Runs (fun m => absorb m (p m)) e b e₁ := by
  obtain ⟨k, hk⟩ := hp
  exact ⟨k, fun n hn => by simp only [Compositor.absorb, hk n hn]⟩

end Runs

/-! ## Procedures which are stopped -/

/-- With enough fuel the procedure is stopped by `i` and leaves the engine `e'`. -/
def Stops (p : Machine → Proc β α) (e : Engine) (i : Interrupted β) (e' : Engine) : Prop :=
  ∃ k, ∀ n ≥ k, p (machine n) e = .error i e'

namespace Stops

variable {p : Machine → Proc β α} {e e₁ e₂ : Engine} {i : Interrupted β}

theorem of_eq (h : ∀ m, p m e = .error i e₁) : Stops p e i e₁ := ⟨0, fun n _ => h (machine n)⟩

theorem bind (hp : Stops p e i e₁) (q : Machine → α → Proc β γ) : Stops (fun m => p m >>= q m) e i e₁ := by
  obtain ⟨k, hk⟩ := hp
  exact ⟨k, fun n hn => Proc.bind_error (hk n hn)⟩

theorem giving (hp : Stops p e i e₁) (c : γ) : Stops (fun m => (p m).giving c) e ⟨i.cause, c⟩ e₁ := by
  obtain ⟨k, hk⟩ := hp
  exact ⟨k, fun n hn => by simp only [Proc.giving, Proc.leaving, hk n hn]⟩

/-- The problem which stops a procedure is reported, and the value which it leaves is used. -/
theorem absorb {p : Machine → Proc β β} {d : Diagnostic} {b : β} (hp : Stops p e ⟨.diagnostic d, b⟩ e₁)
    (hreport : Runs (report · d) e₁ () e₂) : Runs (fun m => absorb m (p m)) e b e₂ := by
  obtain ⟨k, hk⟩ := hp
  obtain ⟨l, hl⟩ := hreport
  refine ⟨max k l, fun n hn => ?_⟩
  simp only [Compositor.absorb, hk n (by omega)]
  exact Proc.bind_ok (hl n (by omega))

end Stops

theorem Runs.bind_stops {p : Machine → Proc β α} {q : Machine → α → Proc β γ} {e e₁ e₂ : Engine} {a : α} {i : Interrupted β}
    (hp : Runs p e a e₁) (hq : Stops (fun m => q m a) e₁ i e₂) : Stops (fun m => p m >>= q m) e i e₂ := by
  obtain ⟨k, hk⟩ := hp
  obtain ⟨l, hl⟩ := hq
  refine ⟨max k l, fun n hn => ?_⟩
  exact (Proc.bind_ok (hk n (by omega))).trans (hl n (by omega))

/-! ## Loops -/

/-- With enough fuel the loop ends with `r` and leaves the engine `e'`. -/
def Loops [Inhabited β] (step : Machine → σ → Proc β (Turn σ ρ)) (s : σ) (e : Engine) (r : ρ) (e' : Engine) : Prop :=
  ∃ k, ∀ n ≥ k, ∀ fuel ≥ k, iterate (step (machine n)) fuel s e = .ok r e'

namespace Loops

variable [Inhabited β] {step : Machine → σ → Proc β (Turn σ ρ)} {s s' : σ} {e e₁ e₂ : Engine} {r : ρ}

theorem done (h : Runs (step · s) e (.done r) e₁) : Loops step s e r e₁ := by
  obtain ⟨k, hk⟩ := h
  refine ⟨k + 1, fun n hn fuel hf => ?_⟩
  obtain ⟨fuel, rfl⟩ : ∃ f, fuel = f + 1 := ⟨fuel - 1, by omega⟩
  rw [iterate]
  exact Proc.bind_ok (hk n (by omega))

theorem again (h : Runs (step · s) e (.again s') e₁) (hrest : Loops step s' e₁ r e₂) : Loops step s e r e₂ := by
  obtain ⟨k, hk⟩ := h
  obtain ⟨l, hl⟩ := hrest
  refine ⟨max k l + 1, fun n hn fuel hf => ?_⟩
  obtain ⟨fuel, rfl⟩ : ∃ f, fuel = f + 1 := ⟨fuel - 1, by omega⟩
  rw [iterate]
  exact (Proc.bind_ok (hk n (by omega))).trans (hl n (by omega) fuel (by omega))

theorem runs (h : Loops step s e r e₁) : Runs (fun m => iterate (step m) m.fuel s) e r e₁ := by
  obtain ⟨k, hk⟩ := h
  refine ⟨k + 1, fun n hn => ?_⟩
  obtain ⟨n, rfl⟩ : ∃ l, n = l + 1 := ⟨n - 1, by omega⟩
  exact hk (n + 1) (by omega) n (by omega)

end Loops

/-- With enough fuel some turns of the loop lead from one state to another one. -/
inductive Advances (step : Machine → σ → Proc β (Turn σ ρ)) : σ → Engine → σ → Engine → Prop where
  | refl (s : σ) (e : Engine) : Advances step s e s e
  | again {s s₁ s' : σ} {e e₁ e' : Engine} (h : Runs (step · s) e (.again s₁) e₁) (hrest : Advances step s₁ e₁ s' e') :
      Advances step s e s' e'

namespace Advances

variable [Inhabited β] {step : Machine → σ → Proc β (Turn σ ρ)} {s s' : σ} {e e' e₁ : Engine} {r : ρ} {i : Interrupted β}

theorem loops (h : Advances step s e s' e') (hlast : Loops step s' e' r e₁) : Loops step s e r e₁ := by
  induction h with
  | refl => exact hlast
  | again hstep _ ih => exact .again hstep (ih hlast)

theorem stops (h : Advances step s e s' e') (hlast : Stops (step · s') e' i e₁) :
    Stops (fun m => iterate (step m) m.fuel s) e i e₁ := by
  have hloop : ∃ k, ∀ n ≥ k, ∀ fuel ≥ k, iterate (step (machine n)) fuel s e = .error i e₁ := by
    induction h with
    | refl s e =>
      obtain ⟨k, hk⟩ := hlast
      refine ⟨k + 1, fun n hn fuel hf => ?_⟩
      obtain ⟨fuel, rfl⟩ : ∃ f, fuel = f + 1 := ⟨fuel - 1, by omega⟩
      rw [iterate]
      exact Proc.bind_error (hk n (by omega))
    | again hstep _ ih =>
      obtain ⟨k, hk⟩ := hstep
      obtain ⟨l, hl⟩ := ih hlast
      refine ⟨max k l + 1, fun n hn fuel hf => ?_⟩
      obtain ⟨fuel, rfl⟩ : ∃ f, fuel = f + 1 := ⟨fuel - 1, by omega⟩
      rw [iterate]
      exact (Proc.bind_ok (hk n (by omega))).trans (hl n (by omega) fuel (by omega))
  obtain ⟨k, hk⟩ := hloop
  refine ⟨k + 1, fun n hn => ?_⟩
  obtain ⟨n, rfl⟩ : ∃ l, n = l + 1 := ⟨n - 1, by omega⟩
  exact hk (n + 1) (by omega) n (by omega)

end Advances

/-! ## The procedures of the machine -/

section Members

variable {p : Machine → Proc β α} {e e₁ : Engine}

/-- A member of the machine runs as the procedure which it stands for, with less fuel. -/
theorem Runs.of_member {a : α} {q : Machine → Proc β α} (h : Runs q e a e₁)
    (hpq : ∀ n, p (machine (n + 1)) e = q (machine n) e) : Runs p e a e₁ := by
  obtain ⟨k, hk⟩ := h
  refine ⟨k + 1, fun n hn => ?_⟩
  obtain ⟨n, rfl⟩ : ∃ l, n = l + 1 := ⟨n - 1, by omega⟩
  rw [hpq, hk n (by omega)]

theorem Runs.next {t : Option Token} (h : Runs readToken e t e₁) : Runs Machine.next e t e₁ :=
  h.of_member fun _ => rfl

theorem Runs.nextExpanded {t : Option Token} (h : Runs readExpanded e t e₁) : Runs Machine.nextExpanded e t e₁ :=
  h.of_member fun _ => rfl

theorem Runs.number {n : Int64} (h : Runs Compositor.number e n e₁) : Runs Machine.number e n e₁ :=
  h.of_member fun _ => rfl

end Members

/-! ## Steps along a list -/

/-- Steps which are labelled with the elements of a list lead from one state to another one. -/
def Along {σ α : Type} (step : σ → α → σ → Prop) : σ → List α → σ → Prop
  | s, [], s' => s = s'
  | s, a :: as, s' => ∃ mid, step s a mid ∧ Along step mid as s'

theorem along_append {step : σ → α → σ → Prop} {s s' : σ} {as bs : List α} :
    Along step s (as ++ bs) s' ↔ ∃ mid, Along step s as mid ∧ Along step mid bs s' := by
  induction as generalizing s with
  | nil => simp [Along]
  | cons a as ih =>
    simp only [List.cons_append, Along, ih]
    constructor
    · rintro ⟨mid, ha, mid', has, hbs⟩
      exact ⟨mid', ⟨mid, ha, has⟩, hbs⟩
    · rintro ⟨mid', ⟨mid, ha, has⟩, hbs⟩
      exact ⟨mid, ha, mid', has, hbs⟩

theorem Along.map {step step' : σ → α → σ → Prop} {s s' : σ} {as : List α}
    (h : ∀ {s₁ a s₂}, step s₁ a s₂ → step' s₁ a s₂) (hs : Along step s as s') : Along step' s as s' := by
  induction as generalizing s with
  | nil => exact hs
  | cons a as ih =>
    obtain ⟨mid, ha, has⟩ := hs
    exact ⟨mid, h ha, ih has⟩

/-! ## What an input delivers -/

/-- The input gives these tokens one after the other, and another input is left. -/
def Input.Delivers (lexicon : Lexicon) : Input → List Token → Input → Prop
  | input, [], rest => input = rest
  | input, t :: ts, rest => ∃ mid, pull lexicon input = (.token t, mid) ∧ Delivers lexicon mid ts rest

namespace Input

variable {lexicon : Lexicon}

theorem delivers_append {input rest : Input} {ts us : List Token} :
    input.Delivers lexicon (ts ++ us) rest ↔
      ∃ mid, input.Delivers lexicon ts mid ∧ mid.Delivers lexicon us rest := by
  induction ts generalizing input with
  | nil => simp [Delivers]
  | cons t ts ih =>
    simp only [List.cons_append, Delivers, ih]
    constructor
    · rintro ⟨mid, hpull, mid', hts, hus⟩
      exact ⟨mid', ⟨mid, hpull, hts⟩, hus⟩
    · rintro ⟨mid', ⟨mid, hpull, hts⟩, hus⟩
      exact ⟨mid, hpull, mid', hts, hus⟩

theorem delivers_pushTokens (input : Input) (ts : List Token) : (input.pushTokens ts).Delivers lexicon ts input := by
  have htokens : ∀ (place : Locator) (t : Token) (us : List Token),
      Delivers lexicon (.tokens (t :: us) place :: input) (t :: us) input := by
    intro place t us
    induction us generalizing t with
    | nil => exact ⟨input, by simp [pull], rfl⟩
    | cons u us ih => exact ⟨_, by simp [pull], ih u⟩
  cases ts with
  | nil => rfl
  | cons t ts => exact htokens _ t ts

/-- The input gives these tokens one after the other, and then it is at its end. -/
def Holds (lexicon : Lexicon) (input : Input) (ts : List Token) : Prop :=
  ∃ rest, input.Delivers lexicon ts rest ∧ rest.pull lexicon = (.exhausted, [])

theorem holds_append {input mid : Input} {ts us : List Token} (h : input.Delivers lexicon ts mid)
    (hmid : mid.Holds lexicon us) : input.Holds lexicon (ts ++ us) := by
  obtain ⟨rest, hus, hend⟩ := hmid
  exact ⟨rest, delivers_append.2 ⟨mid, h, hus⟩, hend⟩

theorem Holds.split {input : Input} {ts us : List Token} (h : input.Holds lexicon (ts ++ us)) :
    ∃ mid, input.Delivers lexicon ts mid ∧ mid.Holds lexicon us := by
  obtain ⟨rest, hdelivers, hend⟩ := h
  obtain ⟨mid, hts, hus⟩ := delivers_append.1 hdelivers
  exact ⟨mid, hts, rest, hus, hend⟩

theorem holds_pushTokens {input : Input} {us : List Token} (ts : List Token) (h : input.Holds lexicon us) :
    (input.pushTokens ts).Holds lexicon (ts ++ us) :=
  holds_append (input.delivers_pushTokens ts) h

theorem holds_nil : Holds lexicon [] [] := ⟨[], rfl, rfl⟩

end Input

def Engine.withInput (e : Engine) (input : Input) : Engine := { e with input }

@[simp] theorem Engine.withInput_context (e : Engine) (input : Input) : (e.withInput input).context = e.context := rfl

@[simp] theorem Engine.withInput_input (e : Engine) (input : Input) : (e.withInput input).input = input := rfl

@[simp] theorem Engine.withInput_withInput (e : Engine) (i j : Input) :
    (e.withInput i).withInput j = e.withInput j := rfl

@[simp] theorem Engine.withInput_self (e : Engine) : e.withInput e.input = e := rfl

/-- **The next token of the input is read.** -/
theorem next_runs {e : Engine} {t : Token} {input : Input}
    (h : e.input.pull e.context.lexicon = (.token t, input)) :
    Runs Machine.next e (some t) (e.withInput input) := by
  refine Runs.next (Loops.runs (Loops.done (Runs.of_eq fun m => ?_)))
  simp [h, Engine.withInput]

theorem next_runs_none {e : Engine} {input : Input} (h : e.input.pull e.context.lexicon = (.exhausted, input)) :
    Runs Machine.next e none (e.withInput input) := by
  refine Runs.next (Loops.runs (Loops.done (Runs.of_eq fun m => ?_)))
  simp [h, Engine.withInput]

end Compositor
