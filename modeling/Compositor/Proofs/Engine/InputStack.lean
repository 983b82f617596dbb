import Compositor.Proofs.Engine.Meanings

/-!
# The input as a single list of tokens

Tokens which are put in front of the input wait in a stack of lists, and some of these have been read in part. Whoever
reads them cannot tell this from a single list.

* `serve` answers calls which insert tokens, put one back or take the next one. `answers` and `remaining` say what comes
  of the same calls on a single list;
* `Input.Compact` says that no list on the stack has been read to its end. It is kept by calls (`serve_runs`), and by
  everything which the engine does (`Course.compact`);
* `input_is_list` puts these together. A definition leaves nothing on the stack once its last token has been taken.
-/

namespace Compositor

/-! ## Calls -/

/-- What is asked of the input. -/
inductive InputCall where
  /-- A list of tokens is to be read next. -/
  | insert (ts : List Token)
  /-- A token which has been read is to be read again. -/
  | putBack (t : Token)
  /-- The next token is read. -/
  | take
deriving DecidableEq, Repr

/-- Answers calls one after the other, and gives the tokens which are taken. -/
def serve (m : Machine) : List InputCall → Action (List (Option Token))
  | [] => return []
  | .insert ts :: calls => do
    pushTokens ts
    serve m calls
  | .putBack t :: calls => do
    pushBack t
    serve m calls
  | .take :: calls => do
    let t ← m.next
    return t :: (← serve m calls)

/-- The tokens which are taken from a list. There is none exactly when the list is empty. -/
def answers : List Token → List InputCall → List (Option Token)
  | _, [] => []
  | ts, .insert us :: calls => answers (us ++ ts) calls
  | ts, .putBack t :: calls => answers (t :: ts) calls
  | ts, .take :: calls => ts.head? :: answers ts.tail calls

def remaining : List Token → List InputCall → List Token
  | ts, [] => ts
  | ts, .insert us :: calls => remaining (us ++ ts) calls
  | ts, .putBack t :: calls => remaining (t :: ts) calls
  | ts, .take :: calls => remaining ts.tail calls

/-- No more tokens are taken than there are in the list. -/
def Covered : List Token → List InputCall → Prop
  | _, [] => True
  | ts, .insert us :: calls => Covered (us ++ ts) calls
  | ts, .putBack t :: calls => Covered (t :: ts) calls
  | ts, .take :: calls => ts ≠ [] ∧ Covered ts.tail calls

/-! ## Stacks -/

def Source.IsList : Source → Prop
  | .tokens _ _ => True
  | .text _ => False

/-- The source is a list of tokens which has been read to its end. -/
def Source.IsSpent : Source → Prop
  | .tokens ts _ => ts = []
  | .text _ => False

namespace Input

/-- There are no texts on the stack. -/
def HasLists (input : Input) : Prop := ∀ s ∈ input, s.IsList

/-- No list of tokens stays on the stack after its last token. -/
def Compact (input : Input) : Prop := ∀ s ∈ input, ¬ s.IsSpent

/-- On top of the base lie lists in which these tokens wait. Where `compact` holds, none of the lists has been read to its
end. -/
def LiesOn (base : Input) (compact : Prop) (ts : List Token) (input : Input) : Prop :=
  ∃ upper : Input, input = upper ++ base ∧ upper.HasLists ∧ upper.waiting = ts ∧ (compact → upper.Compact)

variable {input base : Input} {lexicon : Lexicon} {compact : Prop} {t : Token} {ts : List Token}

theorem HasLists.liesOn_nil (h : input.HasLists) : LiesOn [] input.Compact input.waiting input :=
  ⟨input, (List.append_nil input).symm, h, rfl, id⟩

theorem liesOn_refl (base : Input) : LiesOn base compact [] base :=
  ⟨[], rfl, fun _ h => absurd h List.not_mem_nil, rfl, fun _ _ h => absurd h List.not_mem_nil⟩

/-- The list which is pushed has a token, since an empty one is not pushed. -/
theorem LiesOn.pushTokens (h : LiesOn base compact ts input) (us : List Token) :
    LiesOn base compact (us ++ ts) (input.pushTokens us) := by
  obtain ⟨upper, rfl, hlists, rfl, hcompact⟩ := h
  unfold Input.pushTokens
  split
  · rename_i hus
    rw [List.isEmpty_iff.1 hus]
    exact ⟨upper, rfl, hlists, rfl, hcompact⟩
  · rename_i hus
    refine ⟨.tokens us (Input.locator (upper ++ base)) :: upper, rfl, List.forall_mem_cons.2 ⟨trivial, hlists⟩, rfl,
      fun hc => List.forall_mem_cons.2 ⟨fun hspent => ?_, hcompact hc⟩⟩
    exact hus (List.isEmpty_iff.2 hspent)

/-- The next token is the first one which waits. A list leaves the stack together with its last token. -/
theorem LiesOn.pull_token (h : LiesOn base compact (t :: ts) input) (lexicon : Lexicon) :
    ∃ rest, input.pull lexicon = (.token t, rest) ∧ LiesOn base compact ts rest := by
  obtain ⟨upper, rfl, hlists, hwaiting, hcompact⟩ := h
  induction upper with
  | nil => cases hwaiting
  | cons s upper ih =>
    obtain ⟨hs, hupper⟩ := List.forall_mem_cons.1 hlists
    have hcompact' : compact → Compact upper := fun hc => (List.forall_mem_cons.1 (hcompact hc)).2
    cases s with
    | text text => exact hs.elim
    | tokens us place =>
      match us, hwaiting with
      | [], hwaiting => exact ih hupper hwaiting hcompact'
      | [u], hwaiting =>
        obtain ⟨rfl, hrest⟩ := List.cons.inj hwaiting
        exact ⟨upper ++ base, rfl, upper, rfl, hupper, hrest, hcompact'⟩
      | u :: v :: us, hwaiting =>
        obtain ⟨rfl, hrest⟩ := List.cons.inj hwaiting
        refine ⟨.tokens (v :: us) place :: (upper ++ base), rfl, .tokens (v :: us) place :: upper, rfl,
          List.forall_mem_cons.2 ⟨trivial, hupper⟩, hrest, fun hc => ?_⟩
        exact List.forall_mem_cons.2 ⟨List.cons_ne_nil v us, hcompact' hc⟩

/-- Where no token waits and there is no base, the input is at its end. -/
theorem LiesOn.pull_exhausted (h : LiesOn [] compact [] input) : input.pull lexicon = (.exhausted, []) := by
  obtain ⟨upper, rfl, hlists, hwaiting, -⟩ := h
  induction upper with
  | nil => rfl
  | cons s upper ih =>
    obtain ⟨hs, hupper⟩ := List.forall_mem_cons.1 hlists
    cases s with
    | text text => exact hs.elim
    | tokens us place =>
      obtain ⟨rfl, hwaiting⟩ := List.append_eq_nil_iff.1 hwaiting
      exact ih hupper hwaiting

theorem Compact.eq_nil (h : input.Compact) (hlists : input.HasLists) (hwaiting : input.waiting = []) : input = [] := by
  cases input with
  | nil => rfl
  | cons s rest =>
    cases s with
    | tokens us place => exact absurd (List.append_eq_nil_iff.1 hwaiting).1 (h _ List.mem_cons_self)
    | text text => exact (hlists _ List.mem_cons_self).elim

end Input

/-! ## The stack is a list -/

section Serving

variable {e e₁ : Engine} {base : Input} {compact : Prop} {ts : List Token}

/-- The next token of a list on top of a base, or the end of the input. -/
theorem next_liesOn (h : Input.LiesOn base compact ts e.input) (hbase : base = [] ∨ ts ≠ []) :
    ∃ input, Runs Machine.next e ts.head? (e.withInput input) ∧ Input.LiesOn base compact ts.tail input := by
  cases ts with
  | nil =>
    obtain rfl : base = [] := hbase.resolve_right (absurd rfl)
    exact ⟨[], next_runs_none h.pull_exhausted, Input.liesOn_refl []⟩
  | cons t ts =>
    obtain ⟨rest, hpull, hrest⟩ := h.pull_token e.context.lexicon
    exact ⟨rest, next_runs hpull, hrest⟩

/-- **Calls get the answers of a single list**, by induction on the calls. The base is read only by someone who takes more
than there is in front of it. -/
theorem serve_runs (calls : List InputCall) (h : Input.LiesOn base compact ts e.input)
    (hcalls : base = [] ∨ Covered ts calls) :
    ∃ input, Runs (serve · calls) e (answers ts calls) (e.withInput input) ∧
      Input.LiesOn base compact (remaining ts calls) input := by
  induction calls generalizing e ts with
  | nil => exact ⟨e.input, .of_eq fun _ => rfl, h⟩
  | cons call calls ih =>
    cases call with
    | insert us =>
      obtain ⟨input, hserve, hinput⟩ := ih (e := e.pushTokens us) (h.pushTokens us) hcalls
      exact ⟨input, (Runs.of_eq fun _ => rfl).bind hserve, hinput⟩
    | putBack t =>
      obtain ⟨input, hserve, hinput⟩ := ih (e := e.pushTokens [t]) (h.pushTokens [t]) hcalls
      exact ⟨input, (Runs.of_eq fun _ => rfl).bind hserve, hinput⟩
    | take =>
      obtain ⟨mid, hnext, hmid⟩ := next_liesOn h (hcalls.imp_right And.left)
      obtain ⟨input, hserve, hinput⟩ := ih (e := e.withInput mid) hmid (hcalls.imp_right And.right)
      exact ⟨input, hnext.bind (hserve.bind (.of_eq fun _ => rfl)), hinput⟩

end Serving

/-! ## No list stays on the stack -/

namespace Input.Compact

variable {input : Input}

theorem pushTokens (h : input.Compact) (ts : List Token) : (input.pushTokens ts).Compact := by
  unfold Input.pushTokens
  split
  · exact h
  · rename_i hts
    exact List.forall_mem_cons.2 ⟨fun hspent => hts (List.isEmpty_iff.2 hspent), h⟩

/-- Taking a token, be it from a list or from a text, leaves no list which has been read to its end. -/
theorem pull (h : input.Compact) (lexicon : Lexicon) : (input.pull lexicon).2.Compact := by
  induction input with
  | nil => exact h
  | cons s rest ih =>
    obtain ⟨hs, hrest⟩ := List.forall_mem_cons.1 h
    match s, hs with
    | .tokens [] _, hs => exact absurd rfl hs
    | .tokens [u] _, _ => exact hrest
    | .tokens (u :: v :: us) place, _ => exact List.forall_mem_cons.2 ⟨List.cons_ne_nil v us, hrest⟩
    | .text text, _ =>
      simp only [Input.pull]
      split
      · exact List.forall_mem_cons.2 ⟨not_false, hrest⟩
      · exact List.forall_mem_cons.2 ⟨not_false, hrest⟩
      · exact ih hrest

theorem pushText {e : Engine} (h : e.input.Compact) (text source : String) : (e.pushText text source).input.Compact := by
  unfold Engine.pushText
  split
  · exact List.forall_mem_cons.2 ⟨not_false, h⟩
  · exact h

theorem nil : Compact [] := fun _ h => absurd h List.not_mem_nil

end Input.Compact

section Courses

variable {strict : Prop} {l : Level} {o : Option Stop} {e e' : Engine}

theorem ScanStep.compact (h : ScanStep strict e e') (he : e.input.Compact) : e'.input.Compact := by
  cases h with
  | @pull pulled input hpull =>
    have hrest := he.pull e.context.lexicon
    rwa [hpull] at hrest
  | pushTokens => exact he.pushTokens _
  | pushText text source => exact he.pushText text source
  | _ => exact he

theorem WorkStep.compact (h : WorkStep strict e e') (he : e.input.Compact) : e'.input.Compact := by
  cases h with
  | pushText text source => exact he.pushText text source
  | _ => exact he

/-- **Nothing which the engine does leaves a list on the stack after its last token.** -/
theorem Course.compact (h : Course strict l o e e') (he : e.input.Compact) : e'.input.Compact := by
  induction h with
  | refl => exact he
  | scan _ hstep ih => exact hstep.compact (ih he)
  | work _ _ hstep ih => exact hstep.compact (ih he)
  | restore _ _ ih => exact (ih he).pushTokens _
  | exhausted _ ih | stop _ _ ih | answer _ _ _ ih | refuse _ _ _ ih | exceed _ _ _ _ ih | consult _ _ _ _ ih
  | dismiss _ _ _ _ ih | say _ _ _ ih | consent _ ih | decline _ _ ih => exact ih he
  | forgive _ _ _ _ _ _ ih ih' | decide _ _ _ ih ih' | branch _ _ _ _ ih ih' | box _ _ _ _ _ ih ih' => exact ih' (ih he)

theorem Outcome.compact {r : EStateM.Result (Interrupted Unit) Engine Unit} (h : Outcome strict e r)
    (he : e.input.Compact) : (finalState r).input.Compact := by
  cases h with
  | unprepared => exact he
  | stopped => exact .nil
  | unclosed _ hreport => exact hreport.compact .nil
  | ended _ hreport => exact hreport.compact .nil

theorem Engine.Visits.compact (h : e.Visits e') (he : e.input.Compact) : e'.input.Compact := by
  have hrun : ∀ (n : Nat) (e₁ : Engine), e₁.input.Compact → (finalState (run (machine n) e₁)).input.Compact := by
    intro n e₁ he₁
    have houtcome : Outcome False e₁ (run (machine n) e₁) := run_outcome n False.elim
    exact houtcome.compact he₁
  induction h with
  | refl => exact he
  | runText _ n text source ih => exact hrun n _ (ih.pushText text source)
  | @runFile e₁ _ n name ih =>
    obtain ⟨o, e₂, hcourse, hlast | hrun'⟩ := finalState_runFile n name False (e := e₁) False.elim
    · rw [hlast]
      exact hcourse.compact ih
    · rw [hrun']
      exact hrun n e₂ (hcourse.compact ih)
  | begin _ ih => exact ih
  | course _ hcourse ih => exact hcourse.compact ih

end Courses

/-! ## The statement -/

theorem expandOnce_runs {d : Definition} {t : Token} {e e₁ : Engine} {ts : List Token}
    (ht : e.context.meaning? t = some (.definition d)) (hexpand : Runs (d.expand ·) e ts e₁) :
    Runs (expandOnce · t) e () (e₁.pushTokens ts) := by
  have htokens : Runs (fun m => (do return { tokens := ← d.expand m } : Action Replacement)) e { tokens := ts } e₁ :=
    hexpand.bind (q := fun _ ts => pure ({ tokens := ts } : Replacement)) (.of_eq fun _ => rfl)
  have hinsert : Runs (fun m => insertReplacement m do return { tokens := ← d.expand m }) e () (e₁.pushTokens ts) :=
    (htokens.giving ({} : Replacement)).absorb.bind (.of_eq fun _ => rfl)
  have hexpanded : Runs (expand · t) e true (e₁.pushTokens ts) := by
    refine (hinsert.bind (q := fun _ _ => pure true) (.of_eq fun _ => rfl)).congr fun m => ?_
    rw [expand, meaningOf_bind, ht]
  exact hexpanded.bind (.of_eq fun _ => rfl)

/-- **The input is a list of tokens.** Whatever is put in front of a stack of lists, and wherever it is put, the tokens which
are taken are those of a single list, and the end of the input is met exactly when this list is empty. No list stays on
the stack after its last token.

So nothing is left of the replacement text of a definition once its tokens have been taken, and those which were put in
front of them meanwhile: its last token is expanded on the stack which the use was read from. This holds for all stacks,
also for those with texts, and in no state of any run is there a list which has been read to its end. -/
theorem input_is_list (calls : List InputCall) :
    (∀ e : Engine, e.input.HasLists → ∃ input,
      Runs (serve · calls) e (answers e.input.waiting calls) (e.withInput input) ∧ input.HasLists ∧
        input.waiting = remaining e.input.waiting calls ∧ (e.input.Compact → input.Compact)) ∧
    (∀ (d : Definition) (t : Token) (e e₁ : Engine) (ts : List Token), e.context.meaning? t = some (.definition d) →
      Runs (d.expand ·) e ts e₁ → Covered ts calls → ∃ upper : Input,
        Runs (fun m => expandOnce m t >>= fun _ => serve m calls) e (answers ts calls) (e₁.withInput (upper ++ e₁.input)) ∧
          upper.HasLists ∧ upper.Compact ∧ upper.waiting = remaining ts calls ∧ (remaining ts calls = [] → upper = [])) ∧
    ∀ e e' : Engine, e.input = [] → e.Visits e' → e'.input.Compact := by
  refine ⟨fun e hlists => ?_, fun d t e e₁ ts ht hexpand hcovered => ?_, fun e e' hempty hvisits => ?_⟩
  · obtain ⟨input, hserve, upper, rfl, hupper, hwaiting, hcompact⟩ := serve_runs calls hlists.liesOn_nil (.inl rfl)
    rw [List.append_nil] at hserve
    exact ⟨upper, hserve, hupper, hwaiting, hcompact⟩
  · have hpushed : Input.LiesOn e₁.input True ts (e₁.pushTokens ts).input := by
      have hlies : Input.LiesOn e₁.input True (ts ++ []) (e₁.pushTokens ts).input :=
        (Input.liesOn_refl e₁.input).pushTokens ts
      rwa [List.append_nil] at hlies
    obtain ⟨input, hserve, upper, rfl, hupper, hwaiting, hcompact⟩ := serve_runs calls hpushed (.inr hcovered)
    refine ⟨upper, (expandOnce_runs ht hexpand).bind hserve, hupper, hcompact trivial, hwaiting, fun hnone => ?_⟩
    exact (hcompact trivial).eq_nil hupper (hwaiting.trans hnone)
  · exact hvisits.compact (hempty ▸ .nil)

/-- The input of a new engine is given two tokens, and one more between them. The replacement text of a definition is
taken, and leaves nothing. -/
theorem input_is_list_sample :
    let e : Engine := Engine.new default {}
    let calls : List InputCall := [.insert [.letter 'a', .letter 'b'], .take, .putBack (.letter 'c'), .take, .take, .take]
    let d : Definition := { name := "d", body := [.token (.letter 'x'), .token (.letter 'y')] }
    let defined : Engine := e.modifyContext (·.setMeaning (.activeChar '~' "") (some (.definition d)) false)
    Runs (serve · calls) e [some (.letter 'a'), some (.letter 'c'), some (.letter 'b'), none] e ∧
      Runs (fun m => expandOnce m (.activeChar '~' "") >>= fun _ => serve m [.take, .take]) defined
        [some (.letter 'x'), some (.letter 'y')] defined ∧
      ∀ text, (e.pushText text "").input.Compact := by
  intro e calls d defined
  obtain ⟨hlist, -, hcompact⟩ := input_is_list calls
  obtain ⟨-, hdefinition, -⟩ := input_is_list [.take, .take]
  refine ⟨?_, ?_, fun text => ?_⟩
  · obtain ⟨input, hserve, hlists, hwaiting, hkept⟩ := hlist e fun _ h => absurd h List.not_mem_nil
    obtain rfl : input = [] := (hkept .nil).eq_nil hlists hwaiting
    exact hserve
  · have hmeaning : defined.context.meaning? (.activeChar '~' "") = some (.definition d) := by decide +kernel
    obtain ⟨upper, hserve, -, -, -, hnone⟩ := hdefinition d (.activeChar '~' "") defined defined
      [.letter 'x', .letter 'y'] hmeaning (.of_eq fun _ => rfl) ⟨nofun, nofun, trivial⟩
    rw [hnone rfl] at hserve
    exact hserve
  · exact hcompact e _ rfl (.course .refl (.scan (.refl e) (.pushText text "")))

end Compositor
