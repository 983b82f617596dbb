import Compositor.Engine.Run

/-!
# Proper states

Only some categories can be those of a token which the engine executes: a text is never tokenized into characters of the
other ones, and no command makes such tokens. A state is proper if all tokens in it are: those waiting in the input, those
in token registers and replacement texts, the characters which control sequences stand for, and the tokens deferred to
the end of a group. The table of categories is part of that, since tokens are made from it. And no meaning must get at
the count register in which the magnification is kept, but that of the command for it.

* `Token.Proper`, `Meaning.Proper`, `Key.Proper`, `Context.Proper`, `Input.Proper`, `Engine.Proper` say what is proper;
* `Context.Proper.set` and the lemmas after it say that changes of a context keep it proper;
* `Input.Proper.pull` says that a proper input gives proper tokens.
-/

namespace Compositor

/-! ## Tokens and values -/

theorem Catcode.isForTokens_of_isValid {cat : Catcode} (hvalid : cat.isValid = true) (hend : cat ≠ .endLine)
    (hignored : cat ≠ .ignored) (hcomment : cat ≠ .comment) (hinvalid : cat ≠ .invalid) : cat.isForTokens = true := by
  cases cat with
  | endLine => exact absurd rfl hend
  | ignored => exact absurd rfl hignored
  | comment => exact absurd rfl hcomment
  | invalid => exact absurd rfl hinvalid
  | beyond n => cases hvalid
  | _ => rfl

theorem Catcode.isValid_ofCode {n : Nat} (h : n ≤ 15) : (ofCode n).isValid = true := by
  revert n
  decide

def Token.Proper (t : Token) : Prop := t.cat.isForTokens = true

/-- The tokens of a replacement text are proper. -/
def Definition.Proper (d : Definition) : Prop := ∀ t, .token t ∈ d.body → t.Proper

/-- The command leaves the count register of the magnification to the one which assigns it under this name. -/
def Command.Proper (name : String) : Command → Prop
  | register .count fixed => fixed ≠ some "mag"
  | magnification => name = "mag"
  | _ => True

theorem Command.proper_iff (name : String) (c : Command) :
    c.Proper name ↔ c ≠ .register .count (some "mag") ∧ (c = .magnification → name = "mag") := by
  cases c with
  | register kind fixed => cases kind <;> simp [Command.Proper]
  | magnification => simp [Command.Proper]
  | _ => simp [Command.Proper]

instance (name : String) (c : Command) : Decidable (c.Proper name) := decidable_of_iff' _ (c.proper_iff name)

def Meaning.Proper : Meaning → Prop
  | definition d => d.Proper
  | character _ t => t.Proper
  | primitive _ name (.command c) => c.Proper name
  | _ => True

/-- The tokens in the value of a key are proper, and a category is one of those which there are. -/
def Key.Proper : (k : Key) → k.Value → Prop
  | toks _, ts => ∀ t ∈ (ts : List Token), t.Proper
  | catcode _, cat => Catcode.isValid cat = true
  | meaning _, m => ∀ meaning ∈ (m : Option Meaning), meaning.Proper
  | _, _ => True

theorem Token.proper_controlSequence (name space : String) : (controlSequence name space).Proper := rfl

theorem Token.proper_activeChar (c : Char) (space : String) : (activeChar c space).Proper := rfl

theorem Token.proper_blank : blank.Proper := rfl

theorem Token.proper_other (c : Char) : (other c).Proper := rfl

theorem Token.proper_character {cat : Catcode} (h : cat.isForTokens = true) (c : Char) : (character cat c).Proper := by
  unfold Proper character
  split
  · rfl
  · exact h

theorem Token.proper_otherTokens (s : String) : ∀ t ∈ otherTokens s, t.Proper := by
  intro t ht
  obtain ⟨c, -, rfl⟩ := List.mem_map.1 ht
  split
  · exact proper_blank
  · exact proper_other c

theorem initialCatcode_isValid (code : Nat) : (initialCatcode code).isValid = true := by
  unfold initialCatcode
  split <;> try rfl
  split <;> rfl

theorem Key.proper_initial (k : Key) : k.Proper k.initial := by
  cases k with
  | catcode code => exact initialCatcode_isValid code
  | toks => exact fun t ht => by cases ht
  | meaning => exact fun m hm => by cases hm
  | _ => trivial

/-! ## Contexts -/

/-- The values which a group binds are proper, and the tokens deferred to its end. -/
structure Group.Proper (g : Group) : Prop where
  bindings : ∀ k v, g.bindings.get? k = some v → k.Proper v
  after : ∀ t, .token t ∈ g.after → t.Proper

def Context.Proper (c : Context) : Prop := ∀ g ∈ c.groups, g.Proper

theorem Group.Proper.bind {g : Group} (h : g.Proper) {k : Key} {v : k.Value} (hv : k.Proper v) : (g.bind k v).Proper := by
  refine ⟨fun k' v' hget => ?_, h.after⟩
  by_cases hk : k = k'
  · subst hk
    simp only [Group.bind, Bindings.get?_insert_self, Option.some.injEq] at hget
    exact hget ▸ hv
  · simp only [Group.bind, Bindings.get?_insert_of_ne _ hk] at hget
    exact h.bindings k' v' hget

namespace Context

variable {c : Context}

theorem proper_iff : c.Proper ↔ (∀ g ∈ c.inner, g.Proper) ∧ c.outermost.Proper := by
  simp only [Proper, groups, List.mem_append, List.mem_singleton]
  constructor
  · exact fun h => ⟨fun g hg => h g (.inl hg), h _ (.inr rfl)⟩
  · rintro ⟨hinner, houter⟩ g (hg | rfl)
    · exact hinner g hg
    · exact houter

theorem proper_lookupIn {gs : List Group} (h : ∀ g ∈ gs, g.Proper) {k : Key} {v : k.Value}
    (hv : lookupIn k gs = some v) : k.Proper v := by
  induction gs with
  | nil => cases hv
  | cons g gs ih =>
    rw [lookupIn] at hv
    split at hv
    · rename_i w hw
      obtain rfl := Option.some.inj hv
      exact (h g (by simp)).bindings k w hw
    · exact ih (fun g hg => h g (by simp [hg])) hv

theorem Proper.get (h : c.Proper) (k : Key) : k.Proper (c.get k) := by
  rw [Context.get]
  cases hv : c.lookup k with
  | none => exact k.proper_initial
  | some v => exact proper_lookupIn h hv

theorem Proper.toks (h : c.Proper) (name : String) : ∀ t ∈ c.toks name, t.Proper := h.get (.toks name)

theorem Proper.catcode (h : c.Proper) (code : Nat) : (c.catcode code).isValid = true := h.get (.catcode code)

theorem Proper.meaning (h : c.Proper) (t : Token) : ∀ m ∈ c.meaning t, m.Proper := by
  intro m hm
  unfold Context.meaning at hm
  split at hm
  · rename_i m' hm'
    obtain rfl := Option.some.inj hm
    exact h.get (.meaning t) m' hm'
  · split at hm
    · exact h.get (.meaning (t.inSpace "")) m hm
    · cases hm

theorem Proper.of_groups {c' : Context} (h : c.Proper) (hgroups : c'.groups = c.groups) : c'.Proper := by
  intro g hg
  exact h g (hgroups ▸ hg)

theorem Proper.modifyCurrent (h : c.Proper) {f : Group → Group} (hf : ∀ g, g.Proper → (f g).Proper) :
    (c.modifyCurrent f).Proper := by
  rw [proper_iff] at h ⊢
  obtain ⟨hinner, houter⟩ := h
  unfold Context.modifyCurrent
  split
  · exact ⟨hinner, hf _ houter⟩
  · rename_i g rest heq
    refine ⟨fun g' hg' => ?_, houter⟩
    rcases List.mem_cons.1 hg' with rfl | hg'
    · exact hf g (hinner g (by simp [heq]))
    · exact hinner g' (by simp [heq, hg'])

theorem Proper.modifyAll (h : c.Proper) {f : Group → Group} (hf : ∀ g, g.Proper → (f g).Proper) :
    (c.modifyAll f).Proper := by
  rw [proper_iff] at h ⊢
  refine ⟨fun g' hg' => ?_, hf _ h.2⟩
  obtain ⟨g, hg, rfl⟩ := List.mem_map.1 hg'
  exact hf g (h.1 g hg)

theorem Proper.set (h : c.Proper) {k : Key} {v : k.Value} (hv : k.Proper v) (globally : Bool) :
    (c.set k v globally).Proper := by
  cases globally with
  | false => exact h.modifyCurrent fun g hg => hg.bind hv
  | true =>
    rw [proper_iff] at h ⊢
    refine ⟨fun g' hg' => ?_, h.2.bind hv⟩
    obtain ⟨g, hg, rfl⟩ := List.mem_map.1 hg'
    split
    · exact (h.1 g hg).bind hv
    · exact h.1 g hg

theorem Proper.notify (h : c.Proper) (w : Watch) (n : Notice) : (c.notify w n).Proper := h.of_groups rfl

theorem Proper.setCount (h : c.Proper) (name : String) (v : Int64) (globally : Bool) :
    (c.setCount name v globally).Proper := (h.set (k := .count name) trivial globally).notify _ _

theorem Proper.setMeaning (h : c.Proper) (t : Token) {m : Option Meaning} (hm : ∀ meaning ∈ m, meaning.Proper)
    (globally : Bool) : (c.setMeaning t m globally).Proper :=
  (h.set (k := .meaning t) hm globally).notify _ _

theorem Proper.setStyle (h : c.Proper) (style : Style) (globally : Bool) : (c.setStyle style globally).Proper := by
  unfold Context.setStyle
  split
  · exact h.modifyAll fun g hg => ⟨hg.bindings, hg.after⟩
  · exact h.modifyCurrent fun g hg => ⟨hg.bindings, hg.after⟩

theorem Proper.setSpace (h : c.Proper) (space : String) (globally : Bool) : (c.setSpace space globally).Proper := by
  unfold Context.setSpace
  split
  · exact h.modifyAll fun g hg => ⟨hg.bindings, hg.after⟩
  · exact h.modifyCurrent fun g hg => ⟨hg.bindings, hg.after⟩

theorem Proper.setInteraction (h : c.Proper) (mode : Interaction) (globally : Bool) :
    (c.setInteraction mode globally).Proper := by
  have hchanged : (if globally then c.modifyAll fun g => { g with interaction := mode }
      else c.modifyCurrent fun g => { g with interaction := mode }).Proper := by
    split
    · exact h.modifyAll fun g hg => ⟨hg.bindings, hg.after⟩
    · exact h.modifyCurrent fun g hg => ⟨hg.bindings, hg.after⟩
  simp only [Context.setInteraction]
  split
  · exact hchanged.of_groups rfl
  · exact hchanged

theorem Proper.openGroup (h : c.Proper) (kind : GroupKind) (place : Locator) : (c.openGroup kind place).Proper := by
  rw [proper_iff] at h ⊢
  refine ⟨fun g hg => ?_, h.2⟩
  rcases List.mem_cons.1 hg with rfl | hg
  · refine ⟨fun k v hv => ?_, fun t ht => ?_⟩
    · cases hv
    · cases ht
  · exact h.1 g hg

theorem Proper.afterGroupToken (h : c.Proper) {t : Token} (ht : t.Proper) : (c.afterGroupToken t).Proper := by
  unfold Context.afterGroupToken
  split
  · exact h
  · rename_i g rest heq
    rw [proper_iff] at h ⊢
    refine ⟨fun g' hg' => ?_, h.2⟩
    rcases List.mem_cons.1 hg' with rfl | hg'
    · have hg := h.1 g (by simp [heq])
      refine ⟨hg.bindings, fun u hu => ?_⟩
      rcases List.mem_append.1 hu with hu | hu
      · exact hg.after u hu
      · obtain rfl : u = t := by simpa using hu
        exact ht
    · exact h.1 g' (by simp [heq, hg'])

theorem Proper.closeGroup (h : c.Proper) {kind : GroupKind} {ts : List Token} {c' : Context}
    (hclose : c.closeGroup kind = .ok (ts, c')) : c'.Proper ∧ ∀ t ∈ ts, t.Proper := by
  unfold Context.closeGroup at hclose
  split at hclose
  · cases hclose
  · rename_i g rest heq
    have hg : g.Proper := h g (by simp [groups, heq])
    have hrest : ∀ g' ∈ rest ++ [c.outermost], g'.Proper := fun g' hg' => h g' (by
      simp only [groups, heq, List.cons_append, List.mem_cons]
      exact .inr hg')
    split at hclose
    · cases hclose
    · simp only [Except.ok.injEq, Prod.mk.injEq] at hclose
      obtain ⟨rfl, rfl⟩ := hclose
      refine ⟨?_, fun t ht => ?_⟩
      · intro g' hg'
        refine hrest g' ?_
        simp only [groups] at hg' ⊢
        split at hg' <;> exact hg'
      · obtain ⟨a, ha, hat⟩ := List.mem_filterMap.1 ht
        cases a with
        | token u =>
          obtain rfl := Option.some.inj hat
          exact hg.after u ha
        | notice label => cases hat

theorem Proper.setMagnification (h : c.Proper) {v : Int64} {lock : Bool} {c' : Context}
    (hset : c.setMagnification v lock = .ok c') : c'.Proper := by
  unfold Context.setMagnification at hset
  split at hset
  · cases hset
  · split at hset
    · cases hset
    · obtain rfl := Except.ok.inj hset
      exact h.of_groups rfl

end Context

/-! ## The input -/

/-- The categories of a lexicon are among those which there are. -/
def Lexicon.Proper (lexicon : Lexicon) : Prop := ∀ c, (lexicon.catcode c).isValid = true

theorem Context.Proper.lexicon {c : Context} (h : c.Proper) : c.lexicon.Proper := fun ch => h.catcode ch.toNat

namespace Tokenizer

theorem readLine_proper {lexicon : Lexicon} (hlexicon : lexicon.Proper) (t : Tokenizer) {u : Token} {t' : Tokenizer}
    (h : t.readLine lexicon = (some (.token u), t')) : u.Proper := by
  fun_induction readLine lexicon t with
  | case1 => cases h
  | case2 => cases h; exact Token.proper_controlSequence _ _
  | case3 => cases h; exact Token.proper_activeChar _ _
  | case4 =>
    obtain rfl := Lexeme.token.inj (Option.some.inj (Prod.mk.inj h).1)
    exact Token.proper_controlSequence _ _
  | case5 =>
    obtain rfl := Lexeme.token.inj (Option.some.inj (Prod.mk.inj h).1)
    exact Token.proper_blank
  | case6 => cases h
  | case7 => cases h; exact Token.proper_blank
  | case8 t c rest _ _ _ _ ih => exact ih h
  | case9 t c rest _ _ _ ih => exact ih h
  | case10 => cases h
  | case11 => cases h
  | case12 t c rest hchar cat hescape hactive hend hspace hignored hcomment hinvalid =>
    cases h
    exact Token.proper_character (Catcode.isForTokens_of_isValid (hlexicon c) hend hignored hcomment hinvalid) c

theorem readFrom_proper {lexicon : Lexicon} (hlexicon : lexicon.Proper) (lines : List (List Char)) (t : Tokenizer)
    {u : Token} {t' : Tokenizer} (h : t.readFrom lexicon lines = (.token u, t')) : u.Proper := by
  induction lines generalizing t with
  | nil =>
    rw [readFrom] at h
    split at h
    · rename_i lexeme t'' hline
      cases h
      exact readLine_proper hlexicon t hline
    · cases h
  | cons line lines ih =>
    rw [readFrom] at h
    split at h
    · rename_i lexeme t'' hline
      cases h
      exact readLine_proper hlexicon t hline
    · exact ih _ h

end Tokenizer

namespace Input

def Proper (input : Input) : Prop := ∀ ts place, .tokens ts place ∈ input → ∀ t ∈ ts, t.Proper

variable {input : Input}

theorem Proper.tail {s : Source} (h : Proper (s :: input)) : input.Proper :=
  fun ts place hmem => h ts place (List.mem_cons_of_mem s hmem)

theorem Proper.pushText (h : input.Proper) (t : Tokenizer) : Proper (.text t :: input) := by
  intro ts place hmem
  rcases List.mem_cons.1 hmem with heq | hmem
  · cases heq
  · exact h ts place hmem

theorem Proper.cons {ts : List Token} (h : input.Proper) (hts : ∀ t ∈ ts, t.Proper) (place : Locator) :
    Proper (.tokens ts place :: input) := by
  intro us place' hmem
  rcases List.mem_cons.1 hmem with heq | hmem
  · cases heq
    exact hts
  · exact h us place' hmem

theorem Proper.pushTokens {ts : List Token} (h : input.Proper) (hts : ∀ t ∈ ts, t.Proper) :
    (input.pushTokens ts).Proper := by
  unfold Input.pushTokens
  split
  · exact h
  · exact h.cons hts _

/-- A proper input stays proper when a token is taken from it, and the token is proper. -/
theorem Proper.pull {lexicon : Lexicon} (hlexicon : lexicon.Proper) {pulled : Pulled} {input' : Input}
    (h : input.Proper) (hpull : input.pull lexicon = (pulled, input')) :
    input'.Proper ∧ ∀ t, pulled = .token t → t.Proper := by
  fun_induction Input.pull lexicon input with
  | case1 =>
    cases hpull
    exact ⟨h, fun t ht => by cases ht⟩
  | case2 place rest ih => exact ih h.tail hpull
  | case3 t place rest =>
    cases hpull
    refine ⟨h.tail, fun u hu => ?_⟩
    cases hu
    exact h [t] place (by simp) t (by simp)
  | case4 t ts place rest =>
    cases hpull
    have hts := h (t :: ts) place (by simp)
    refine ⟨h.tail.cons (fun u hu => hts u (by simp [hu])) place, fun u hu => ?_⟩
    cases hu
    exact hts t (by simp)
  | case5 t rest tok t' hread =>
    cases hpull
    refine ⟨h.tail.pushText t', fun u hu => ?_⟩
    cases hu
    exact Tokenizer.readFrom_proper hlexicon t.lines t hread
  | case6 t rest c place t' hread =>
    cases hpull
    exact ⟨h.tail.pushText t', fun u hu => by cases hu⟩
  | case7 t rest t' hread ih => exact ih h.tail hpull

end Input

/-! ## Engines -/

/-- The tokens of an engine are proper, and its table of categories. -/
structure Engine.Proper (e : Engine) : Prop where
  input : e.input.Proper
  context : e.context.Proper

end Compositor
