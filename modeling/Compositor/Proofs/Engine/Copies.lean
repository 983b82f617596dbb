import Compositor.Proofs.Engine.Branching
import Compositor.Proofs.Engine.Frozen
import Compositor.Proofs.Engine.Names

/-!
# Copies of meanings

A control sequence or active character may get the meaning of a token as a copy. Conditionals find no difference between
the copy and the token then, and later assignments to other tokens do not change the copy.

* `Meaning.essence` is what conditionals compare, so that sameness is an equivalence (`sameMeaning_equivalence`);
* `CopyText` says how the token may be written after the control sequence, `assignMeaning_runs` reads it;
* `sameMeaning_copied` compares the copy with the token, which may have its own meaning from the copy: the token of the same
  name in the default name space is its fallback;
* `Context.KeepsFrom` is what deeds keep of an assignment as long as its group is open;
* `copies_agree` puts this together.
-/

namespace Compositor

/-! ## Sameness -/

/-- What conditionals compare of a meaning: neither the name of a definition nor that of a copied character. -/
def Meaning.essence : Meaning → Meaning
  | definition d => definition { d with name := "" }
  | character _ t => character "" { t with space := "" }
  | m => m

theorem Definition.same_iff (a b : Definition) : a.same b = true ↔ { a with name := "" } = { b with name := "" } := by
  rw [Definition.same, beq_iff_eq]
  constructor
  · intro h
    rw [h]
  · intro h
    cases a
    cases b
    simpa using h

/-- **Two meanings are the same if there is no difference in what is compared.** -/
theorem Meaning.same_iff (a b : Meaning) : a.same b = true ↔ a.essence = b.essence := by
  cases a with
  | definition a =>
    cases b with
    | definition b =>
      rw [same, Definition.same_iff, essence, essence, Meaning.definition.injEq]
    | _ => simp [same, essence]
  | character _ a =>
    cases b with
    | character _ b => simp [same, essence]
    | _ => simp [same, essence]
  | _ => cases b <;> simp [same, essence]

theorem sameMeaning_iff (c : Context) (a b : Token) :
    sameMeaning c a b = true ↔ (resolve c a).map Meaning.essence = (resolve c b).map Meaning.essence := by
  unfold sameMeaning
  cases resolve c a with
  | none => cases resolve c b <;> simp
  | some m =>
    cases resolve c b with
    | none => simp
    | some m' => simp [Meaning.same_iff]

/-- **To have the same meaning is an equivalence of tokens** in every context. -/
theorem sameMeaning_equivalence (c : Context) : Equivalence fun a b => sameMeaning c a b = true where
  refl a := (sameMeaning_iff c a a).2 rfl
  symm h := (sameMeaning_iff c _ _).2 ((sameMeaning_iff c _ _).1 h).symm
  trans h h' := (sameMeaning_iff c _ _).2 (((sameMeaning_iff c _ _).1 h).trans ((sameMeaning_iff c _ _).1 h'))

theorem evaluate_sameMeaning {e : Engine} {a b : Token} {rest : Input}
    (hinput : e.input.Delivers e.context.lexicon [a, b] rest) :
    Runs (evaluate · .sameMeaning) e (sameMeaning e.context a b) (e.withInput rest) := by
  obtain ⟨mid, hfirst, last, hsecond, rfl⟩ := hinput
  refine Runs.bind (Runs.lift (next_runs hfirst)) ?_
  exact Runs.bind (Runs.lift (next_runs (e := e.withInput mid) hsecond)) (Runs.of_eq fun _ => rfl)

theorem startConditional_same {e : Engine} {a b : Token} {i rest : Input} (hsame : sameMeaning e.context a b = true)
    (hinput : i.Delivers e.context.lexicon [a, b] rest) (name : String) :
    ∃ k : Conditional, k.evaluating = false ∧ k.value = true ∧
      Runs (startConditional · name .sameMeaning false) (e.withInput i) ()
        (e.reading rest (k :: e.context.conditionals) (e.serial + 1)) := by
  let k : Conditional := { id := e.serial, place := i.locator, name, value := true }
  refine ⟨k, rfl, rfl, ?_⟩
  refine Runs.bind (a := e.serial) (Runs.of_eq fun _ => rfl) (Runs.bind (a := i.locator) (Runs.of_eq fun _ => rfl) ?_)
  have hvalue : Runs (evaluate · .sameMeaning)
      (e.reading i ({ k with value := false, evaluating := true } :: e.context.conditionals) (e.serial + 1)) true
      (e.reading rest ({ k with value := false, evaluating := true } :: e.context.conditionals) (e.serial + 1)) := by
    rw [← hsame]
    exact evaluate_sameMeaning (e := e.reading i _ _) hinput
  exact Runs.bind (decide_runs (k := { k with value := false }) hvalue) (Runs.of_eq fun _ => rfl)

/-! ## Reading a copy -/

/-- Ways to write the token whose meaning is to be copied. -/
inductive CopyText (t : Token) : List Token → Prop where
  /-- The token follows the control sequence. It must not look like the equals sign. -/
  | bare {blanks : List Token} (hblanks : ∀ b ∈ blanks, b.cat = .space) (ht : t.cat ≠ .space) (hsign : t.isOther '=' = false) :
      CopyText t (blanks ++ [t])
  | equals {blanks : List Token} {sign : Token} (hblanks : ∀ b ∈ blanks, b.cat = .space) (hsign : sign.isOther '=' = true)
      (ht : t.cat ≠ .space) : CopyText t (blanks ++ [sign] ++ [t])
  /-- After the equals sign and a space there may be any token, also a space. -/
  | spaced {blanks : List Token} {sign gap : Token} (hblanks : ∀ b ∈ blanks, b.cat = .space)
      (hsign : sign.isOther '=' = true) (hgap : gap.cat = .space) : CopyText t (blanks ++ [sign] ++ [gap, t])

theorem cat_ne_space_of_isOther {t : Token} {c : Char} (h : t.isOther c = true) : t.cat ≠ .space := by
  intro hspace
  simp [Token.isOther, hspace] at h

theorem copiedToken_runs {e : Engine} {t : Token} {written : List Token} {rest : Input} (hwritten : CopyText t written)
    (hinput : e.input.Delivers e.context.lexicon written rest) :
    Runs copiedToken e (some t) (e.withInput rest) := by
  cases hwritten with
  | bare hblanks ht hsign =>
    refine Runs.bind (nonBlankRaw_runs hblanks hinput ht) (Runs.of_eq fun m => ?_)
    simp [hsign]
  | equals hblanks hsign ht =>
    obtain ⟨mid, hread, last, hpull, rfl⟩ := Input.delivers_append.1 hinput
    refine Runs.bind (nonBlankRaw_runs hblanks hread (cat_ne_space_of_isOther hsign)) ?_
    simp only [hsign, Bool.not_true, Bool.false_eq_true, if_false]
    refine Runs.bind (next_runs (e := e.withInput mid) hpull) (Runs.of_eq fun m => ?_)
    simp [ht]
  | spaced hblanks hsign hgap =>
    obtain ⟨mid, hread, input, hpull, last, hpull', rfl⟩ := Input.delivers_append.1 hinput
    refine Runs.bind (nonBlankRaw_runs hblanks hread (cat_ne_space_of_isOther hsign)) ?_
    simp only [hsign, Bool.not_true, Bool.false_eq_true, if_false]
    refine Runs.bind (next_runs (e := e.withInput mid) hpull) ?_
    simp only [hgap, if_true]
    exact next_runs (e := e.withInput input) hpull'

/-- **A copy is read and assigned.** Nothing else changes, and no error is reported. -/
theorem assignMeaning_runs {e : Engine} {target t : Token} {written : List Token} {rest : Input} (globally : Bool)
    (htarget : target.isCode = true) (hwritten : CopyText t written)
    (hinput : e.input.Delivers e.context.lexicon (target :: written) rest) :
    Runs (assignMeaning · globally) e ()
      ((e.withInput rest).modifyContext (·.setMeaning target (some (copiedMeaning e.context t target.name)) globally)) := by
  obtain ⟨mid, hpull, hread⟩ := hinput
  refine Runs.bind (Runs.lift (controlSequence_runs htarget hpull)) ?_
  refine Runs.bind (copiedToken_runs (e := e.withInput mid) hwritten hread) ?_
  exact Runs.of_eq fun _ => rfl

theorem dispatch_assignMeaning {e : Engine} {word target t : Token} {id : Nat} {name : String} {written : List Token}
    {rest : Input} (hword : word.isCode = true)
    (hmeaning : e.context.meaning word = some (.primitive id name (.command .assignMeaning)))
    (hmodifiers : e.modifiers.subset { isGlobal := true } = true) (htarget : target.isCode = true)
    (hwritten : CopyText t written) (hinput : e.input.Delivers e.context.lexicon (target :: written) rest) :
    Runs (dispatch · word) e ()
      (((e.dispatching word).withInput rest).modifyContext
        (·.setMeaning target (some (copiedMeaning e.context t target.name)) e.modifiers.isGlobal)) := by
  have hdispatch : ∀ m, dispatch m word e = assignMeaning m e.modifiers.isGlobal (e.dispatching word) := by
    intro m
    rw [dispatch_of_no_word hword hmeaning nofun]
    simp [executeModified, Command.accepts, hmodifiers, Command.execute]
  obtain ⟨k, hk⟩ := assignMeaning_runs (e := e.dispatching word) e.modifiers.isGlobal htarget hwritten hinput
  exact ⟨k, fun n hn => (hdispatch (machine n)).trans (hk n hn)⟩

/-! ## The copy and the token -/

section Copied

variable (c : Context) {target t : Token} (name : String) (globally : Bool)

theorem resolve_copied_character (ht : t.isCode = false) (htarget : target.isCode = true) :
    resolve (c.setMeaning target (some (copiedMeaning c t name)) globally) target = some (.character name t) := by
  have hcopy : copiedMeaning c t name = .character name t := by simp [copiedMeaning, ht]
  rw [hcopy]
  simp only [resolve, htarget, if_true, Context.meaning_setMeaning]

/-- The token has the meaning of the copy, which may be that it falls back to the copy now, or it has none. -/
theorem meaning_copied (target : Token) (ht : t.isCode = true) :
    let c' := c.setMeaning target (some (copiedMeaning c t name)) globally
    c'.meaning t = c'.meaning target ∨ c'.meaning t = none ∧ c'.meaning target = some (.undefined name) := by
  intro c'
  have hcopied : copiedMeaning c t name = (c.meaning t).getD (.undefined name) := by simp [copiedMeaning, ht]
  have hown : c'.meaning target = some ((c.meaning t).getD (.undefined name)) := by
    rw [← hcopied]
    exact Context.meaning_setMeaning c target _ globally
  rcases c.meaning_setMeaning_cases target t (copiedMeaning c t name) globally with hkept | hcopy
  · rw [show c'.meaning t = c.meaning t from hkept, hown]
    cases c.meaning t with
    | none => exact .inr ⟨rfl, rfl⟩
    | some m => exact .inl rfl
  · exact .inl (hcopy.trans (Context.meaning_setMeaning c target _ globally).symm)

/-- **The copy has the same meaning as the token.** -/
theorem sameMeaning_copied (t : Token) (htarget : target.isCode = true) :
    sameMeaning (c.setMeaning target (some (copiedMeaning c t name)) globally) target t = true := by
  rw [sameMeaning_iff]
  cases ht : t.isCode with
  | false =>
    rw [resolve_copied_character c name globally ht htarget]
    simp [resolve, ht, Meaning.essence]
  | true =>
    rcases meaning_copied c name globally target ht with hsame | ⟨hnone, hcopy⟩
    · simp only [resolve, ht, htarget, if_true, hsame]
    · simp only [resolve, ht, htarget, if_true, hnone, hcopy]

end Copied

/-! ## Later assignments -/

def Deed.Gives (t : Token) : Deed → Prop
  | .operate op => op.assigns (.key (.meaning t))
  | .set k _ _ => k = .meaning t
  | _ => False

namespace Context

variable {c : Context} {s : Slot} {v : s.Value} {depth : Nat} {target : Token}

theorem length_values (c : Context) (s : Slot) : (c.values s).length = c.depth + 1 := by
  rw [← snapshots_depth]
  simp [values, Snapshots.values, Snapshots.depth]

theorem snapshots_afterGroupNotice (c : Context) (label : String) : (c.afterGroupNotice label).snapshots = c.snapshots := by
  unfold afterGroupNotice modifyCurrent
  split
  · simp only [snapshots, snapshot_after, ‹c.inner = []›, innerSnapshots]
  · rename_i g rest hinner
    simp only [snapshots, innerSnapshots, hinner, snapshot_after]

theorem values_setCount (c : Context) (t : Token) (name : String) (n : Int64) (globally : Bool) :
    (c.setCount name n globally).values (.key (.meaning t)) = c.values (.key (.meaning t)) :=
  c.values_assign_of_ne (.key (.count name)) n globally nofun

/-- What a deed does to the meaning of a token which it does not assign: it may open or close a group. -/
theorem values_undergo {s : Slot} (hs : s = .key (.meaning target)) {d : Deed} (hd : ¬ d.Gives target) :
    (c.undergo d).values s = c.values s ∨ (c.undergo d).values s = c.read s :: c.values s ∨
      (c.undergo d).values s = (c.values s).tail := by
  subst hs
  cases d with
  | operate op =>
    cases op with
    | openGroup kind place => exact .inr (.inl (c.values_openGroup kind place _))
    | closeGroup kind =>
      simp only [undergo, apply]
      split
      · exact .inr (.inr (values_closeGroup ‹_› _))
      · exact .inl rfl
    | assign s' w globally => exact .inl (c.values_assign_of_ne s' w globally fun heq => hd heq.symm)
  | set k w globally =>
    have hne : Slot.key (.meaning target) ≠ .key k := fun heq => hd (Slot.key.inj heq).symm
    refine .inl ?_
    rw [values, undergo, snapshots_set, Snapshots.values_assign_of_ne hne, values]
  | afterGroupToken t => exact .inl (values_of_snapshots (c.snapshots_afterGroupToken t) _)
  | afterGroupNotice label => exact .inl (values_of_snapshots (c.snapshots_afterGroupNotice label) _)
  | setMaxMagnification max =>
    refine .inl ?_
    simp only [undergo, setMaxMagnification]
    split <;> rfl
  | setMagnification w lock =>
    refine .inl ?_
    simp only [undergo]
    cases hset : c.setMagnification w lock with
    | ok c' =>
      rw [setMagnification_eq hset]
      rfl
    | error fault => rfl
  | setCalendar m =>
    refine .inl ?_
    simp only [undergo, setCalendar, values_setCount]
  | _ => exact .inl rfl

/-- The group at a depth and all groups in it give a slot the same value. -/
def KeepsFrom (c : Context) (depth : Nat) (s : Slot) (v : s.Value) : Prop :=
  ∃ inside outside, c.values s = inside ++ outside ∧ inside ≠ [] ∧ outside.length = depth ∧ ∀ w ∈ inside, w = v

theorem KeepsFrom.read (h : c.KeepsFrom depth s v) : c.read s = v := by
  obtain ⟨inside, outside, hvalues, hne, -, hinside⟩ := h
  obtain ⟨w, inside, rfl⟩ := List.exists_cons_of_ne_nil hne
  have hhead := c.head?_values s
  rw [hvalues] at hhead
  exact (Option.some.inj hhead).symm.trans (hinside w List.mem_cons_self)

/-- The value of the innermost group is kept by this group. -/
theorem keepsFrom_depth (c : Context) (s : Slot) : c.KeepsFrom c.depth s (c.read s) := by
  have hhead := c.head?_values s
  obtain ⟨outside, hvalues⟩ := List.head?_eq_some_iff.1 hhead
  have hlength := c.length_values s
  rw [hvalues, List.length_cons] at hlength
  exact ⟨[c.read s], outside, hvalues, List.cons_ne_nil _ _, by omega, by simp⟩

/-- **A deed which does not assign the token leaves its meaning**, unless it closes the group. -/
theorem KeepsFrom.undergo {v : Option Meaning} (h : c.KeepsFrom depth (.key (.meaning target)) v) {d : Deed}
    (hd : ¬ d.Gives target) (hdepth : depth ≤ (c.undergo d).depth) :
    (c.undergo d).KeepsFrom depth (.key (.meaning target)) v := by
  have hread := h.read
  have hlength := (c.undergo d).length_values (.key (.meaning target))
  obtain ⟨inside, outside, hvalues, hne, houtside, hinside⟩ := h
  rcases values_undergo (c := c) rfl hd with hsame | hopened | hclosed
  · exact ⟨inside, outside, hsame.trans hvalues, hne, houtside, hinside⟩
  · refine ⟨c.read _ :: inside, outside, ?_, List.cons_ne_nil _ _, houtside, ?_⟩
    · rw [hopened, hvalues, List.cons_append]
    · rintro w (_ | ⟨_, hw⟩)
      · exact hread
      · exact hinside w hw
  · obtain ⟨w, inside, rfl⟩ := List.exists_cons_of_ne_nil hne
    have htail : (c.undergo d).values (.key (.meaning target)) = inside ++ outside := by
      rw [hclosed, hvalues]
      rfl
    refine ⟨inside, outside, htail, ?_, houtside, fun u hu => hinside u (List.mem_cons_of_mem w hu)⟩
    rintro rfl
    rw [htail, List.nil_append] at hlength
    omega

theorem KeepsFrom.undergoAll {v : Option Meaning} (h : c.KeepsFrom depth (.key (.meaning target)) v) {ds : List Deed}
    (hds : ∀ d ∈ ds, ¬ d.Gives target) (hdepth : ∀ before, before <+: ds → depth ≤ (c.undergoAll before).depth) :
    (c.undergoAll ds).KeepsFrom depth (.key (.meaning target)) v := by
  induction ds generalizing c with
  | nil => exact h
  | cons d ds ih =>
    have hfirst : (c.undergo d).KeepsFrom depth (.key (.meaning target)) v :=
      h.undergo (hds d List.mem_cons_self) (hdepth [d] ⟨ds, rfl⟩)
    refine ih hfirst (fun d' hd' => hds d' (List.mem_cons_of_mem d hd')) fun before hbefore => ?_
    exact hdepth (d :: before) (List.cons_prefix_cons.2 ⟨rfl, hbefore⟩)

/-- A meaning which has been assigned is what conditionals find, until it is assigned again. -/
theorem resolve_undergoAll {m : Meaning} {globally : Bool} {ds : List Deed} (hds : ∀ d ∈ ds, ¬ d.Gives target) :
    let c' := c.setMeaning target (some m) globally
    (∀ before, before <+: ds → c'.depth ≤ (c'.undergoAll before).depth) →
      resolve (c'.undergoAll ds) target = resolve c' target := by
  intro c' hdepth
  have hread : c'.read (.key (.meaning target)) = some m := get_set_self (.meaning target) (some m) c globally
  have hkeeps := c'.keepsFrom_depth (.key (.meaning target))
  rw [hread] at hkeeps
  have hlater : (c'.undergoAll ds).get (.meaning target) = some m := (hkeeps.undergoAll hds hdepth).read
  have hmeaning : (c'.undergoAll ds).meaning target = c'.meaning target := by
    rw [meaning, hlater, meaning_setMeaning]
  unfold resolve
  rw [hmeaning]

end Context

/-! ## The main statement -/

/-- **A copy agrees with its model.** In every state, `ifx` compares two tokens without expansion, and this is an
equivalence of tokens. A control sequence or active character gets the meaning of any token as a copy, without an error and
without any other change, locally or globally. Right after that the two have the same meaning, so that `ifx` takes its first
branch, and nothing which happens to the context later changes what conditionals find for the copy, unless it assigns this
token or closes the group in which the copy has been made. -/
theorem copies_agree :
    (∀ (e : Engine) (a b : Token) (rest : Input), e.input.Delivers e.context.lexicon [a, b] rest →
      Runs (evaluate · .sameMeaning) e (sameMeaning e.context a b) (e.withInput rest)) ∧
    (∀ c : Context, Equivalence fun a b => sameMeaning c a b = true) ∧
    ∀ (e : Engine) (word target t : Token) (id : Nat) (name : String) (written : List Token) (rest : Input),
      word.isCode = true → e.context.meaning word = some (.primitive id name (.command .assignMeaning)) →
      e.modifiers.subset { isGlobal := true } = true → target.isCode = true → CopyText t written →
      e.input.Delivers e.context.lexicon (target :: written) rest →
      ∃ e₁, Runs (dispatch · word) e () e₁ ∧ e₁.input = rest ∧
        e₁.context =
          e.context.setMeaning target (some (copiedMeaning e.context t target.name)) e.modifiers.isGlobal ∧
        sameMeaning e₁.context target t = true ∧
        (∀ (i rest' : Input) (ifx : String), i.Delivers e₁.context.lexicon [target, t] rest' →
          ∃ k : Conditional, k.evaluating = false ∧ k.value = true ∧
            Runs (startConditional · ifx .sameMeaning false) (e₁.withInput i) ()
              (e₁.reading rest' (k :: e₁.context.conditionals) (e₁.serial + 1))) ∧
        ∀ ds : List Deed, (∀ d ∈ ds, ¬ d.Gives target) →
          (∀ before, before <+: ds → e₁.context.depth ≤ (e₁.context.undergoAll before).depth) →
          resolve (e₁.context.undergoAll ds) target = resolve e₁.context target := by
  refine ⟨fun e a b rest => evaluate_sameMeaning, sameMeaning_equivalence, ?_⟩
  intro e word target t id name written rest hword hmeaning hmodifiers htarget hwritten hinput
  have hsame := sameMeaning_copied e.context target.name e.modifiers.isGlobal t htarget
  refine ⟨_, dispatch_assignMeaning hword hmeaning hmodifiers htarget hwritten hinput, rfl, rfl, hsame, ?_, ?_⟩
  · intro i rest' ifx hread
    exact startConditional_same hsame hread ifx
  · intro ds hds hdepth
    exact Context.resolve_undergoAll hds hdepth

/-- A control sequence of a name space becomes a copy of the command for copies, and keeps its meaning when this one is
taken away from its own name in a further group. -/
theorem copies_agree_renamed :
    let word := Token.controlSequence "let" ""
    let target := Token.controlSequence "let" "other"
    let copying := Meaning.primitive 1 "let" (.command .assignMeaning)
    let e : Engine :=
      { context := ({} : Context).setMeaning word (some copying) true,
        input := Input.pushTokens [] [target, .other '=', .blank, word] }
    let later : List Deed := [.operate (.openGroup .simple {}), .set (.meaning word) none true]
    ∃ e₁, Runs (dispatch · word) e () e₁ ∧ sameMeaning e₁.context target word = true ∧
      resolve (e₁.context.undergoAll later) target = resolve e₁.context target := by
  intro word target copying e later
  have hinput : e.input.Delivers e.context.lexicon [target, .other '=', .blank, word] [] :=
    Input.delivers_pushTokens [] [target, .other '=', .blank, word]
  have hmeaning : e.context.meaning word = some copying := Context.meaning_setMeaning _ _ _ _
  have hwritten : CopyText word [.other '=', .blank, word] :=
    @CopyText.spaced word [] (.other '=') .blank (by simp) (by decide) rfl
  obtain ⟨e₁, hruns, -, hcontext, hsame, -, hlater⟩ :=
    copies_agree.2.2 e word target word 1 "let" _ [] rfl hmeaning rfl rfl hwritten hinput
  have hspares : ∀ d ∈ later, ¬ d.Gives target := by
    simp [later, Deed.Gives, Operation.assigns, word, target, Token.controlSequence]
  have hdepth : e₁.context.depth = 0 := by
    rw [hcontext]
    rfl
  exact ⟨e₁, hruns, hsame, hlater later hspares fun before _ => hdepth ▸ Nat.zero_le _⟩

end Compositor
