import Compositor.Proofs.Engine.Expanding
import Compositor.Proofs.Token.Braces

/-!
# The conduct of commands

What executes commands takes a course of the steps listed in `WorkStep`. Two arguments are needed beyond that: a box can
be finished because nothing but its end closes the list which was opened for it (`works_boxContents_bind`), and a formula
mark is always a request which the typesetter can fulfil, since reading the second mark leaves the typesetter alone
(`works_mathShift`).
-/

namespace Compositor

open Compositor.Measure

variable {α β : Type} {Q : α → Prop} {strict : Prop} {level : Level} {m : Machine} (hm : m.Sound)

include hm

/-! ## Changes -/

omit hm in
theorem Course.of_work {e e' : Engine} (h : WorkStep strict e e') : Course strict .working none e e' :=
  .work rfl (.refl e) h

omit hm in
theorem works_modify {f : Engine → Engine} (hf : ∀ e, WorkStep strict e (f e)) :
    Meets (.command strict) (modify f : Proc β PUnit) fun _ => True :=
  .modify fun e _ => .of_work (hf e)

omit hm in
theorem works_set {k : Key} {v : k.Value} (hk : k.isPlain = true) (hv : strict → k.Proper v) (globally : Bool) :
    Meets (.command strict) (modifyContext (·.set k v globally) : Action Unit) fun _ => True :=
  works_modify fun _ => .assign hk hv globally

omit hm in
theorem works_setCount {name : String} (h : strict → name ≠ "mag") (v : Int64) (globally : Bool) :
    Meets (.command strict) (modifyContext (·.setCount name v globally) : Action Unit) fun _ => True :=
  works_modify fun _ => .setCount h v globally

omit hm in
/-- A meaning without a number may be assigned in every state. -/
theorem works_setMeaning (t : Token) {meaning : Meaning} (h : strict → meaning.Proper) (hnumber : meaning.number? = none)
    (globally : Bool) :
    Meets (.command strict) (modifyContext (·.setMeaning t (some meaning) globally) : Action Unit) fun _ => True :=
  works_modify fun _ => .setMeaning t h globally (.unnumbered hnumber)

omit hm in
theorem worksAt_setMeaning {e : Engine} (t : Token) {meaning : Meaning} (h : strict → meaning.Proper)
    (harises : meaning.Arises e) (globally : Bool) :
    MeetsAt (.command strict) (modifyContext (·.setMeaning t (some meaning) globally) : Action Unit) (fun _ => True) e :=
  .of_ok rfl (.of_work (.setMeaning t h globally harises)) trivial

omit hm in
theorem works_typesetter {f : Typesetter → Typesetter} (hf : ∀ t, TypesetterStep t (f t)) :
    Meets (.command strict) (modifyTypesetter f : Action Unit) fun _ => True :=
  works_modify fun e => .typesetter (hf e.typesetter)

/-! ## Definitions -/

omit hm in
theorem parameterNumber?_eq_some {t : Token} {n : Nat} (h : parameterNumber? t = some n) :
    t.cat = .other ∧ 1 ≤ n ∧ n ≤ 9 := by
  unfold parameterNumber? at h
  split at h
  · rename_i hdigit
    simp only [Bool.and_eq_true, decide_eq_true_eq] at hdigit
    have hlow : '1'.toNat ≤ t.char.toNat := UInt32.le_iff_toNat_le.1 hdigit.1.2
    have hhigh : t.char.toNat ≤ '9'.toNat := UInt32.le_iff_toNat_le.1 hdigit.2
    obtain rfl := Option.some.inj h
    exact ⟨hdigit.1.1, Nat.le_sub_of_add_le hlow, Nat.sub_le_of_le_add hhigh⟩
  · cases h

/-- There is a number for each of the parameters, and the tokens around them can be matched. -/
structure ParameterText.WellFormed (p : ParameterText) : Prop where
  arity_le : p.arity ≤ 9
  arePlain : ∀ ts ∈ p.opening :: p.delimiters, ∀ t ∈ ts, t.IsPlain

namespace ParameterText.WellFormed

variable {p : ParameterText}

omit hm in
theorem nil : WellFormed {} := ⟨Nat.zero_le 9, by simp⟩

omit hm in
theorem push (h : p.WellFormed) {t : Token} (ht : t.IsPlain) : (p.push t).WellFormed := by
  have hplain : ∀ {ts : List Token}, (∀ u ∈ ts, u.IsPlain) → ∀ u ∈ ts ++ [t], u.IsPlain := by
    intro ts hts u hu
    rcases List.mem_append.1 hu with hu | hu
    · exact hts u hu
    · exact List.mem_singleton.1 hu ▸ ht
  obtain ⟨hopening, hdelimiters⟩ := List.forall_mem_cons.1 h.arePlain
  unfold ParameterText.push
  cases hlast : p.delimiters.getLast? with
  | none => exact ⟨h.arity_le, List.forall_mem_cons.2 ⟨hplain hopening, hdelimiters⟩⟩
  | some last =>
    obtain ⟨init, hinit⟩ := List.getLast?_eq_some_iff.1 hlast
    have harity := h.arity_le
    rw [arity, hinit] at harity
    rw [hinit] at hdelimiters
    refine ⟨by simpa [arity, hinit] using harity, List.forall_mem_cons.2 ⟨hopening, fun ts hts => ?_⟩⟩
    rw [hinit, List.dropLast_concat] at hts
    rcases List.mem_append.1 hts with hts | hts
    · exact hdelimiters ts (List.mem_append_left _ hts)
    · rw [List.mem_singleton.1 hts]
      exact hplain (hdelimiters last (by simp))

omit hm in
theorem pushParameter (h : p.WellFormed) {x : Option Token} (hx : x.bind parameterNumber? = some (p.arity + 1)) :
    p.pushParameter.WellFormed := by
  obtain ⟨t, -, hnumber⟩ := Option.bind_eq_some_iff.1 hx
  have harity : (p.delimiters ++ [[]]).length = p.arity + 1 := by simp [arity]
  refine ⟨harity.trans_le (parameterNumber?_eq_some hnumber).2.2, ?_⟩
  obtain ⟨hopening, hdelimiters⟩ := List.forall_mem_cons.1 h.arePlain
  refine List.forall_mem_cons.2 ⟨hopening, fun ts hts => ?_⟩
  rcases List.mem_append.1 hts with hts | hts
  · exact hdelimiters ts hts
  · simp [List.mem_singleton.1 hts]

end ParameterText.WellFormed

omit hm in
/-- A replacement text has only tokens which were there before, and references to parameters which there are. -/
theorem mem_parseBody {arity : Nat} {text : List Token} {item : BodyItem} (h : some item ∈ parseBody arity text) :
    (∃ t ∈ text, item = .token t) ∨ ∃ n, item = .argument n ∧ 1 ≤ n ∧ n ≤ arity := by
  have hrest : ∀ {us vs : List Token}, us ⊆ vs →
      (∃ t ∈ us, item = .token t) ∨ (∃ n, item = .argument n ∧ 1 ≤ n ∧ n ≤ arity) →
      (∃ t ∈ vs, item = .token t) ∨ ∃ n, item = .argument n ∧ 1 ≤ n ∧ n ≤ arity :=
    fun hsub => Or.imp_left fun ⟨t, ht, hitem⟩ => ⟨t, hsub ht, hitem⟩
  fun_induction parseBody arity text with
  | case1 => cases h
  | case2 u =>
    cases List.mem_singleton.1 h
    exact .inl ⟨u, List.mem_singleton_self u, rfl⟩
  | case3 u next rest _ ih =>
    rcases List.mem_cons.1 h with heq | h
    · cases heq
      exact .inl ⟨u, List.mem_cons_self, rfl⟩
    · exact hrest (List.subset_cons_self u _) (ih h)
  | case4 u next rest _ _ ih =>
    rcases List.mem_cons.1 h with heq | h
    · cases heq
      exact .inl ⟨next, by simp, rfl⟩
    · exact hrest (fun t ht => by simp [ht]) (ih h)
  | case5 u next rest _ _ n hnumber hn ih =>
    rcases List.mem_cons.1 h with heq | h
    · cases heq
      exact .inr ⟨n, rfl, (parameterNumber?_eq_some hnumber).2.1, hn⟩
    · exact hrest (fun t ht => by simp [ht]) (ih h)
  | case6 u next rest _ _ n _ _ ih | case7 u next rest _ _ _ ih =>
    rcases List.mem_cons.1 h with heq | h
    · cases heq
    · exact hrest (List.subset_cons_self u _) (ih h)

/-- The items which are delivered are those which there are. -/
theorem meets_presentItems (items : List (Option BodyItem)) :
    Meets ⟨strict, level, False⟩ (presentItems m items) fun body => body = items.filterMap id := by
  induction items with
  | nil => exact .pure rfl
  | cons item rest ih =>
    cases item with
    | none => exact (meets_reportHere hm _ (by simp)).bind fun _ _ => ih
    | some item => exact ih.bind fun body hbody => .pure (by rw [hbody]; rfl)

/-- A parameter text is read without changing anything but the input. -/
theorem meets_parameterText : Meets ⟨strict, level, False⟩ (parameterText m) ParameterText.WellFormed := by
  refine .iterate (I := ParameterText.WellFormed) (fun p hp => ?_) m.fuel .nil
  refine hm.next.bind fun x hx => ?_
  cases x with
  | none => exact meets_complain _ (by simp)
  | some t =>
    have ht := hx t rfl
    dsimp only
    split
    · exact (meets_pushBack ht).bind fun _ _ => .pure hp
    · exact (meets_pushBack ht).bind fun _ _ => meets_complain _ (by simp)
    · have hmisplaced : Meets ⟨strict, level, False⟩ (do
          reportParameterCharacter m
          return .again p : Action (Turn ParameterText ParameterText))
          (Turn.Keeps ParameterText.WellFormed ParameterText.WellFormed) :=
        (meets_reportHere hm _ (by simp)).bind fun _ _ => .pure hp
      refine hm.next.bind fun x hx => .ite (fun hnumber => .pure (hp.pushParameter hnumber)) (fun _ => ?_)
      cases x with
      | none => exact hmisplaced
      | some u => exact (meets_pushBack (hx u rfl)).bind fun _ _ => hmisplaced
    · exact .pure (hp.push ⟨⟨‹_›, ‹_›⟩, ‹_›⟩)

theorem works_define (modifiers : Modifiers) (globally expanded : Bool) :
    Meets (.command strict) (define m modifiers globally expanded) fun _ => True := by
  refine (meets_controlSequence hm).lift.bind fun target _ => (meets_parameterText hm).bind fun p _ => ?_
  refine (meets_balancedText hm expanded).lift.bind fun text htext => ?_
  refine (meets_presentItems hm (parseBody p.arity text)).bind fun body hbody => works_setMeaning target ?_ rfl _
  intro hs t ht
  rw [hbody, List.mem_filterMap] at ht
  obtain ⟨_, hitem, rfl⟩ := ht
  rcases mem_parseBody hitem with ⟨u, hu, heq⟩ | ⟨n, heq, -⟩
  · cases heq
    exact htext t hu hs
  · cases heq

theorem meets_copiedToken :
    Meets ⟨strict, level, False⟩ (copiedToken m) fun x => ∀ t ∈ x, Regime.Admits ⟨strict, level, False⟩ t := by
  refine (meets_nonBlankRaw hm).bind fun x hx => ?_
  cases x with
  | none => exact .pure hx
  | some t =>
    refine .ite (fun _ => .pure hx) (fun _ => hm.next.bind fun x hx => ?_)
    cases x with
    | none => exact .pure hx
    | some t => exact .ite (fun _ => hm.next) (fun _ => .pure hx)

omit hm in
theorem proper_copiedMeaning {c : Context} (hc : c.Proper) {t : Token} (ht : t.Proper) (name : String) :
    (copiedMeaning c t name).Proper := by
  unfold copiedMeaning
  split
  · cases hmeaning : c.meaning t with
    | none => exact trivial
    | some meaning => exact hc.meaning t meaning hmeaning
  · exact ht

omit hm in
theorem arises_copiedMeaning {e : Engine} (t : Token) (name : String) : (copiedMeaning e.context t name).Arises e := by
  unfold copiedMeaning
  split
  · cases hmeaning : e.context.meaning t with
    | none => exact .unnumbered rfl
    | some meaning => exact .copied hmeaning
  · exact .unnumbered rfl

theorem works_assignMeaning (globally : Bool) : Meets (.command strict) (assignMeaning m globally) fun _ => True := by
  refine (meets_controlSequence hm).lift.bind fun target _ => (meets_copiedToken hm).bind fun x hx => ?_
  cases x with
  | none => exact meets_complain _ (by simp)
  | some t =>
    refine .context_bind fun e he => worksAt_setMeaning target (fun hs => ?_) (arises_copiedMeaning t target.name) globally
    exact proper_copiedMeaning (he hs).context (hx t rfl hs) target.name

/-! ## Registers -/

theorem meets_tokenList :
    Meets ⟨strict, level, False⟩ (tokenList m) fun ts => ∀ t ∈ ts, Regime.Admits ⟨strict, level, False⟩ t := by
  refine (meets_nonBlank hm).lift.bind fun x hx => ?_
  cases x with
  | none => exact .pure (by simp)
  | some t =>
    refine (meets_quantity? hm t).bind fun q hq => ?_
    split
    · exact Meets.lift (hq _ rfl)
    · exact (meets_pushBack (hx t rfl)).bind fun _ _ => (meets_balancedText hm false).lift

theorem works_assignRegister {name : String} {kind : RegisterKind} {fixed : Option String}
    (h : strict → (Command.register kind fixed).Proper name) (globally : Bool) :
    Meets (.command strict) (assignRegister m kind fixed globally) fun _ => True := by
  refine (meets_locate hm fixed).lift.bind fun name hname => (meets_optionalEquals hm).bind fun _ _ => ?_
  cases kind with
  | count => exact hm.number.lift.bind fun n _ => works_setCount (fun hs => hname (h hs)) n globally
  | dimen => exact (meets_dimension hm).lift.bind fun d _ => works_set (k := .dimen name) rfl (fun _ => trivial) globally
  | glue => exact (meets_glueSpec hm).lift.bind fun g _ => works_set (k := .glue name) rfl (fun _ => trivial) globally
  | toks =>
    exact (meets_tokenList hm).bind fun ts hts => works_set (k := .toks name) rfl (fun hs t ht => hts t ht hs) globally

theorem works_defineRegister (kind : RegisterKind) (globally : Bool) :
    Meets (.command strict) (defineRegister m kind globally) fun _ => True := by
  refine (meets_controlSequence hm).lift.bind fun target _ => (meets_optionalEquals hm).bind fun _ _ => ?_
  refine (meets_registerName hm).lift.bind fun name hname e _ => ?_
  have hproper : (Meaning.primitive e.serial target.name (.command (.register kind (some name)))).Proper := by
    cases kind with
    | count => exact fun h => hname (Option.some.inj h)
    | dimen | glue | toks => trivial
  let e₁ : Engine := { e with serial := e.serial + 1 }
  have hid : e.serial < e₁.serial := Nat.lt_succ_self _
  have hassign := worksAt_setMeaning target (fun _ : strict => hproper) (.register hid target.name kind (some name)) globally
  exact hassign.after (.of_scan .freshId) rfl

theorem works_assignMagnification {name : String} (hname : strict → name = "mag") (globally : Bool) :
    Meets (.command strict) (assignMagnification m name globally) fun _ => True := by
  refine (meets_optionalEquals hm).bind fun _ _ => hm.number.lift.bind fun n _ e he => ?_
  cases hset : e.context.setMagnification n false with
  | ok c =>
    refine .of_ok (a := ()) ?_ (.of_work (.setMagnification hset hname globally)) trivial
    simp only [Proc.context_bind, hset]
    rfl
  | error fault =>
    refine (meets_reportMagnification hm fault n e he).congr ?_
    simp only [Proc.context_bind, hset]

theorem meets_dimenResult (op : ArithmeticOp) (d : Dimen) : Meets ⟨strict, level, False⟩ (dimenResult m op d) fun _ => True := by
  cases op with
  | advance => exact (meets_dimension hm).lift.bind fun _ _ => .pure trivial
  | multiply | divide => exact hm.number.lift.bind fun _ _ => .pure trivial

theorem meets_glueResult (op : ArithmeticOp) (g : Glue) : Meets ⟨strict, level, False⟩ (glueResult m op g) fun _ => True := by
  cases op with
  | advance => exact (meets_glueSpec hm).lift.bind fun _ _ => .pure trivial
  | multiply | divide => exact hm.number.lift.bind fun _ _ => .pure trivial

omit hm in
theorem count_of_registerOf? {x : Option Meaning} {fixed : Option String} (h : registerOf? x = some (.count, fixed))
    (hx : ∀ meaning ∈ x, meaning.Proper) : fixed ≠ some "mag" := by
  unfold registerOf? at h
  split at h
  · cases h
    exact hx _ rfl
  · cases h

theorem works_arithmetic (op : ArithmeticOp) (command : String) (globally : Bool) :
    Meets (.command strict) (arithmetic m op command globally) fun _ => True := by
  refine (meets_nonBlank hm).lift.bind fun x hx => ?_
  cases x with
  | none => exact .pure trivial
  | some t =>
    refine (meets_meaningOf t).bind fun meaning hmeaning => ?_
    cases hregister : registerOf? meaning with
    | none => exact (meets_pushBack (hx t rfl)).bind fun _ _ => meets_complain _ (by simp)
    | some register =>
      obtain ⟨kind, fixed⟩ := register
      refine (meets_locate hm fixed).lift.bind fun name hname => (meets_keyword hm "by").lift.discard.bind fun _ _ => ?_
      refine (meets_diagnosticHere .arithmeticOverflow []).bind fun overflow hoverflow => ?_
      refine meets_context.bind fun c _ => ?_
      have hstop : Meets (.command strict) (stopWith overflow : Action Unit) fun _ => True :=
        meets_stopWith (by simp [hoverflow])
      cases kind with
      | count =>
        refine hm.number.lift.bind fun n _ => ?_
        have hfixed : strict → fixed ≠ some "mag" :=
          fun hs => count_of_registerOf? hregister fun meaning h => hmeaning meaning h hs
        cases op.apply maxInteger (c.count name) n with
        | none => exact hstop
        | some v => exact works_setCount (fun hs => hname (hfixed hs)) v globally
      | dimen =>
        refine (meets_dimenResult hm op _).bind fun d _ => ?_
        cases d with
        | none => exact hstop
        | some d => exact works_set (k := .dimen name) rfl (fun _ => trivial) globally
      | glue =>
        refine (meets_glueResult hm op _).bind fun g _ => ?_
        cases g with
        | none => exact hstop
        | some g => exact works_set (k := .glue name) rfl (fun _ => trivial) globally
      | toks => exact meets_complain _ (by simp)

theorem works_assignCharCode (table : CharTable) (globally : Bool) :
    Meets (.command strict) (assignCharCode m table globally) fun _ => True := by
  refine (meets_charCodePoint hm).bind fun code _ => (meets_optionalEquals hm).bind fun _ _ => ?_
  refine hm.number.lift.bind fun v _ => .ite (fun _ => meets_complain_bind _ (by simp)) (fun hrange => ?_)
  cases table with
  | categories =>
    refine works_set (k := .catcode code) rfl (fun _ => Catcode.isValid_ofCode ?_) globally
    have hle : v ≤ 15 := Int64.not_lt.1 fun h => hrange (.inr h)
    have hint : v.toInt ≤ 15 := Int64.le_iff_toInt_le.1 hle
    omega
  | codes table => exact works_set (k := .charcode table code) rfl (fun _ => trivial) globally

/-! ## Groups -/

omit hm in
theorem works_openGroup (kind : GroupKind) : Meets (.command strict) (openGroup kind) fun _ => True :=
  meets_locator.bind fun place _ => works_modify fun _ => .openGroup kind place

omit hm in
theorem groupProblem_stops (kind : GroupKind) (fault : GroupFault) :
    (Regime.command strict).Stops (groupProblem kind fault).1 := by
  cases kind <;> cases fault <;> simp [groupProblem]

omit hm in
/-- The tokens deferred to the end of a group are proper. -/
theorem works_closeGroup (kind : GroupKind) : Meets (.command strict) (closeGroup kind) fun _ => True := by
  refine .context_bind fun e he => ?_
  cases hclose : e.context.closeGroup kind with
  | ok closed =>
    obtain ⟨ts, c⟩ := closed
    have hstep : Course strict .working none e (e.leaveGroup c) := .of_work (.closeGroup hclose)
    have hdeferred : ∀ t ∈ ts, (Regime.command strict).Admits t :=
      fun t ht hs => ((he hs).context.closeGroup hclose).2 t ht
    have hpush : Meets (.command strict) (pushTokens ts : Action Unit) fun _ => True := meets_pushTokens hdeferred
    exact (hpush _ (hstep.proper_of he)).after hstep rfl
  | error fault => exact meets_complain _ (groupProblem_stops kind fault) e he

omit hm in
theorem works_closeGroups (n : Nat) : Meets (.command strict) (closeGroups n) fun _ => True := by
  induction n with
  | zero => exact .pure trivial
  | succ n ih => exact meets_context.bind fun c _ => (works_closeGroup c.current.kind).bind fun _ _ => ih

omit hm in
theorem executeGroup_of_open {e : Engine} (hdepth : 0 < e.context.depth) :
    executeGroup m e = (do
      if ← m.execute e.context.depth then
        closeGroups ((← context).depth + 1 - e.context.depth)
        reportHere m .missingToken ["\x7d"] : Action Unit) (e.record (.groupExecuted e.context.depth)) := by
  have hne : ¬ e.context.depth = 0 := by omega
  simp only [executeGroup, Proc.context_bind, if_neg hne]
  rfl

theorem worksAt_executeGroup {e : Engine} (he : strict → e.Proper) (hdepth : 0 < e.context.depth) :
    MeetsAt (.command strict) (executeGroup m) (fun _ => True) e := by
  have hexecute : Meets (.command strict) (do
      if ← m.execute e.context.depth then
        closeGroups ((← context).depth + 1 - e.context.depth)
        reportHere m .missingToken ["\x7d"] : Action Unit) fun _ => True := by
    refine (hm.execute rfl _).bind fun ended _ => .ite (fun _ => ?_) (fun _ => .pure trivial)
    refine meets_context.bind fun c _ => (works_closeGroups _).bind fun _ _ => ?_
    exact meets_reportHere hm _ (by simp)
  have hrecord : Course strict .working none e (e.record (.groupExecuted e.context.depth)) :=
    .of_work (.executeGroup hdepth)
  exact (hexecute _ fun hs => hrecord.proper hs (he hs)).after hrecord (executeGroup_of_open hdepth)

/-! ## Boxes -/

theorem works_takeBox (keeps : Bool) : Meets (.command strict) (takeBox m keeps) fun _ => True := by
  refine (meets_registerName hm).lift.bind fun name _ => meets_context.bind fun c _ => ?_
  exact (works_modify fun _ => .deliverBox name keeps).bind fun _ _ => .pure trivial

omit hm in
theorem contentsMode_isBox (kind : BoxKind) : (contentsMode kind).isBox = true := by cases kind <;> rfl

/-- The contents of a box: the list which is opened for them is there when they end, whatever is executed in between. -/
theorem works_boxContents_bind (kind : BoxKind) {f : List Node → Action α}
    (hf : ∀ nodes, Meets (.command strict) (f nodes) Q) :
    Meets (.command strict) (do
      openGroup .simple
      modifyTypesetter (·.openList (contentsMode kind))
      executeGroup m
      f (← closeList)) Q := by
  intro e he
  let e₁ := e.enterGroup .simple e.locator
  let e₂ := e₁.modifyTypesetter (·.openList (contentsMode kind))
  have hopened : Course strict .working none e e₁ := .of_work (.openGroup .simple e.locator)
  have hlist : Course strict .working none e e₂ :=
    .work rfl hopened (.typesetter (.openList (contentsMode_isBox kind)))
  have hdepth : 0 < e₂.context.depth := Nat.succ_pos e.context.depth
  have hgroup : MeetsAt (.command strict) (executeGroup m) (fun _ => True) e₂ :=
    worksAt_executeGroup hm (fun hs => hlist.proper hs (he hs)) hdepth
  cases hexecuted : executeGroup m e₂ with
  | error i e₃ =>
    -- the list stays open: a later end of a box closes it in place of its own
    obtain ⟨hinner, hi⟩ := hgroup.error hexecuted
    exact .of_error (Proc.bind_error (x := executeGroup m) hexecuted) (hlist.trans hinner) hi
  | ok u e₃ =>
    have hinner := (hgroup.ok hexecuted).1
    obtain ⟨nodes, t, hclose⟩ := hinner.closeList_ok (contentsMode_isBox kind)
    have hclosed : closeList e₃ = .ok nodes (({ e₃ with typesetter := t } : Engine).record (.listClosed none)) := by
      simp only [closeList, Proc.get_bind, hclose]
      rfl
    have hbox : Course strict .working none e (({ e₃ with typesetter := t } : Engine).record (.listClosed none)) :=
      .work rfl (.box rfl hopened (contentsMode_isBox kind) hinner hclose) .closed
    refine (hf nodes _ fun hs => hbox.proper hs (he hs)).after hbox ?_
    exact (Proc.bind_ok (x := executeGroup m) hexecuted).trans (Proc.bind_ok hclosed)

theorem works_makeBox (kind : BoxKind) : Meets (.command strict) (makeBox m kind) fun _ => True := by
  refine (meets_keyword hm "to").lift.bind fun found _ => .ite (fun _ => ?_) (fun _ => ?_)
  · refine ((meets_dimension hm).lift.map some).bind fun width _ => (meets_openingBrace hm).bind fun _ _ => ?_
    exact works_boxContents_bind hm kind fun nodes => .pure trivial
  · refine (meets_openingBrace hm).bind fun _ _ => ?_
    exact works_boxContents_bind hm kind fun nodes => .pure trivial

theorem works_produceBox (source : BoxSource) : Meets (.command strict) (produceBox m source) fun _ => True := by
  cases source with
  | register keeps => exact works_takeBox hm keeps
  | group kind => exact (works_makeBox hm kind).map some

theorem works_assignBox (globally : Bool) : Meets (.command strict) (assignBox m globally) fun _ => True := by
  refine (meets_registerName hm).lift.bind fun name _ => (meets_optionalEquals hm).bind fun _ _ => ?_
  refine (meets_nonBlank hm).lift.bind fun x hx => ?_
  cases x with
  | none => exact .pure trivial
  | some t =>
    refine (meets_meaningOf t).bind fun meaning _ => ?_
    cases BoxSource.ofMeaning? meaning with
    | none => exact (meets_pushBack (hx t rfl)).bind fun _ _ => meets_complain _ (by simp)
    | some source =>
      exact (works_produceBox hm source).bind fun box _ => works_modify fun _ => .storeBox name box globally

/-! ## Commands -/

omit hm in
theorem works_pushFile (name : String) : Meets (.command strict) (pushFile name) fun _ => True := by
  refine meets_get.bind fun e _ => .ite (fun _ => meets_complain_bind _ (by simp)) (fun _ => ?_)
  cases e.files.find? name with
  | some file => exact works_modify fun _ => .pushText file.2 file.1
  | none => exact (meets_diagnosticHere _ _).bind fun d hd => meets_stopWith (by simp [hd])

omit hm in
theorem works_setStyle (f : Context → Style) (globally : Bool) :
    Meets (.command strict) (modifyContext fun c => c.setStyle (f c) globally : Action Unit) fun _ => True :=
  works_modify fun _ => .setStyle _ globally

omit hm in
theorem works_endDirection (command : String) (direction : Direction) :
    Meets (.command strict) (endDirection command direction) fun _ => True := by
  refine meets_context.bind fun c _ => ?_
  cases c.directions with
  | nil => exact meets_complain _ (by simp)
  | cons d outer =>
    refine .ite (fun _ => meets_complain_bind _ (by simp)) (fun _ => ?_)
    exact (works_modify fun _ => .popDirection).bind fun _ _ => works_setStyle _ false

theorem meets_fontSize : Meets ⟨strict, level, False⟩ (fontSize m) fun _ => True := by
  refine (meets_keyword hm "at").lift.bind fun found _ => .ite (fun _ => (meets_dimension hm).lift) (fun _ => ?_)
  refine (meets_keyword hm "scaled").lift.bind fun found _ => .ite (fun _ => ?_) (fun _ => .pure trivial)
  exact hm.number.lift.bind fun n _ => .pure trivial

theorem works_loadFont (globally : Bool) : Meets (.command strict) (loadFont m globally) fun _ => True := by
  refine (meets_controlSequence hm).lift.bind fun target _ => (meets_optionalEquals hm).bind fun _ _ => ?_
  refine (meets_fileName hm).lift.bind fun name _ => (meets_fontSize hm).bind fun size _ => meets_get.bind fun e _ => ?_
  dsimp only
  refine (works_modify fun _ => .keepFont target name _ _ globally).bind fun _ _ => ?_
  cases (e.fonts.request name size).1.fault with
  | none => exact .pure trivial
  | some fault => exact (meets_diagnosticHere _ _).bind fun d hd => meets_stopWith (by simp [hd])

theorem works_addGlue (vertical : Bool) : Meets (.command strict) (addGlue m vertical) fun _ => True := by
  have hglue : ∀ g, Meets (.command strict) (modifyTypesetter (·.addGlue g) : Action Unit) fun _ => True :=
    fun g => works_typesetter fun t => .addGlue g
  refine (meets_glueSpec hm).lift.bind fun g _ => meets_get.bind fun e _ => .ite (fun _ => ?_) (fun _ => hglue g)
  exact (works_typesetter fun t => .par).bind fun _ _ => hglue g

theorem works_setCharacter : Meets (.command strict) (setCharacter m) fun _ => True := by
  refine hm.number.lift.bind fun n _ => .ite (fun _ => meets_complain_bind _ (by simp)) (fun _ => ?_)
  exact meets_context.bind fun c _ => works_typesetter fun t => .add _ _

theorem works_readFile : Meets (.command strict) (readFile m) fun _ => True := by
  refine (meets_fileName hm).lift.bind fun name _ => ?_
  exact .ite (fun _ => meets_complain_bind _ (by simp)) (fun _ => works_pushFile name)

omit hm in
theorem admits_changeCase (c : Context) (table : CodeTable) {ts : List Token}
    (h : ∀ t ∈ ts, (Regime.command strict).Admits t) :
    ∀ t ∈ changeCase c table ts, (Regime.command strict).Admits t := by
  intro t ht hs
  obtain ⟨u, hu, rfl⟩ := List.mem_map.1 ht
  have hproper := h u hu hs
  split
  · exact hproper
  · dsimp only
    split
    · exact hproper
    · exact Token.proper_character hproper _

theorem works_execute {name : String} {c : Command} (hc : strict → c.Proper name) (modifiers : Modifiers) :
    Meets (.command strict) (c.execute m name modifiers) fun _ => True := by
  cases c with
  | define globally expanded => exact works_define hm modifiers globally expanded
  | assignMeaning => exact works_assignMeaning hm modifiers.isGlobal
  | register kind fixed => exact works_assignRegister hm hc modifiers.isGlobal
  | defineRegister kind => exact works_defineRegister hm kind modifiers.isGlobal
  | magnification => exact works_assignMagnification hm hc modifiers.isGlobal
  | arithmetic op => exact works_arithmetic hm op name modifiers.isGlobal
  | boxRegister keeps =>
    refine (works_takeBox hm keeps).bind fun box _ => ?_
    cases box with
    | none => exact .pure trivial
    | some box => exact works_typesetter fun t => .addBox (some box)
  | setBox => exact works_assignBox hm modifiers.isGlobal
  | makeBox kind => exact (works_makeBox hm kind).bind fun box _ => works_typesetter fun t => .addBox (some box)
  | charCode table => exact works_assignCharCode hm table modifiers.isGlobal
  | changeCase table =>
    refine (meets_balancedText hm false).lift.bind fun text htext => meets_context.bind fun c _ => ?_
    exact meets_pushTokens (admits_changeCase c table htext)
  | endName => exact meets_complain _ (by simp)
  | beginGroup => exact works_openGroup .semiSimple
  | endGroup => exact works_closeGroup .semiSimple
  | afterGroup =>
    refine hm.next.bind fun x hx => ?_
    cases x with
    | none => exact .pure trivial
    | some t => exact works_modify fun _ => .afterGroupToken (hx t rfl)
  | relax => exact .pure trivial
  | stop => exact (works_typesetter fun t => .par).bind fun _ _ => works_modify fun _ => .halt
  | par => exact works_typesetter fun t => .par
  | kern => exact (meets_dimension hm).lift.bind fun d _ => works_typesetter fun t => .addKern d
  | skip vertical => exact works_addGlue hm vertical
  | penalty => exact hm.number.lift.bind fun cost _ => works_typesetter fun t => .addPenalty cost
  | char => exact works_setCharacter hm
  | loadFont => exact works_loadFont hm modifiers.isGlobal
  | selectFont font => exact meets_context.bind fun c _ => works_setStyle _ modifiers.isGlobal
  | nullFont => exact works_setStyle _ modifiers.isGlobal
  | beginDirection direction =>
    exact (works_modify fun _ => .pushDirection direction).bind fun _ _ => works_setStyle _ false
  | endDirection direction => exact works_endDirection name direction
  | setInteraction mode => exact works_modify fun _ => .setInteraction mode
  | message =>
    refine (meets_balancedText hm true).lift.bind fun text _ => ?_
    exact .modify fun e _ => .say (.refl e) (.inl rfl) _
  | setSpace =>
    refine (meets_balancedText hm true).lift.bind fun text _ => ?_
    exact works_modify fun _ => .setSpace _ modifiers.isGlobal
  | ignoreSpaces =>
    refine (meets_nonBlank hm).lift.bind fun x hx => ?_
    cases x with
    | none => exact .pure trivial
    | some t => exact meets_pushBack (hx t rfl)
  | input => exact works_readFile hm

/-! ## Execution -/

omit hm in
theorem works_complainUndefined (t : Token) : Meets (.command strict) (complainUndefined t) fun _ => True :=
  (meets_diagnosticHere _ _).bind fun d hd => meets_get.bind fun e _ => meets_stopWith (by simp [hd])

omit hm in
theorem works_setLetter (t : Token) : Meets (.command strict) (setLetter t) fun _ => True := by
  refine meets_context.bind fun c _ => (works_typesetter fun t => .add _ _).bind fun _ _ => ?_
  exact .ite (fun _ => works_modify fun _ => .spaceFactor _) (fun _ => .pure trivial)

omit hm in
theorem worksAt_requestMath {e : Engine} {display : Bool}
    (h : e.typesetter.mode.isMath = true → e.typesetter.mode = if display then .displayMath else .math) :
    MeetsAt (.command strict) (requestMath display) (· = none) e := by
  obtain ⟨t, ht⟩ : ∃ t, e.typesetter.toggleMath display = (none, t) := ⟨_, Prod.ext (Typesetter.toggleMath_ok h) rfl⟩
  have hstep : Course strict .working none e (({ e with typesetter := t } : Engine).record (.mathToggled none)) :=
    .work rfl (.of_work (.typesetter (.toggleMath ht))) .toggled
  refine .of_ok ?_ hstep rfl
  simp only [requestMath, Proc.get_bind, ht]
  rfl

omit hm in
theorem worksAt_toggleMath {e : Engine} (he : strict → e.Proper) {display : Bool}
    (h : e.typesetter.mode.isMath = true → e.typesetter.mode = if display then .displayMath else .math) :
    MeetsAt (.command strict) (toggleMath display) (fun _ => True) e := by
  refine MeetsAt.bind (S := .command strict) (worksAt_requestMath h) id id fun fault e' hcourse hfault => ?_
  subst hfault
  exact Meets.pure trivial e' fun hs => hcourse.proper hs (he hs)

theorem meets_secondMathShift {R : Regime} : Meets R (secondMathShift m) fun _ => True := by
  refine hm.nextExpanded.lift.bind fun x hx => ?_
  cases x with
  | none => exact .pure trivial
  | some t => exact .ite (fun _ => .pure trivial) (fun _ => (meets_pushBack (hx t rfl)).bind fun _ _ => .pure trivial)

/-- The second mark of a formula is read without touching the typesetter, so the mode is still the one that was asked
for. -/
theorem works_mathShift : Meets (.command strict) (mathShift m) fun _ => True := by
  refine .get_bind fun e he => ?_
  have hsecond : MeetsAt (Regime.scanning (.command strict)) (secondMathShift m) (fun _ => True) e :=
    meets_secondMathShift hm e he
  cases hmode : e.typesetter.mode with
  | math | restrictedHorizontal => exact worksAt_toggleMath he (by simp [hmode, Mode.isMath])
  | displayMath =>
    refine hsecond.bind (·.raise rfl) id fun second e' hcourse _ => ?_
    have he' : strict → e'.Proper := fun hs => hcourse.proper hs (he hs)
    have hmode' : e'.typesetter.mode = .displayMath := by rw [(hcourse.sameWork rfl).typesetter, hmode]
    split
    · have hrequest : MeetsAt (.command strict) (discard (requestMath true)) (fun _ => True) e' :=
        (worksAt_requestMath (by simp [hmode'])).map _
      refine hrequest.bind id id fun _ e'' hcourse' _ => ?_
      exact meets_complain [] (by simp) e'' fun hs => hcourse'.proper hs (he' hs)
    · exact worksAt_toggleMath he' (by simp [hmode'])
  | vertical | internalVertical | horizontal | unnamed =>
    refine hsecond.bind (·.raise rfl) id fun second e' hcourse _ => ?_
    have he' : strict → e'.Proper := fun hs => hcourse.proper hs (he hs)
    exact worksAt_toggleMath he' (by simp [(hcourse.sameWork rfl).typesetter, hmode, Mode.isMath])

theorem works_executeModified {t : Token} (ht : (Regime.command strict).Admits t) {meaning : Meaning}
    (hmeaning : strict → meaning.Proper) (modifiers : Modifiers) :
    Meets (.command strict) (executeModified m t meaning modifiers) fun _ => True := by
  unfold executeModified
  dsimp only
  refine .ite (fun _ => (meets_pushBack ht).bind fun _ _ => meets_complain_bind _ (by simp)) (fun _ => ?_)
  split
  · exact meets_pushBack hmeaning
  · exact meets_complain _ (by simp)
  · exact works_execute hm hmeaning _
  · exact meets_complain _ (by simp)

/-- Characters which are no control sequences are executed by one of the cases for their categories. -/
theorem works_executeCharacter {t : Token} (ht : (Regime.command strict).Admits t) (hcode : t.isCode = false) :
    Meets (.command strict) (executeCharacter m t) fun _ => True := by
  unfold executeCharacter
  split
  · exact works_openGroup .simple
  · exact works_closeGroup .simple
  · exact works_setLetter t
  · exact works_setLetter t
  · exact meets_get.bind fun e _ => works_typesetter fun t => .addSpace _ _
  · exact works_mathShift hm
  · refine meets_get.bind fun e _ => ?_
    exact .ite (fun _ => works_typesetter fun t => .add _ _) (fun _ => meets_complain _ (by simp))
  · refine meets_get.bind fun e _ => ?_
    exact .ite (fun _ => works_typesetter fun t => .add _ _) (fun _ => meets_complain _ (by simp))
  · exact meets_complain _ (by simp)
  · exact meets_complain _ (by simp)
  · -- the remaining categories are those of control sequences, and those which no proper token has
    refine meets_complain _ ⟨⟨by simp, by decide, fun hs => ?_⟩, nofun⟩
    have hproper : t.Proper := ht hs
    unfold Token.Proper at hproper
    unfold Token.isCode at hcode
    cases hcat : t.cat <;> simp_all [Catcode.isForTokens]

omit hm in
theorem cat_ne_space_of_isCode {t : Token} (h : t.isCode = true) : t.cat ≠ .space := by
  rintro hspace
  simp [Token.isCode, hspace] at h

omit hm in
theorem dispatch_of_meaning {e : Engine} {t : Token} {meaning : Meaning} (ht : t.isCode = true)
    (h : e.context.meaning t = some meaning) :
    dispatch m t e = executeMeaning m t meaning (e.record (.dispatched t e.context.conditionals)) := by
  have hrecorded : (e.record (.dispatched t e.context.conditionals)).context.meaning t = some meaning := h
  have hrecord : (recordDispatch t : Action Unit) e = .ok () (e.record (.dispatched t e.context.conditionals)) := rfl
  simp only [dispatch, Proc.bind_ok hrecord, ht, if_true, Proc.context_bind, hrecorded]

omit hm in
theorem dispatch_of_no_word {e : Engine} {t : Token} {meaning : Meaning} (ht : t.isCode = true)
    (h : e.context.meaning t = some meaning) (hne : ∀ id name word, meaning ≠ .primitive id name (.modifier word)) :
    dispatch m t e = executeModified m t meaning e.modifiers (e.dispatching t) := by
  rw [dispatch_of_meaning ht h]
  unfold executeMeaning
  split
  · exact (hne _ _ _ rfl).elim
  · rfl

omit hm in
theorem dispatch_of_undefined {e : Engine} {t : Token} (ht : t.isCode = true) (h : e.context.meaning t = none) :
    dispatch m t e = complainUndefined t (e.dispatching t) := by
  have hrecord : (recordDispatch t : Action Unit) e = .ok () (e.record (.dispatched t e.context.conditionals)) := rfl
  have hrecorded : (e.record (.dispatched t e.context.conditionals)).context.meaning t = none := h
  simp only [dispatch, Proc.bind_ok hrecord, ht, if_true, Proc.context_bind, hrecorded]
  rfl

omit hm in
theorem dispatch_of_character {e : Engine} {t : Token} (ht : t.isCode = false) (h : e.modifiers = .none) :
    dispatch m t e = executeCharacter m t (e.dispatching t) := by
  have hrecord : (recordDispatch t : Action Unit) e = .ok () (e.dispatching t) := by
    rw [Engine.dispatching, ← h]
    rfl
  have hnone : (e.dispatching t).modifiers = .none := rfl
  simp only [dispatch, Proc.bind_ok hrecord, ht, Bool.false_eq_true, if_false, Proc.get_bind, hnone, ne_eq,
    not_true_eq_false]

omit hm in
theorem dispatch_of_space {e : Engine} {t : Token} (ht : t.cat = .space) (h : e.modifiers ≠ .none) :
    dispatch m t e = .ok () (e.record (.dispatched t e.context.conditionals)) := by
  have hrecord : (recordDispatch t : Action Unit) e = .ok () (e.record (.dispatched t e.context.conditionals)) := rfl
  have hcode : t.isCode = false := by simp [Token.isCode, ht]
  have hrecorded : (e.record (.dispatched t e.context.conditionals)).modifiers = e.modifiers := rfl
  simp only [dispatch, Proc.bind_ok hrecord, hcode, Bool.false_eq_true, if_false, Proc.get_bind, hrecorded, h, ht, ne_eq,
    not_true_eq_false, not_false_eq_true, if_true]
  rfl

omit hm in
theorem dispatch_of_misuse {e : Engine} {t : Token} (ht : t.isCode = false) (hspace : t.cat ≠ .space)
    (h : e.modifiers ≠ .none) :
    dispatch m t e =
      (do
        pushBack t
        complain .cantUseModifier [.text t.withCategory] : Action Unit) (e.dispatching t) := by
  have hrecord : (recordDispatch t : Action Unit) e = .ok () (e.record (.dispatched t e.context.conditionals)) := rfl
  have hrecorded : (e.record (.dispatched t e.context.conditionals)).modifiers = e.modifiers := rfl
  simp only [dispatch, Proc.bind_ok hrecord, ht, Bool.false_eq_true, if_false, Proc.get_bind, hrecorded, h, hspace, ne_eq,
    not_false_eq_true, if_true, Proc.modify_bind]
  rfl

/-- The meaning of a token is executed. A word is gathered for the next assignment, and what has been gathered is used by
anything else. -/
theorem worksAt_dispatch_meaning {e : Engine} {t : Token} (he : strict → e.Proper) (ht : (Regime.command strict).Admits t)
    (hcode : t.isCode = true) {meaning : Meaning} (hmeaning : e.context.meaning t = some meaning) :
    MeetsAt (.command strict) (dispatch m t) (fun _ => True) e := by
  have hmodified : (∀ id name word, meaning ≠ .primitive id name (.modifier word)) →
      MeetsAt (.command strict) (dispatch m t) (fun _ => True) e := by
    intro hne
    have hstep : Course strict .working none e (e.dispatching t) :=
      .of_work (.dispatch ht fun hspace => (cat_ne_space_of_isCode hcode hspace).elim)
    have hproper : strict → meaning.Proper := fun hs => (he hs).context.meaning t meaning hmeaning
    exact (works_executeModified hm ht hproper e.modifiers _ (hstep.proper_of he)).after hstep
      (dispatch_of_no_word hcode hmeaning hne)
  cases meaning with
  | primitive id name p =>
    cases p with
    | modifier word =>
      refine .of_ok (a := ()) ?_ (.of_work (.gather ht word)) trivial
      rw [dispatch_of_meaning hcode hmeaning]
      rfl
    | _ => exact hmodified (by simp)
  | _ => exact hmodified (by simp)

theorem works_dispatch {t : Token} (ht : (Regime.command strict).Admits t) :
    Meets (.command strict) (dispatch m t) fun _ => True := by
  intro e he
  have hstep (hspace : t.cat = .space → e.modifiers = .none) : Course strict .working none e (e.dispatching t) :=
    .of_work (.dispatch ht hspace)
  by_cases hcode : t.isCode = true
  · cases hmeaning : e.context.meaning t with
    | some meaning => exact worksAt_dispatch_meaning hm he ht hcode hmeaning
    | none =>
      have hstep := hstep fun hspace => (cat_ne_space_of_isCode hcode hspace).elim
      exact (works_complainUndefined t _ (hstep.proper_of he)).after hstep (dispatch_of_undefined hcode hmeaning)
  · rw [Bool.not_eq_true] at hcode
    by_cases hmodifiers : e.modifiers = .none
    · have hstep := hstep fun _ => hmodifiers
      exact (works_executeCharacter hm ht hcode _ (hstep.proper_of he)).after hstep (dispatch_of_character hcode hmodifiers)
    · by_cases hspace : t.cat = .space
      · exact .of_ok (a := ()) (dispatch_of_space hspace hmodifiers) (.of_work (.dispatchSpace ht hspace)) trivial
      · have hrefuse : Meets (.command strict) (do
            pushBack t
            complain .cantUseModifier [.text t.withCategory] : Action Unit) fun _ => True :=
          (meets_pushBack ht).bind fun _ _ => meets_complain _ (by simp)
        have hstep := hstep fun h => (hspace h).elim
        exact (hrefuse _ (hstep.proper_of he)).after hstep (dispatch_of_misuse hcode hspace hmodifiers)

/-- Only what ends the run stops the execution of a command. -/
theorem meets_executeStep {R : Regime} (hR : R.level = .working) (least : Nat) :
    Meets R (executeStep m least) fun _ => True := by
  refine meets_get.bind fun e _ => .ite (fun _ => .pure trivial) (fun _ => ?_)
  refine hm.nextExpanded.lift.bind fun x hx => ?_
  cases x with
  | none => exact .pure trivial
  | some t =>
    have hdispatch : Meets R.loose (dispatch m t) fun _ => True := by
      obtain ⟨strict, level, firm⟩ := R
      cases hR
      exact works_dispatch hm (hx t rfl)
    exact (hdispatch.absorb hm).bind fun _ _ => .pure trivial

theorem meets_executeWhile {R : Regime} (hR : R.level = .working) (least : Nat) :
    Meets R (executeWhile m least) fun _ => True := by
  have hturn : ∀ turn : Turn Unit Bool, turn.Keeps (fun _ => True) fun _ => True := fun turn => by cases turn <;> trivial
  exact .iterate (I := fun _ => True) (fun _ _ => (meets_executeStep hm hR least).mono fun turn _ => hturn turn) m.fuel trivial

end Compositor
