import Compositor.Proofs.Engine.Scanning

/-!
# The conduct of expansions

Conditionals, the arguments of definitions and the expandable primitives change the state as scanners do. A token is
replaced by proper tokens, since replacement texts are proper and arguments are made of tokens which were read.
-/

namespace Compositor

variable {β : Type} {R : Regime} {m : Machine} (hm : m.Sound)

include hm

/-! ## Conditionals -/

theorem meets_relation : Meets R (relation m) fun _ => True := by
  have hmissing : Meets R (do reportHere m .missingToken ["="]; return .equal : Action Relation) fun _ => True :=
    (meets_reportHere hm _ (by simp)).bind fun _ _ => .pure trivial
  refine (meets_nonBlank hm).lift.bind fun first hfirst => ?_
  dsimp only
  cases first.bind Relation.ofToken? with
  | some r => exact .pure trivial
  | none =>
    cases first with
    | none => exact hmissing
    | some t =>
      refine .ite (fun _ => ?_) (fun _ => hmissing)
      exact (meets_pushBack (hfirst t rfl)).bind fun _ _ => hmissing

theorem meets_nextCharacter : Meets R (nextCharacter m) fun _ => True := by
  refine hm.nextExpanded.lift.bind fun x _ => ?_
  cases x with
  | none => exact .pure trivial
  | some t =>
    refine .ite (fun _ => meets_context.bind fun c _ => ?_) (fun _ => .pure trivial)
    split <;> exact .pure trivial

theorem meets_evaluate (condition : Condition) : Meets R (evaluate m condition) fun _ => True := by
  cases condition with
  | constant value => exact .pure trivial
  | number =>
    refine hm.number.lift.bind fun a _ => (meets_relation hm).lift.bind fun r _ => ?_
    exact hm.number.lift.bind fun b _ => .pure trivial
  | dimension =>
    refine (meets_dimension hm).lift.bind fun a _ => (meets_relation hm).lift.bind fun r _ => ?_
    exact (meets_dimension hm).lift.bind fun b _ => .pure trivial
  | odd => exact hm.number.lift.bind fun n _ => .pure trivial
  | sameMeaning =>
    refine hm.next.lift.bind fun a _ => ?_
    cases a with
    | none => exact .pure trivial
    | some a =>
      refine hm.next.lift.bind fun b _ => ?_
      cases b with
      | none => exact .pure trivial
      | some b => exact meets_context.bind fun _ _ => .pure trivial
  | sameCharacter | sameCategory =>
    exact (meets_nextCharacter hm).lift.bind fun a _ => (meets_nextCharacter hm).lift.bind fun b _ => .pure trivial
  | mode test => exact meets_get.bind fun _ _ => .pure trivial

theorem meets_skip (c : Conditional) (atOr : Bool) : Meets R (skip m c atOr) fun _ => True := by
  refine .iterate (I := fun _ => True) (fun level _ => ?_) m.fuel trivial
  refine hm.next.bind fun x _ => ?_
  cases x with
  | none => exact meets_complain _ (by simp [Kind.isFatal, Kind.number])
  | some t =>
    refine (meets_meaningOf t).bind fun meaning _ => .pure ?_
    cases (SkipClass.ofMeaning meaning).pass atOr level <;> exact trivial

theorem meetsAt_decide (c : Conditional) {x : Proc β β} (hx : Meets R.scanning.loose x fun _ => True) {e : Engine}
    (he : R.strict → e.Proper) (hc : c.id < e.serial) : MeetsAt R (decide m c x) (fun _ => True) e := by
  let e₁ := e.modifyContext (·.pushConditional { c with evaluating := true })
  have he₁ : R.strict → e₁.Proper := fun hs => (he hs).of_eq rfl rfl
  have hdecide : decide m c x e = absorb m (x.afterwards (·.modifyContext (·.dropConditional c.id))) e₁ := rfl
  rw [MeetsAt, hdecide]
  refine attains_absorb hm ?_ (fun _ _ _ => trivial) he
  cases h : x e₁ with
  | ok b e₂ =>
    simp only [Proc.afterwards, h]
    exact ⟨.decide (.refl e) hc ((hx e₁ he₁).ok h).1, trivial⟩
  | error i e₂ =>
    simp only [Proc.afterwards, h]
    exact ⟨.decide (.refl e) hc ((hx e₁ he₁).error h).1, False.elim⟩

/-- The selected branch starts with the number of its conditional, wherever the search for it ends. -/
theorem attains_selectCase {c : Conditional} {e e₁ : Engine} (hid : c.id = e.serial) (hc : c.evaluating = false)
    (he : R.strict → e.Proper) (fuel n : Nat)
    (h : Course R.strict .scanning none { e with serial := e.serial + 1 } e₁) :
    Attains R (fun _ => True) e (iterate (selectStep m c) fuel n e₁) := by
  induction fuel generalizing n e₁ with
  | zero => exact ⟨.exhausted h.numbered, fun _ => trivial⟩
  | succ fuel ih =>
    have he₁ : R.strict → e₁.Proper := h.numbered.proper_of he
    rw [iterate]
    by_cases hn : n = c.branch.toInt
    · have hstep : selectStep m c n e₁ = .ok (.done ()) (e₁.modifyContext (·.pushConditional c)) := by
        rw [selectStep, if_pos hn]
        rfl
      rw [Proc.bind_ok hstep]
      exact ⟨.branch (.refl e) hid hc h, trivial⟩
    · have hskip : MeetsAt R.scanning (skip m c true) (fun _ => True) e₁ := meets_skip hm c true e₁ he₁
      cases hmark : skip m c true e₁ with
      | error i e₂ =>
        have hstep : selectStep m c n e₁ = .error i e₂ := by
          rw [selectStep, if_neg hn]
          exact Proc.bind_error hmark
        rw [Proc.bind_error hstep]
        exact ⟨(h.trans (hskip.error hmark).1).numbered, (hskip.error hmark).2⟩
      | ok mark e₂ =>
        have hcourse := h.trans (hskip.ok hmark).1
        cases mark with
        | orMark =>
          have hstep : selectStep m c n e₁ = .ok (.again (n + 1)) e₂ := by
            rw [selectStep, if_neg hn, Proc.bind_ok hmark]
            rfl
          rw [Proc.bind_ok hstep]
          exact ih (n + 1) hcourse
        | elseMark =>
          have hstep : selectStep m c n e₁ =
              .ok (.done ()) (e₂.modifyContext (·.pushConditional { c with value := false })) := by
            rw [selectStep, if_neg hn, Proc.bind_ok hmark]
            rfl
          rw [Proc.bind_ok hstep]
          exact ⟨.branch (.refl e) hid hc hcourse, trivial⟩
        | fiMark =>
          have hstep : selectStep m c n e₁ = .ok (.done ()) e₂ := by
            rw [selectStep, if_neg hn, Proc.bind_ok hmark]
            rfl
          rw [Proc.bind_ok hstep]
          exact ⟨hcourse.numbered, trivial⟩

theorem meets_startSwitch (name : String) : Meets R (startSwitch m name) fun _ => True := by
  intro e he
  let c : Conditional := { id := e.serial, place := e.locator, name, isSwitch := true }
  let e₁ : Engine := { e with serial := e.serial + 1 }
  have he₁ : R.strict → e₁.Proper := fun hs => (he hs).of_eq rfl rfl
  have hdecide : MeetsAt R.scanning (decide m c m.number) (fun _ => True) e₁ :=
    meetsAt_decide hm c hm.number he₁ (Nat.lt_succ_self e.serial)
  have hstart : startSwitch m name e =
      (decide m c m.number >>= fun branch => selectCase m { c with branch, value := true }) e₁ := rfl
  rw [MeetsAt, hstart]
  cases h : decide m c m.number e₁ with
  | error i e₂ =>
    rw [Proc.bind_error h]
    exact ⟨(hdecide.error h).1.numbered, (hdecide.error h).2⟩
  | ok branch e₂ =>
    rw [Proc.bind_ok h]
    exact attains_selectCase hm rfl rfl he m.fuel 0 (hdecide.ok h).1

theorem meets_startConditional (name : String) (condition : Condition) (negated : Bool) :
    Meets R (startConditional m name condition negated) fun _ => True := by
  intro e he
  let c : Conditional := { id := e.serial, place := e.locator, name, negated }
  let e₁ : Engine := { e with serial := e.serial + 1 }
  have he₁ : R.strict → e₁.Proper := fun hs => (he hs).of_eq rfl rfl
  have hdecide : MeetsAt R.scanning (decide m c (evaluate m condition)) (fun _ => True) e₁ :=
    meetsAt_decide hm c (meets_evaluate hm condition) he₁ (Nat.lt_succ_self e.serial)
  have hstart : startConditional m name condition negated e =
      (decide m c (evaluate m condition) >>= fun value => startBranch m { c with value := value != negated }) e₁ := rfl
  rw [MeetsAt, hstart]
  cases h : decide m c (evaluate m condition) e₁ with
  | error i e₂ =>
    rw [Proc.bind_error h]
    exact ⟨(hdecide.error h).1.numbered, (hdecide.error h).2⟩
  | ok value e₂ =>
    have hcourse := (hdecide.ok h).1
    have he₂ : R.strict → e₂.Proper := hcourse.numbered.proper_of he
    let k : Conditional := { c with value := value != negated }
    rw [Proc.bind_ok h, startBranch]
    split
    · exact ⟨.branch (.refl e) rfl rfl hcourse, trivial⟩
    · have hskip : MeetsAt R.scanning (skip m k false) (fun _ => True) e₂ := meets_skip hm k false e₂ he₂
      cases hmark : skip m k false e₂ with
      | error i e₃ =>
        rw [Proc.bind_error hmark]
        exact ⟨(hcourse.trans (hskip.error hmark).1).numbered, (hskip.error hmark).2⟩
      | ok mark e₃ =>
        have hskipped := hcourse.trans (hskip.ok hmark).1
        rw [Proc.bind_ok hmark]
        cases mark with
        | elseMark => exact ⟨.branch (.refl e) rfl rfl hskipped, trivial⟩
        | orMark | fiMark => exact ⟨hskipped.numbered, trivial⟩

theorem meets_skipToFi (c : Conditional) : Meets R (skipToFi m c) fun _ => True := by
  refine .iterate (I := fun _ => True) (fun _ _ => ?_) m.fuel trivial
  refine (meets_skip hm c false).bind fun mark _ => ?_
  cases mark <;> exact .pure trivial

/-- A branch is ended only where the innermost conditional has been decided. -/
theorem meets_endBranch {t : Token} (ht : R.Admits t) (mark : EndMark) : Meets R (endBranch m t mark) fun _ => True := by
  refine .context_bind fun e he => ?_
  have hextra : ∀ kind, R.Reports kind → MeetsAt R (reportHere m kind []) (fun _ => True) e :=
    fun kind hkind => meets_reportHere hm [] hkind e he
  cases hstack : e.context.conditionals with
  | nil => cases mark <;> exact hextra _ (by simp)
  | cons k ks =>
    simp only [List.head?_cons]
    split
    · have hpush : Meets R (do pushBack t; pushBack frozenRelaxToken : Action Unit) fun _ => True :=
        (meets_pushBack ht).bind fun _ _ => meets_pushBack fun _ => rfl
      exact hpush e he
    · have hdecided : k.evaluating = false := by simpa using ‹¬ k.evaluating = true›
      have hpop : Course R.strict R.level none e (e.modifyContext Context.popConditional) :=
        .of_scan (.endBranch hstack hdecided)
      have hleave : MeetsAt R (leaveBranch m k) (fun _ => True) e :=
        MeetsAt.after (meets_skipToFi hm k _ (hpop.proper_of he)) hpop rfl
      cases mark with
      | fiMark => exact .of_ok rfl hpop trivial
      | elseMark | orMark =>
        dsimp only
        split
        · exact hleave
        · exact hextra _ (by simp)

theorem meets_negateNext (name : String) : Meets R (negateNext m name) fun _ => True := by
  refine hm.next.bind fun x hx => ?_
  cases x with
  | none => exact .pure trivial
  | some t =>
    refine (meets_meaningOf t).bind fun meaning _ => ?_
    split
    · exact meets_startConditional hm _ _ true
    · exact (meets_pushBack (hx t rfl)).bind fun _ _ => meets_reportHere hm _ (by simp)

/-! ## Arguments -/

omit hm in
theorem mem_of_mem_stripBraces {ts : List Token} {t : Token} (h : t ∈ stripBraces ts) : t ∈ ts := by
  unfold stripBraces at h
  split at h
  · exact List.mem_of_mem_drop (List.dropLast_subset _ h)
  · exact h

namespace Definition

variable (d : Definition)

omit hm in
theorem meets_refuse {α : Type} {Q : α → Prop} {kind : Kind} {t : Token} (ht : R.Admits t) (h : R.Reports kind) :
    Meets R.loose (d.refuse kind t : Action α) Q :=
  (meets_pushBack (R := R.loose) ht).bind fun _ _ => meets_complain _ ⟨h, nofun⟩

omit hm in
theorem meets_refuse_bind {α γ : Type} {Q : γ → Prop} {kind : Kind} {t : Token} {f : α → Action γ} (ht : R.Admits t)
    (h : R.Reports kind) : Meets R.loose (d.refuse kind t >>= f) Q := by
  have hstop : Meets R.loose (d.refuse kind t : Action α) fun _ => False := d.meets_refuse ht h
  exact hstop.bind fun _ h => h.elim

theorem meets_argumentToken : Meets R.loose (d.argumentToken m) R.Admits := by
  refine hm.next.bind fun x hx => ?_
  cases x with
  | none => exact meets_complain _ (by simp)
  | some t => exact .pure (hx t rfl)

theorem meets_matchTokens (ts : List Token) : Meets R.loose (d.matchTokens m ts) fun _ => True := by
  induction ts with
  | nil => exact .pure trivial
  | cons expected rest ih =>
    refine (d.meets_argumentToken hm).bind fun t ht => ?_
    exact .ite (fun _ => d.meets_refuse_bind ht (by simp)) (fun _ => ih)

theorem meets_groupArgument : Meets R.loose (d.groupArgument m) fun ts => ∀ t ∈ ts, R.Admits t := by
  refine .iterate (I := fun s => ∀ t ∈ s.2, R.Admits t) (fun (level, ts) hts => ?_) m.fuel (by simp)
  refine (d.meets_argumentToken hm).bind fun t ht => .ite (fun _ => d.meets_refuse_bind ht (by simp)) (fun _ => ?_)
  dsimp only
  cases t.nest level with
  | none => exact .pure hts
  | some level => exact .pure (admits_append hts ht)

theorem meets_undelimitedArgument : Meets R.loose (d.undelimitedArgument m) fun ts => ∀ t ∈ ts, R.Admits t := by
  refine .iterate (I := fun _ => True) (fun _ _ => ?_) m.fuel trivial
  refine (d.meets_argumentToken hm).bind fun t ht => .ite (fun _ => .pure trivial) (fun _ => ?_)
  refine .ite (fun _ => d.meets_refuse_bind ht (by simp)) (fun _ => ?_)
  dsimp only
  split
  · exact d.meets_refuse ht (by simp)
  · exact (d.meets_groupArgument hm).bind fun ts hts => .pure hts
  · exact .pure fun u hu => List.mem_singleton.1 hu ▸ ht

theorem meets_delimitedArgument (delimiter : List Token) :
    Meets R.loose (d.delimitedArgument m delimiter) fun ts => ∀ t ∈ ts, R.Admits t := by
  refine .iterate (I := fun s => ∀ t ∈ s.2, R.Admits t) (fun (level, ts) hts => ?_) m.fuel (by simp)
  refine (d.meets_argumentToken hm).bind fun t ht => .ite (fun _ => d.meets_refuse_bind ht (by simp)) (fun _ => ?_)
  dsimp only
  cases t.nest level with
  | none => exact d.meets_refuse ht (by simp)
  | some level =>
    have hmore := admits_append hts ht
    refine .ite (fun _ => .pure fun u hu => ?_) (fun _ => .pure hmore)
    exact hmore u (List.mem_of_mem_take (mem_of_mem_stripBraces hu))

theorem meets_readArguments (delimiters : List (List Token)) :
    Meets R.loose (d.readArguments m delimiters) fun arguments => ∀ ts ∈ arguments, ∀ t ∈ ts, R.Admits t := by
  induction delimiters with
  | nil => exact .pure (by simp)
  | cons delimiter rest ih =>
    have hrest : ∀ argument : List Token, (∀ t ∈ argument, R.Admits t) → Meets R.loose (do
        return argument :: (← d.readArguments m rest)) fun arguments => ∀ ts ∈ arguments, ∀ t ∈ ts, R.Admits t :=
      fun argument hargument => ih.bind fun arguments h => .pure (List.forall_mem_cons.2 ⟨hargument, h⟩)
    rw [readArguments]
    exact .ite (fun _ => (d.meets_undelimitedArgument hm).bind hrest)
      (fun _ => (d.meets_delimitedArgument hm delimiter).bind hrest)

omit hm in
theorem admits_substitute {d : Definition} (hd : R.strict → d.Proper) {arguments : List (List Token)}
    (h : ∀ ts ∈ arguments, ∀ t ∈ ts, R.Admits t) : ∀ t ∈ d.substitute arguments, R.Admits t := by
  intro t ht
  obtain ⟨item, hitem, ht⟩ := List.mem_flatMap.1 ht
  cases item with
  | token u => exact fun hs => List.mem_singleton.1 ht ▸ hd hs u hitem
  | argument n =>
    dsimp only at ht
    cases hget : arguments[n - 1]? with
    | none => simp [hget] at ht
    | some ts =>
      rw [hget] at ht
      exact h ts (List.mem_of_getElem? hget) t ht

theorem meets_expand {d : Definition} (hd : R.strict → d.Proper) :
    Meets R.loose (d.expand m) fun ts => ∀ t ∈ ts, R.Admits t := by
  refine (d.meets_matchTokens hm d.opening).bind fun _ _ => ?_
  exact (d.meets_readArguments hm d.delimiters).bind fun arguments h => .pure (admits_substitute hd h)

end Definition

/-! ## Expansion -/

/-- The tokens of a replacement are proper, and its problem is one to be reported. -/
structure Replacement.Fits (R : Regime) (r : Replacement) : Prop where
  tokens : ∀ t ∈ r.tokens, R.Admits t
  problem : ∀ d ∈ r.problem, R.Reports d.kind

omit hm in
theorem Replacement.fits_empty : ({} : Replacement).Fits R := ⟨by simp, by simp⟩

omit hm in
theorem Replacement.fits_other (s : String) : Replacement.Fits R { tokens := Token.otherTokens s } :=
  ⟨fun t ht _ => Token.proper_otherTokens s t ht, by simp⟩

theorem meets_expandAfter : Meets R (expandAfter m) (Replacement.Fits R) := by
  refine hm.next.bind fun x hx => ?_
  cases x with
  | none => exact .pure Replacement.fits_empty
  | some first =>
    have hfirst := hx first rfl
    have hsecond : Meets R (Proc.onStop m.next (·.pushTokens [first])) fun x => ∀ t ∈ x, R.Admits t :=
      hm.next.onStop (by simpa using hfirst)
    refine hsecond.bind fun x hx => ?_
    cases x with
    | none => exact (meets_pushBack hfirst).bind fun _ _ => .pure Replacement.fits_empty
    | some second =>
      refine (hm.expandOnce (hx second rfl)).bind fun _ _ => ?_
      exact (meets_pushBack hfirst).bind fun _ _ => .pure Replacement.fits_empty

theorem meets_the : Meets R (the m) (Replacement.Fits R) := by
  refine hm.nextExpanded.lift.bind fun x _ => ?_
  cases x with
  | none => exact .pure Replacement.fits_empty
  | some t =>
    refine (meets_quantity? hm t).bind fun q hq => ?_
    split
    · exact Meets.bind (Meets.lift (hq _ rfl)) fun ts hts => .pure ⟨hts, by simp⟩
    · exact Meets.bind (Meets.lift (hq _ rfl)) fun _ _ => .pure (Replacement.fits_other _)
    · exact Meets.bind (Meets.lift (hq _ rfl)) fun _ _ => .pure (Replacement.fits_other _)
    · exact Meets.bind (Meets.lift (hq _ rfl)) fun _ _ => .pure (Replacement.fits_other _)
    · refine (meets_diagnosticHere _ _).bind fun d hd => .pure ⟨fun t ht _ => Token.proper_otherTokens "0" t ht, ?_⟩
      simp [hd]

theorem meets_stringOfToken : Meets R (stringOfToken m) (Replacement.Fits R) := by
  refine hm.next.bind fun x _ => ?_
  cases x with
  | none => exact .pure Replacement.fits_empty
  | some t =>
    refine .ite (fun _ => meets_context.bind fun _ _ => .pure (Replacement.fits_other _)) (fun _ => ?_)
    refine .ite (fun _ => .pure ⟨?_, by simp⟩) (fun _ => .pure ⟨?_, by simp⟩)
    · exact fun u hu _ => List.mem_singleton.1 hu ▸ Token.proper_blank
    · exact fun u hu _ => List.mem_singleton.1 hu ▸ Token.proper_other t.char

theorem meets_meaningOfToken : Meets R (meaningOfToken m) (Replacement.Fits R) := by
  refine hm.next.bind fun x _ => ?_
  cases x with
  | none => exact .pure Replacement.fits_empty
  | some t =>
    refine .ite (fun _ => meets_context.bind fun _ _ => .pure (Replacement.fits_other _)) (fun _ => ?_)
    exact .pure (Replacement.fits_other _)

theorem meets_nameCharacters : Meets R (nameCharacters m) fun x => ∀ d ∈ x.2, R.Reports d.kind := by
  refine .iterate (I := fun _ => True) (fun name _ => ?_) m.fuel trivial
  refine hm.nextExpanded.lift.bind fun x hx => ?_
  cases x with
  | none => exact (meets_diagnosticHere _ _).bind fun d hd => .pure (by simp [Turn.Keeps, hd])
  | some t =>
    refine .ite (fun _ => .pure trivial) (fun _ => (meets_meaningOf t).bind fun meaning _ => ?_)
    refine .ite (fun _ => .pure (by simp [Turn.Keeps])) (fun _ => (meets_pushBack (hx t rfl)).bind fun _ _ => ?_)
    exact (meets_diagnosticHere _ _).bind fun d hd => .pure (by simp [Turn.Keeps, hd])

/-- Only a name which is undefined gets a new meaning. -/
theorem meets_controlSequenceName : Meets R (controlSequenceName m) (Replacement.Fits R) := by
  refine (meets_nameCharacters hm).bind fun (name, problem) hproblem => .context_bind fun e he => ?_
  have hname : ∀ t ∈ [Token.controlSequence name e.context.space], R.Admits t :=
    fun t ht _ => List.mem_singleton.1 ht ▸ Token.proper_controlSequence name e.context.space
  dsimp only
  split
  · let e₁ : Engine := { e with serial := e.serial + 1 }
    have hundefined : e₁.context.meaning (.controlSequence name e.context.space) = none :=
      Option.isNone_iff_eq_none.1 ‹_›
    have hid : e.serial < e₁.serial := Nat.lt_succ_self _
    exact .of_ok rfl (.scan (.of_scan .freshId) (.defineRelax hundefined e.serial hid)) ⟨hname, hproblem⟩
  · exact Meets.pure ⟨hname, hproblem⟩ e he

theorem meets_replacement (x : Expansion) : Meets R (replacement m x) (Replacement.Fits R) := by
  cases x with
  | expandAfter => exact meets_expandAfter hm
  | the => exact meets_the hm
  | number | romanNumeral => exact hm.number.lift.bind fun n _ => .pure (Replacement.fits_other _)
  | string => exact meets_stringOfToken hm
  | meaning => exact meets_meaningOfToken hm
  | controlSequenceName => exact meets_controlSequenceName hm

theorem meets_insertReplacement {x : Action Replacement} (hx : Meets R.loose x (Replacement.Fits R)) :
    Meets R (insertReplacement m x) fun _ => True := by
  refine (hx.absorb_giving hm Replacement.fits_empty).bind fun r hr => ?_
  cases hproblem : r.problem with
  | none => exact meets_pushTokens hr.tokens
  | some d => exact (meets_report hm (hr.problem d hproblem)).bind fun _ _ => meets_pushTokens hr.tokens

theorem meets_expand {t : Token} (ht : R.Admits t) : Meets R (expand m t) fun _ => True := by
  refine (meets_meaningOf t).bind fun meaning hmeaning => ?_
  split
  · rename_i d
    have hd : R.strict → d.Proper := hmeaning (.definition d) rfl
    refine Meets.bind (meets_insertReplacement hm ?_) fun _ _ => .pure trivial
    exact (Definition.meets_expand hm hd).bind fun ts hts => .pure ⟨hts, by simp⟩
  · rename_i id name p
    cases p with
    | condition c => exact (meets_startConditional hm name c false).bind fun _ _ => .pure trivial
    | switch => exact (meets_startSwitch hm name).bind fun _ _ => .pure trivial
    | endMark mark => exact (meets_endBranch hm ht mark).bind fun _ _ => .pure trivial
    | «unless» => exact (meets_negateNext hm name).bind fun _ _ => .pure trivial
    | expansion x =>
      have hx : Meets R.loose (replacement m x) (Replacement.Fits R) :=
        (meets_replacement hm x).mono fun _ hr => ⟨hr.tokens, hr.problem⟩
      exact (meets_insertReplacement hm hx).bind fun _ _ => .pure trivial
    | modifier word => exact .pure trivial
    | command c => exact .pure trivial
  · exact .pure trivial

theorem meets_readExpanded : Meets R (readExpanded m) fun x => ∀ t ∈ x, R.Admits t := by
  refine .iterate (I := fun _ => True) (fun _ _ => ?_) m.fuel trivial
  refine hm.next.lift.bind fun x hx => ?_
  cases x with
  | none => exact .pure hx
  | some t =>
    refine ((meets_expand hm (hx t rfl)).giving t).bind fun expanded _ => ?_
    exact .ite (fun _ => .pure trivial) (fun _ => .pure hx)

theorem meets_expandOnce {t : Token} (ht : R.Admits t) : Meets R (expandOnce m t) fun _ => True := by
  refine (meets_expand hm ht).bind fun expanded _ => ?_
  exact .ite (fun _ => .pure trivial) (fun _ => meets_pushBack ht)

end Compositor
