import Compositor.Proofs.Engine.Running

/-!
# Conditions under evaluation

While a condition is evaluated, its conditional lies on the stack and shelters all conditionals below it: whatever the
condition expands to, no end mark reaches them. Conditionals which the condition starts come to lie above it, and they stay
there in their order when it has been decided.

* `Sheltered` says what a course may do to the stack: end branches on top of it, and begin new ones;
* `Course.sheltered` says that no course does anything else. The numbers of conditionals matter here: those started later
  have greater numbers, so a decided conditional is not mistaken for one above it;
* `conditions_sheltered` is the statement about conditions and runs.
-/

namespace Compositor

variable {α β : Type}

/-! ## The stack of conditionals -/

theorem dropConditional_append {id : Nat} {above below : List Conditional} {k : Conditional}
    (habove : ∀ a ∈ above, a.id ≠ id) (hk : k.id = id) : dropConditional id (above ++ k :: below) = above ++ below := by
  induction above with
  | nil => simp [dropConditional, hk]
  | cons a above ih =>
    have ha : a.id ≠ id := habove a (by simp)
    have hrest := ih fun a' ha' => habove a' (by simp [ha'])
    simp [dropConditional, ha, hrest]

/-- All conditions have been decided. -/
def Engine.Settled (e : Engine) : Prop := ∀ k ∈ e.context.conditionals, k.evaluating = false

/-- Between two states, branches have ended whose conditions were decided, and branches of conditionals have begun which
were started in between. -/
structure Sheltered (e e' : Engine) : Prop where
  serial : e.serial ≤ e'.serial
  stack : ∃ ended begun rest, e.context.conditionals = ended ++ rest ∧ e'.context.conditionals = begun ++ rest ∧
    (∀ k ∈ ended, k.evaluating = false) ∧ ∀ k ∈ begun, k.evaluating = false ∧ e.serial ≤ k.id

namespace Sheltered

variable {e e₁ e₂ e' : Engine}

theorem of_eq (hserial : e.serial ≤ e'.serial) (hstack : e'.context.conditionals = e.context.conditionals) :
    Sheltered e e' :=
  ⟨hserial, [], [], e.context.conditionals, rfl, hstack, by simp, by simp⟩

theorem trans (h : Sheltered e e₁) (h' : Sheltered e₁ e₂) : Sheltered e e₂ := by
  obtain ⟨hserial, ended, begun, rest, hstack, hstack₁, hended, hbegun⟩ := h
  obtain ⟨hserial', ended', begun', rest', hstack₁', hstack₂, hended', hbegun'⟩ := h'
  refine ⟨hserial.trans hserial', ?_⟩
  rw [hstack₁] at hstack₁'
  have hlater : ∀ k ∈ begun', k.evaluating = false ∧ e.serial ≤ k.id :=
    fun k hk => ⟨(hbegun' k hk).1, hserial.trans (hbegun' k hk).2⟩
  -- either the second part ends all branches which the first one has begun, or it leaves some of them
  rcases List.append_eq_append_iff.1 hstack₁' with ⟨more, hmore, hrest⟩ | ⟨left, hleft, hrest⟩
  · refine ⟨ended ++ more, begun', rest', ?_, hstack₂, ?_, hlater⟩
    · rw [hstack, hrest, List.append_assoc]
    · intro k hk
      rcases List.mem_append.1 hk with hk | hk
      · exact hended k hk
      · exact hended' k (by simp [hmore, hk])
  · refine ⟨ended, begun' ++ left, rest, hstack, ?_, hended, ?_⟩
    · rw [hstack₂, hrest, List.append_assoc]
    · intro k hk
      rcases List.mem_append.1 hk with hk | hk
      · exact hlater k hk
      · exact hbegun k (by simp [hleft, hk])

/-- A conditional whose condition is being evaluated stays where it is, with everything below it. -/
theorem stays {k : Conditional} {above below : List Conditional} (h : Sheltered e e') (hk : k.evaluating = true)
    (hstack : e.context.conditionals = above ++ k :: below) :
    ∃ above', e'.context.conditionals = above' ++ k :: below := by
  obtain ⟨-, ended, begun, rest, hstack₁, hstack₂, hended, -⟩ := h
  rw [hstack] at hstack₁
  rcases List.append_eq_append_iff.1 hstack₁ with ⟨more, hmore, hrest⟩ | ⟨left, -, hrest⟩
  · cases more with
    | nil => exact ⟨begun, by rw [hstack₂, ← List.nil_append rest, ← hrest]⟩
    | cons k' more =>
      -- the conditional would be among those which have ended
      obtain ⟨rfl, -⟩ := List.cons.inj hrest
      have hdecided := hended k (by simp [hmore])
      rw [hk] at hdecided
      cases hdecided
  · exact ⟨begun ++ left, by rw [hstack₂, hrest, List.append_assoc]⟩

/-- The conditional on top of the stack is being evaluated: only new ones have come above it. -/
theorem above {k : Conditional} {below : List Conditional} (h : Sheltered e e') (hk : k.evaluating = true)
    (hstack : e.context.conditionals = k :: below) :
    ∃ begun, e'.context.conditionals = begun ++ k :: below ∧ ∀ a ∈ begun, a.evaluating = false ∧ e.serial ≤ a.id := by
  obtain ⟨-, ended, begun, rest, hstack₁, hstack₂, hended, hbegun⟩ := h
  rw [hstack] at hstack₁
  cases ended with
  | nil => exact ⟨begun, by rw [hstack₂, hstack₁, List.nil_append], hbegun⟩
  | cons k' ended =>
    obtain ⟨rfl, -⟩ := List.cons.inj hstack₁
    have hdecided := hended k (by simp)
    rw [hk] at hdecided
    cases hdecided

theorem settled (h : Sheltered e e') (he : e.Settled) : e'.Settled := by
  obtain ⟨-, ended, begun, rest, hstack, hstack', -, hbegun⟩ := h
  intro k hk
  rw [hstack'] at hk
  rcases List.mem_append.1 hk with hk | hk
  · exact (hbegun k hk).1
  · exact he k (by simp [hstack, hk])

end Sheltered

/-! ## Courses -/

section Courses

variable {strict : Prop} {l : Level} {o : Option Stop} {e e' : Engine}

theorem ScanStep.sheltered (h : ScanStep strict e e') : Sheltered e e' := by
  cases h with
  | freshId => exact .of_eq (Nat.le_succ e.serial) rfl
  | @endBranch k ks hstack hk =>
    refine ⟨Nat.le_refl _, [k], [], ks, hstack, ?_, by simpa using hk, by simp⟩
    simp [Engine.modifyContext, Context.popConditional, hstack]
  | pushText text source =>
    obtain ⟨input, heq⟩ := e.pushText_eq text source
    rw [heq]
    exact .of_eq (Nat.le_refl _) rfl
  | lockMagnification h => exact .of_eq (Nat.le_refl _) (Context.setMagnification_conditionals h)
  | setInteraction mode => exact .of_eq (Nat.le_refl _) (e.context.regroups_setInteraction mode true).conditionals
  | defineRelax => exact .of_eq (Nat.le_refl _) (e.context.regroups_setMeaning _ _ false).conditionals
  | _ => exact .of_eq (Nat.le_refl _) rfl

theorem WorkStep.conditionals_eq (h : WorkStep strict e e') : e'.context.conditionals = e.context.conditionals := by
  cases h with
  | assign _ _ globally => exact (e.context.regroups_set _ _ globally).conditionals
  | @setCount name _ v globally => exact (e.context.regroups_setCount name v globally).conditionals
  | setMeaning t _ globally => exact (e.context.regroups_setMeaning t _ globally).conditionals
  | openGroup kind place => exact (e.context.regroups_openGroup kind place).conditionals
  | closeGroup h => exact (Context.Regroups.closeGroup h).conditionals
  | afterGroupToken => exact (e.context.regroups_afterGroupToken _).conditionals
  | setInteraction mode => exact (e.context.regroups_setInteraction mode true).conditionals
  | setStyle style globally => exact (e.context.regroups_setStyle style globally).conditionals
  | setSpace space globally => exact (e.context.regroups_setSpace space globally).conditionals
  | @setMagnification v c name h _ globally =>
    exact (c.regroups_setCount name v globally).conditionals.trans (Context.setMagnification_conditionals h)
  | keepFont target name font _ globally =>
    have hmeaning := (e.context.regroups_setMeaning target (some (.primitive e.serial target.name
      (.command (.selectFont name)))) globally).conditionals
    exact (Context.regroups_set _ (.font target.name) (some font) globally).conditionals.trans hmeaning
  | storeBox name box globally => exact (e.context.regroups_set (.box name) box globally).conditionals
  | deliverBox name keeps => exact (Context.regroups_deliverBox e name keeps).conditionals
  | pushText text source => rw [e.pushText_context]
  | _ => rfl

theorem WorkStep.serial_le (h : WorkStep strict e e') : e.serial ≤ e'.serial := by
  cases h with
  | keepFont => exact Nat.le_succ e.serial
  | pushText text source =>
    obtain ⟨input, heq⟩ := e.pushText_eq text source
    rw [heq]
  | _ => exact Nat.le_refl _

theorem WorkStep.sheltered (h : WorkStep strict e e') : Sheltered e e' := .of_eq h.serial_le h.conditionals_eq

/-- **A course leaves sheltered conditionals alone.** -/
theorem Course.sheltered (h : Course strict l o e e') : Sheltered e e' := by
  induction h with
  | refl e => exact .of_eq (Nat.le_refl _) rfl
  | scan _ hstep ih => exact ih.trans hstep.sheltered
  | work _ _ hstep ih => exact ih.trans hstep.sheltered
  | exhausted _ ih => exact ih
  | forgive _ _ _ _ _ _ ih ih' => exact ih.trans ⟨ih'.serial, ih'.stack⟩
  | stop _ _ ih | restore _ _ ih | refuse _ _ _ ih | exceed _ _ _ _ ih | consult _ _ _ _ ih | answer _ _ _ ih
  | dismiss _ _ _ _ ih | say _ _ _ ih | consent _ ih | decline _ _ ih => exact ⟨ih.serial, ih.stack⟩
  | @decide l o e e₁ e₂ c _ hc _ ih ih' =>
    -- only new conditionals are above this one, and their numbers are greater than its own
    obtain ⟨begun, hstack, hbegun⟩ := ih'.above (k := { c with evaluating := true }) rfl rfl
    refine ih.trans ⟨ih'.serial, [], begun, e₁.context.conditionals, rfl, ?_, by simp, hbegun⟩
    have hothers : ∀ a ∈ begun, a.id ≠ c.id := fun a ha => Nat.ne_of_gt (Nat.lt_of_lt_of_le hc (hbegun a ha).2)
    simp only [Engine.modifyContext, Context.dropConditional, hstack]
    exact dropConditional_append hothers rfl
  | @branch l e e₁ e₂ c _ hid hc _ ih ih' =>
    obtain ⟨hserial, ended, begun, rest, hstack, hstack', hended, hbegun⟩ := ih'
    refine ih.trans ⟨Nat.le_of_succ_le hserial, ended, c :: begun, rest, hstack, ?_, hended, ?_⟩
    · simp only [Engine.modifyContext, Context.pushConditional, hstack', List.cons_append]
    · refine List.forall_mem_cons.2 ⟨⟨hc, hid.ge⟩, fun k hk => ?_⟩
      exact ⟨(hbegun k hk).1, Nat.le_of_succ_le (hbegun k hk).2⟩
  | box _ _ _ _ _ ih ih' => exact ih.trans ⟨ih'.serial, ih'.stack⟩

/-- Between two states, entries with a property have come to the trace. -/
def Engine.Extends (P : TraceEntry → Prop) (e e' : Engine) : Prop :=
  ∃ new, e'.trace = new ++ e.trace ∧ ∀ entry ∈ new, P entry

namespace Engine.Extends

variable {P : TraceEntry → Prop} {e₁ : Engine}

theorem of_eq (h : e'.trace = e.trace) : e.Extends P e' := ⟨[], h, by simp⟩

theorem of_cons {entry : TraceEntry} (h : e'.trace = entry :: e.trace) (hentry : P entry) : e.Extends P e' :=
  ⟨[entry], h, by simpa using hentry⟩

theorem trans (h : e.Extends P e₁) (h' : e₁.Extends P e') : e.Extends P e' := by
  obtain ⟨new, htrace, hnew⟩ := h
  obtain ⟨new', htrace', hnew'⟩ := h'
  refine ⟨new' ++ new, by rw [htrace', htrace, List.append_assoc], fun entry hmem => ?_⟩
  rcases List.mem_append.1 hmem with hmem | hmem
  · exact hnew' entry hmem
  · exact hnew entry hmem

end Engine.Extends

/-- All conditions have been decided where a token is executed. -/
def TraceEntry.Settled : TraceEntry → Prop
  | dispatched _ ks => ∀ k ∈ ks, k.evaluating = false
  | _ => True

theorem Notes.settled {new : List TraceEntry} (h : Notes strict e new) (he : e.Settled) :
    ∀ entry ∈ new, entry.Settled := by
  cases h with
  | nothing => simp
  | dispatched | gathered =>
    have hdecided : ∀ k ∈ e.context.conditionals, k.evaluating = false := he
    simpa [TraceEntry.Settled] using hdecided
  | groupExecuted | mathToggled | listClosed | groupOpened | groupClosed | magnified | fontLoaded | boxStored | boxTaken =>
    simp [TraceEntry.Settled]

/-- Tokens are executed only by commands, and only where all conditions have been decided. -/
theorem Course.extends_settled (h : Course strict l o e e') (he : l = .working → e.Settled) :
    e.Extends TraceEntry.Settled e' := by
  induction h with
  | refl => exact .of_eq rfl
  | scan _ hstep ih => exact (ih he).trans (.of_eq hstep.trace_eq)
  | work hl h hstep ih =>
    refine (ih he).trans ?_
    obtain ⟨new, hnotes, heq⟩ := hstep.notes
    exact ⟨new, heq, hnotes.settled (h.sheltered.settled (he hl))⟩
  | exhausted _ ih | restore _ _ ih => exact ih he
  | @forgive l e e₁ e₂ d line script n h _ _ _ _ _ ih ih' =>
    have hanswer : e.Extends TraceEntry.Settled (e₁.hear (.delete n) script) := (ih he).trans (.of_cons rfl trivial)
    exact (hanswer.trans (ih' fun hl => h.sheltered.settled (he hl))).trans (.of_cons rfl trivial)
  | stop _ _ ih | answer _ _ _ ih | say _ _ _ ih | consent _ ih => exact (ih he).trans (.of_cons rfl trivial)
  | refuse _ _ _ ih | exceed _ _ _ _ ih | consult _ _ _ _ ih | dismiss _ _ _ _ ih | decline _ _ ih =>
    exact (ih he).trans ⟨[_, _], rfl, by simp [TraceEntry.Settled]⟩
  | decide _ _ _ ih ih' => exact (ih he).trans (ih' nofun)
  | branch _ _ _ _ ih ih' => exact (ih he).trans (ih' nofun)
  | box _ h _ _ _ ih ih' => exact (ih he).trans (ih' fun hl => h.sheltered.settled (he hl))

end Courses

/-! ## Conditions and runs -/

/-- The procedure leaves these conditionals at the bottom of the stack alone, however it ends. -/
def Spares (stack : List Conditional) (p : Proc β α) : Prop :=
  ∀ e, stack <:+ e.context.conditionals → stack <:+ (finalState (p e)).context.conditionals

/-- What is followed here: reading and expanding tokens in any state, which only the end of the run may stop. -/
abbrev Regime.reading : Regime := ⟨False, .scanning, True⟩

theorem Meets.spares {p : Proc β α} {Q : α → Prop} (h : Meets .reading p Q) {k : Conditional} (hk : k.evaluating = true)
    (below : List Conditional) : Spares (k :: below) p := by
  rintro e ⟨above, hstack⟩
  obtain ⟨o, hcourse⟩ := Attains.course (h e False.elim)
  obtain ⟨above', hstack'⟩ := hcourse.sheltered.stays hk hstack.symm
  exact ⟨above', hstack'.symm⟩

/-- When a condition has been evaluated, its conditional lies on all those which were there before, and exactly this one is
taken from the stack. -/
def Decides (m : Machine) (c : Conditional) (x : Proc β β) (e : Engine) : Prop :=
  ∃ above, (∀ k ∈ above, k.evaluating = false) ∧
    (finalState (x (e.modifyContext (·.pushConditional { c with evaluating := true })))).context.conditionals =
      above ++ { c with evaluating := true } :: e.context.conditionals ∧
    (finalState (decide m c x e)).context.conditionals = above ++ e.context.conditionals

/-- What stops a condition ends the run, so nothing is done between its stop and the report. -/
theorem finalState_decide {m : Machine} {c : Conditional} {x : Proc β β} {Q : β → Prop} (hx : Meets .reading x Q)
    (e : Engine) :
    (finalState (decide m c x e)).context = (finalState (x (e.modifyContext
      (·.pushConditional { c with evaluating := true })))).context.dropConditional c.id := by
  let e₁ := e.modifyContext (·.pushConditional { c with evaluating := true })
  have hdecide : decide m c x e = absorb m (x.afterwards (·.modifyContext (·.dropConditional c.id))) e₁ := rfl
  have hmeets : MeetsAt .reading x Q e₁ := hx e₁ False.elim
  rw [hdecide]
  cases h : x e₁ with
  | ok b e₂ =>
    simp only [absorb, Proc.afterwards, h]
    rfl
  | error i e₂ =>
    obtain ⟨-, hfinal⟩ := hmeets.error h
    obtain ⟨cause, sofar⟩ := i
    cases cause with
    | outOfFuel =>
      simp only [absorb, Proc.afterwards, h]
      rfl
    | diagnostic d =>
      have hreport := report_of_fatal (m := m) (hfinal trivial) (e₂.modifyContext (·.dropConditional c.id))
      simp only [absorb, Proc.afterwards, h, Proc.bind_error hreport]
      rfl

/-- When a condition has been evaluated, its conditional lies below those which it has started and left open. They stay on
the stack when it is decided. -/
theorem Meets.leaves_open {m : Machine} {c : Conditional} {x : Proc β β} {Q : β → Prop} (hx : Meets .reading x Q)
    {e : Engine} (hc : c.id < e.serial) :
    ∃ above, (∀ k ∈ above, k.evaluating = false ∧ e.serial ≤ k.id) ∧
      (finalState (x (e.modifyContext (·.pushConditional { c with evaluating := true })))).context.conditionals =
        above ++ { c with evaluating := true } :: e.context.conditionals ∧
      (finalState (decide m c x e)).context.conditionals = above ++ e.context.conditionals := by
  obtain ⟨o, hcourse⟩ := Attains.course (hx (e.modifyContext (·.pushConditional { c with evaluating := true })) False.elim)
  obtain ⟨above, hstack, habove⟩ := hcourse.sheltered.above (k := { c with evaluating := true }) rfl rfl
  have hothers : ∀ a ∈ above, a.id ≠ c.id := fun a ha => Nat.ne_of_gt (Nat.lt_of_lt_of_le hc (habove a ha).2)
  refine ⟨above, habove, hstack, ?_⟩
  rw [finalState_decide hx]
  simp only [Context.dropConditional, hstack]
  exact dropConditional_append hothers rfl

theorem Meets.decides {m : Machine} {c : Conditional} {x : Proc β β} {Q : β → Prop} (hx : Meets .reading x Q) {e : Engine}
    (hc : c.id < e.serial) : Decides m c x e := by
  obtain ⟨above, habove, hstack, hdecided⟩ := hx.leaves_open (m := m) hc
  exact ⟨above, fun k hk => (habove k hk).1, hstack, hdecided⟩

/-- All conditions have been decided whenever a token is executed, and at the end of the run. -/
theorem Outcome.settled {strict : Prop} {e : Engine} {r : EStateM.Result (Interrupted Unit) Engine Unit}
    (h : Outcome strict e r) (he : e.Settled) :
    (finalState r).Settled ∧ e.Extends TraceEntry.Settled (finalState r) := by
  cases h with
  | unprepared => exact ⟨he, .of_cons rfl trivial⟩
  | stopped h => exact ⟨h.sheltered.settled he, h.extends_settled fun _ => he⟩
  | @unclosed s e₁ e₂ h hreport =>
    have hsettled : e₁.clearInput.Settled := h.sheltered.settled he
    have hexecuted : e.Extends TraceEntry.Settled e₁.clearInput := h.extends_settled fun _ => he
    exact ⟨hreport.sheltered.settled hsettled, hexecuted.trans (hreport.extends_settled fun _ => hsettled)⟩
  | @ended e₁ e₂ h hreport =>
    have hsettled : e₁.clearInput.Settled := h.sheltered.settled he
    have hexecuted : e.Extends TraceEntry.Settled e₁.clearInput := h.extends_settled fun _ => he
    have hreported : e₁.clearInput.Extends TraceEntry.Settled e₂ := hreport.extends_settled fun _ => hsettled
    exact ⟨fun k hk => (List.not_mem_nil hk).elim, hexecuted.trans hreported⟩

/-- **A condition under evaluation protects everything below it.** Whatever is read and expanded in any state, a
conditional under evaluation stays on the stack with all those below it, unchanged and in their order; this holds of every
procedure which a condition is made of, wherever it ends or is stopped. When a condition is decided, exactly its conditional
leaves the stack. No condition is under evaluation when a token is executed, nor when a run ends. The number `n` bounds how
far the procedures are followed. -/
theorem conditions_sheltered (n : Nat) :
    (∀ (k : Conditional) (below : List Conditional), k.evaluating = true →
      Spares (k :: below) (machine n).next ∧ Spares (k :: below) (machine n).nextExpanded ∧
      Spares (k :: below) (machine n).number ∧ (∀ t, Spares (k :: below) ((machine n).expandOnce t)) ∧
      (∀ t, Spares (k :: below) (expand (machine n) t)) ∧
      ∀ condition, Spares (k :: below) (evaluate (machine n) condition)) ∧
    (∀ (c : Conditional) (e : Engine), c.id < e.serial →
      Decides (machine n) c (machine n).number e ∧
      ∀ condition, Decides (machine n) c (evaluate (machine n) condition) e) ∧
    ∀ e : Engine, e.Settled →
      (finalState (run (machine n) e)).Settled ∧ e.Extends TraceEntry.Settled (finalState (run (machine n) e)) := by
  have hm := machine_sound n
  refine ⟨fun k below hk => ⟨?_, ?_, ?_, ?_, ?_, ?_⟩, fun c e hc => ⟨?_, ?_⟩, fun e he => ?_⟩
  · exact Meets.spares hm.next hk below
  · exact Meets.spares hm.nextExpanded hk below
  · exact Meets.spares hm.number hk below
  · exact fun t => Meets.spares (hm.expandOnce False.elim) hk below
  · exact fun t => Meets.spares (meets_expand hm False.elim) hk below
  · exact fun condition => Meets.spares (meets_evaluate hm condition) hk below
  · exact Meets.decides hm.number hc
  · exact fun condition => Meets.decides (meets_evaluate hm condition) hc
  · have houtcome : Outcome False e (run (machine n) e) := run_outcome n False.elim
    exact houtcome.settled he

/-- A number which meets an end mark within a condition, with another conditional below: both stay, and so does the end
mark, which is read again when the condition has been decided. -/
theorem conditions_sheltered_number :
    let below : Conditional := { id := 0, value := true }
    let c : Conditional := { id := 1 }
    let start : Engine := (Engine.new default {}).bind "fi" fun id => .primitive id "fi" (.endMark .fiMark)
    let e : Engine := (start.pushText "12\\fi" "").modifyContext (·.pushConditional below)
    Spares [{ c with evaluating := true }, below] (machine 30).number ∧ Decides (machine 30) c (machine 30).number e ∧
      (finalState (run (machine 30) e)).Settled := by
  intro below c start e
  have hsettled : e.Settled := fun k hk => List.mem_singleton.1 hk ▸ rfl
  exact ⟨((conditions_sheltered 30).1 _ _ rfl).2.2.1, ((conditions_sheltered 30).2.1 c e (by decide)).1,
    ((conditions_sheltered 30).2.2 e hsettled).1⟩

end Compositor
