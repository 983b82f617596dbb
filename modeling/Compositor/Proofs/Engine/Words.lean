import Compositor.Proofs.Engine.Groups
import Compositor.Proofs.Engine.Handling
import Compositor.Proofs.Engine.Noted
import Compositor.Proofs.Engine.Separation

/-!
# The words in front of a command

Words such as `global` are gathered for the assignment which follows. They are pending until a command is executed which is
neither such a word nor a space, whatever becomes of this command.

* `pendingWords` are the words which are pending after a trace, and `Course.collects` says that the engine holds just these;
* `Context.reception` tells what becomes of a token in front of which words are pending;
* `nextExpanded_again` reads a token which has been refused a second time;
* `Receives` says what a turn of the main loop does with a token, for each of its receptions, and `words_used_once` is the
  statement about all turns after a point where no word is pending.
-/

namespace Compositor

/-! ## Pending words -/

/-- The words which are pending after a trace: those which have been executed since the last other command. Spaces may
stand between them. The latest entry comes first. -/
def pendingWords : List TraceEntry → Modifiers
  | [] => .none
  | .gathered word :: .dispatched _ _ :: earlier => (pendingWords earlier).union word
  | .dispatched t _ :: earlier => if t.cat = .space then pendingWords earlier else .none
  | _ :: earlier => pendingWords earlier

/-- The words of the engine are those which the trace tells, if they have been so before. -/
def Engine.Collects (e e' : Engine) : Prop :=
  ∃ new, e'.trace = new ++ e.trace ∧
    ∀ earlier, pendingWords earlier = e.modifiers → pendingWords (new ++ earlier) = e'.modifiers

/-- The entry has nothing to do with words and commands. -/
def TraceEntry.isAside : TraceEntry → Bool
  | dispatched _ _ | gathered _ => false
  | _ => true

theorem pendingWords_aside {new earlier : List TraceEntry} (h : ∀ entry ∈ new, entry.isAside = true) :
    pendingWords (new ++ earlier) = pendingWords earlier := by
  induction new with
  | nil => rfl
  | cons entry new ih =>
    rw [← ih fun entry hentry => h entry (by simp [hentry])]
    have haside := h entry (by simp)
    cases entry <;> first | rfl | cases haside

section Courses

variable {strict : Prop} {l : Level} {o : Option Stop} {e e₁ e' : Engine}

namespace Engine.Collects

/-- Entries which have nothing to do with words and commands. -/
theorem of_append (new : List TraceEntry) (htrace : e'.trace = new ++ e.trace) (hmodifiers : e'.modifiers = e.modifiers)
    (hnew : ∀ entry ∈ new, entry.isAside = true) : e.Collects e' :=
  ⟨new, htrace, fun earlier h => by rw [pendingWords_aside hnew, h, hmodifiers]⟩

theorem of_eq (htrace : e'.trace = e.trace) (hmodifiers : e'.modifiers = e.modifiers) : e.Collects e' :=
  of_append [] htrace hmodifiers (by simp)

theorem trans (h : e.Collects e₁) (h' : e₁.Collects e') : e.Collects e' := by
  obtain ⟨new, htrace, hnew⟩ := h
  obtain ⟨new', htrace', hnew'⟩ := h'
  refine ⟨new' ++ new, by rw [htrace', htrace, List.append_assoc], fun earlier hearlier => ?_⟩
  rw [List.append_assoc]
  exact hnew' _ (hnew earlier hearlier)

end Engine.Collects

theorem WorkStep.collects (h : WorkStep strict e e') : e.Collects e' := by
  cases h with
  | pushText text source =>
    obtain ⟨input, heq⟩ := e.pushText_eq text source
    rw [heq]
    exact .of_eq rfl rfl
  | @dispatch t _ hspace =>
    refine ⟨[_], rfl, fun earlier hearlier => ?_⟩
    by_cases hcat : t.cat = .space
    · rw [List.singleton_append, pendingWords, if_pos hcat, hearlier, hspace hcat]
      rfl
    · rw [List.singleton_append, pendingWords, if_neg hcat]
      rfl
  | dispatchSpace _ ht =>
    refine ⟨[_], rfl, fun earlier hearlier => ?_⟩
    rw [List.singleton_append, pendingWords, if_pos ht, hearlier]
    rfl
  | gather _ word =>
    exact ⟨[_, _], rfl, fun earlier hearlier => congrArg (Modifiers.union · word) hearlier⟩
  | executeGroup | openGroup | closeGroup | setMagnification | keepFont | storeBox | deliverBox | toggled | closed =>
    exact .of_append [_] rfl rfl (by simp [TraceEntry.isAside])
  | _ => exact .of_eq rfl rfl

/-- **The engine holds the words which are pending.** -/
theorem Course.collects (h : Course strict l o e e') : e.Collects e' := by
  induction h with
  | refl => exact .of_eq rfl rfl
  | scan _ hstep ih => exact ih.trans (.of_eq hstep.trace_eq hstep.sameWork.modifiers)
  | work _ _ hstep ih => exact ih.trans hstep.collects
  | exhausted _ ih | restore _ _ ih => exact ih
  | stop _ _ ih | answer _ _ _ ih | say _ _ _ ih | consent _ ih =>
    exact ih.trans (.of_append [_] rfl rfl (by simp [TraceEntry.isAside]))
  | refuse _ _ _ ih | exceed _ _ _ _ ih | consult _ _ _ _ ih | dismiss _ _ _ _ ih | decline _ _ ih =>
    exact ih.trans (.of_append [_, _] rfl rfl (by simp [TraceEntry.isAside]))
  | @forgive l e e₁ e₂ d line script n _ _ _ _ _ _ ih ih' =>
    have hanswered : e₁.Collects (e₁.hear (.delete n) script) :=
      .of_append [_] rfl rfl (by simp [TraceEntry.isAside])
    have hforgiven : e₂.Collects (e₂.record (.forgiven d)) :=
      .of_append [_] rfl rfl (by simp [TraceEntry.isAside])
    exact ((ih.trans hanswered).trans ih').trans hforgiven
  | decide _ _ _ ih ih' | branch _ _ _ _ ih ih' => exact ih.trans ih'
  | box _ _ _ _ _ ih ih' => exact ih.trans ih'

end Courses

/-! ## Receptions -/

/-- What becomes of a token in front of which words are pending. -/
inductive Reception where
  /-- It is a word itself, and gathered with the others. -/
  | joins (word : Modifiers)
  /-- It is a space between words and their assignment. -/
  | passes
  /-- It is executed with the words. -/
  | obeyed
  /-- It has no meaning. -/
  | unknown
  /-- The words do not belong in front of it. -/
  | refused
deriving DecidableEq

namespace Meaning

def accepts (words : Modifiers) : Meaning → Bool
  | primitive _ _ (.command c) => (c.accepts.map words.subset).getD false
  | _ => false

/-- What becomes of a token with this meaning in front of which these words are pending. -/
def reception (words : Modifiers) : Meaning → Reception
  | primitive _ _ (.modifier word) => .joins word
  | meaning => if words = .none ∨ meaning.accepts words = true then .obeyed else .refused

theorem reception_of_no_word (words : Modifiers) {meaning : Meaning}
    (h : ∀ id name word, meaning ≠ .primitive id name (.modifier word)) :
    meaning.reception words = if words = .none ∨ meaning.accepts words = true then .obeyed else .refused := by
  unfold reception
  split
  · exact (h _ _ _ rfl).elim
  · rfl

end Meaning

/-- What becomes of a token in front of which these words are pending. -/
def Context.reception (c : Context) (t : Token) (words : Modifiers) : Reception :=
  if t.isCode then
    match c.meaning t with
    | some meaning => meaning.reception words
    | none => .unknown
  else if words = .none then .obeyed
  else if t.cat = .space then .passes
  else .refused

/-- Executes a token with these words in front of it, whatever has been gathered. -/
def perform (m : Machine) (t : Token) (words : Modifiers) : Action Unit := do
  match ← meaningOf t with
  | some (.primitive _ name (.command c)) => c.execute m name words
  | some (.character _ u) => pushBack u
  | some (.undefined name) => complain .undefinedControlSequence [.text ("\\" ++ name)]
  | some _ => complain .misplaced [.text t.format]
  | none => executeCharacter m t

namespace Engine

/-- The diagnostic of a token in front of which there are words which do not belong there. -/
def misuse (e : Engine) (t : Token) : Diagnostic :=
  { kind := .cantUseModifier, place := (e.pushTokens [t]).locator,
    arguments := [.text (if t.isCode then t.format else t.withCategory)] }

/-- The engine which has refused to execute a token with the words in front of it. The token is read again. -/
def refusing (e : Engine) (t : Token) : Engine := ((e.dispatching t).pushTokens [t]).record (.stopped (e.misuse t))

def undefinedToken (e : Engine) (t : Token) : Diagnostic :=
  { kind := .undefinedControlSequence, place := e.locator, arguments := [.text t.format],
    hint := if t.isControlSequence then e.suggestion t.name else "" }

end Engine

section Dispatch

variable {e : Engine} {t : Token} (m : Machine) {words : Modifiers}

theorem executeModified_of_accepts {meaning : Meaning} (hcode : t.isCode = true) (hmeaning : e.context.meaning t = some meaning)
    (h : words = .none ∨ meaning.accepts words = true) : executeModified m t meaning words e = perform m t words e := by
  rw [perform, meaningOf_bind, Context.meaning?, if_pos hcode, hmeaning]
  unfold executeModified
  dsimp only
  rw [if_neg]
  · cases meaning with
    | primitive id name p => cases p <;> rfl
    | _ => rfl
  · rcases h with rfl | h
    · simp
    · cases meaning with
      | primitive id name p => cases p <;> simp_all [Meaning.accepts]
      | _ => cases h

theorem executeModified_of_refuses {meaning : Meaning} (hcode : t.isCode = true)
    (h : ¬ (words = .none ∨ meaning.accepts words = true)) :
    executeModified m t meaning words (e.dispatching t) = .error ⟨.diagnostic (e.misuse t), ()⟩ (e.refusing t) := by
  rw [not_or] at h
  unfold executeModified
  dsimp only
  rw [if_pos]
  · rw [Engine.refusing, Engine.misuse, if_pos hcode]
    rfl
  · cases meaning with
    | primitive id name p => cases p <;> simp_all [Meaning.accepts]
    | _ => simp [h.1]

/-- **A token is dispatched as it is received.** -/
theorem dispatch_eq (e : Engine) (t : Token) :
    dispatch m t e = match e.context.reception t e.modifiers with
      | .joins word => .ok () (e.gathering t word)
      | .passes => .ok () (e.record (.dispatched t e.context.conditionals))
      | .obeyed => perform m t e.modifiers (e.dispatching t)
      | .unknown => .error ⟨.diagnostic (e.undefinedToken t), ()⟩
          ((e.dispatching t).record (.stopped (e.undefinedToken t)))
      | .refused => .error ⟨.diagnostic (e.misuse t), ()⟩ (e.refusing t) := by
  by_cases hcode : t.isCode = true
  · rw [Context.reception, if_pos hcode]
    cases hmeaning : e.context.meaning t with
    | none => exact dispatch_of_undefined hcode hmeaning
    | some meaning =>
      by_cases hword : ∃ id name word, meaning = .primitive id name (.modifier word)
      · obtain ⟨id, name, word, rfl⟩ := hword
        rw [dispatch_of_meaning hcode hmeaning]
        rfl
      · have hword : ∀ id name word, meaning ≠ .primitive id name (.modifier word) := by simpa using hword
        rw [dispatch_of_no_word hcode hmeaning hword]
        dsimp only
        rw [Meaning.reception_of_no_word _ hword]
        by_cases haccepts : e.modifiers = .none ∨ meaning.accepts e.modifiers = true
        · rw [if_pos haccepts]
          exact executeModified_of_accepts m hcode hmeaning haccepts
        · rw [if_neg haccepts]
          exact executeModified_of_refuses m hcode haccepts
  · have hcharacter : t.isCode = false := by simpa using hcode
    rw [Context.reception, if_neg hcode]
    by_cases hwords : e.modifiers = .none
    · rw [if_pos hwords, dispatch_of_character hcharacter hwords]
      dsimp only
      rw [perform, meaningOf_bind, Context.meaning?_of_not_isCode _ hcharacter]
    · rw [if_neg hwords]
      by_cases hspace : t.cat = .space
      · rw [if_pos hspace]
        exact dispatch_of_space hspace hwords
      · rw [if_neg hspace, dispatch_of_misuse hcharacter hspace hwords]
        dsimp only
        rw [Engine.refusing, Engine.misuse, if_neg hcode]
        rfl

/-- A token which has been refused because of the words in front of it is executed without them. -/
theorem reception_of_refused {c : Context} (h : c.reception t words = .refused) : c.reception t .none = .obeyed := by
  unfold Context.reception at h ⊢
  split at h
  · next hcode =>
    rw [if_pos hcode]
    split at h
    · next meaning hmeaning =>
      have hword : ∀ id name word, meaning ≠ .primitive id name (.modifier word) := by
        rintro id name word rfl
        cases h
      exact (Meaning.reception_of_no_word _ hword).trans (if_pos (.inl rfl))
    · cases h
  · next hcode => rw [if_neg hcode, if_pos rfl]

end Dispatch

/-! ## Reading a token again -/

section Reading

variable {β σ ρ : Type} {e e' : Engine} {t : Token}

/-- A loop which comes to its end has had some fuel. -/
theorem iterate_pos [Inhabited β] {step : σ → Proc β (Turn σ ρ)} {fuel : Nat} {s : σ} {r : ρ}
    (h : iterate step fuel s e = .ok r e') : 0 < fuel := by
  cases fuel with
  | zero => cases h
  | succ fuel => exact Nat.succ_pos fuel

theorem iterate_of_done [Inhabited β] {step : σ → Proc β (Turn σ ρ)} {fuel : Nat} {s : σ} {r : ρ} (hfuel : 0 < fuel)
    (h : step s e = .ok (.done r) e') : iterate step fuel s e = .ok r e' := by
  obtain ⟨fuel, rfl⟩ : ∃ f, fuel = f + 1 := ⟨fuel - 1, by omega⟩
  rw [iterate]
  exact Proc.bind_ok h

theorem fuel_of_nextExpanded {n : Nat} (h : (machine n).nextExpanded e = .ok (some t) e') :
    ∃ k, n = k + 2 ∧ 0 < (machine k).fuel ∧ 0 < (machine (k + 1)).fuel := by
  cases n with
  | zero => cases h
  | succ n =>
    have hloop : iterate (fun _ => readExpandedStep (machine n)) (machine n).fuel () e = .ok (some t) e' := h
    obtain ⟨⟨⟩, e₁, hstep⟩ := iterate_ends hloop
    have hnext := (readExpandedStep_done hstep).1
    cases n with
    | zero => cases hnext
    | succ k => exact ⟨k, rfl, iterate_pos hnext, iterate_pos hloop⟩

/-- **A token which has been read can be read again.** It is unexpandable, and the same fuel is enough for it. -/
theorem nextExpanded_again {n : Nat} (h : (machine n).nextExpanded e = .ok (some t) e') {e₁ : Engine} {input : Input}
    (hcontext : e₁.context = e'.context) (hinput : e₁.input = input.pushTokens [t]) :
    (machine n).nextExpanded e₁ = .ok (some t) (e₁.withInput input) := by
  have hunexpandable := unexpandable_of_nextExpanded h
  obtain ⟨k, rfl, hfuel, hfuel'⟩ := fuel_of_nextExpanded h
  have hdelivers : Input.Delivers e₁.context.lexicon (input.pushTokens [t]) [t] input := input.delivers_pushTokens [t]
  obtain ⟨input', hpull, hrest⟩ := hdelivers
  obtain rfl : input' = input := hrest
  rw [← hinput] at hpull
  have hnext : (machine (k + 1)).next e₁ = .ok (some t) (e₁.withInput input') :=
    iterate_of_done hfuel (by simp [hpull, Engine.withInput])
  have hexpand : expand (machine (k + 1)) t (e₁.withInput input') = .ok false (e₁.withInput input') :=
    expand_unexpandable _ (by rwa [Engine.withInput_context, hcontext])
  have hstep : readExpandedStep (machine (k + 1)) e₁ = .ok (.done (some t)) (e₁.withInput input') :=
    (Proc.bind_ok (Proc.lift_ok hnext)).trans (Proc.bind_ok (Proc.leaving_eq_ok.2 hexpand))
  have hloop : iterate (fun _ => readExpandedStep (machine (k + 1))) (machine (k + 1)).fuel () e₁ =
      .ok (some t) (e₁.withInput input') := iterate_of_done hfuel' hstep
  exact hloop

end Reading

/-! ## Turns of the main loop -/

section Turns

variable {e e₀ e₁ : Engine} {m : Machine} {least : Nat} {t : Token}

theorem executeStep_of_read (hhalted : e₀.halted = false) (hdepth : least ≤ e₀.context.depth)
    (hread : m.nextExpanded e₀ = .ok (some t) e) :
    executeStep m least e₀ = (absorb m (dispatch m t) >>= fun _ => pure (.again ())) e := by
  unfold executeStep executeTurn
  rw [Proc.get_bind, if_neg (by simp [hhalted, hdepth])]
  exact Proc.bind_ok (Proc.lift_ok hread)

theorem absorb_ok {β : Type} {x : Proc β β} {b : β} (h : x e = .ok b e₁) : absorb m x e = .ok b e₁ := by
  unfold absorb
  rw [h]

/-- A procedure which works from one state as another one does from another state, with what comes after it. -/
theorem absorb_bind_congr {β γ : Type} {x y : Proc β β} (h : x e = y e₁) (f : β → Action γ) :
    (absorb m x >>= f) e = (absorb m y >>= f) e₁ := by
  have habsorb : absorb m x e = absorb m y e₁ := by
    unfold absorb
    rw [h]
  simp only [bind, EStateM.bind, habsorb]

/-- A problem which is passed over does not stop anything. -/
theorem Engine.Bears.absorb (h : e₁.Bears 1) {x : Action Unit} {d : Diagnostic} (hd : d.isFatal = false)
    (hx : x e = .error ⟨.diagnostic d, ()⟩ e₁) :
    ∃ e₂, Engine.Reported [d.kind] e₁ e₂ ∧ ∀ m, Compositor.absorb m x e = .ok () e₂ := by
  obtain ⟨e₂, hreported, hreport⟩ := h.report hd e₁.input
  have hinput : e₂.withInput e₁.input = e₂ := by rw [← hreported.input, Engine.withInput_self]
  rw [Engine.withInput_self, hinput] at hreport
  refine ⟨e₂, hreported, fun m => ?_⟩
  rw [Compositor.absorb, hx]
  exact Proc.bind_ok (hreport m)

end Turns

/-- In the state `e₀` the main loop reads the token `t`, which leads to the state `e`. Words are pending in front of it. -/
structure Receives (m : Machine) (least : Nat) (words : Modifiers) (t : Token) (e₀ e : Engine) : Prop where
  /-- A word joins the others. -/
  joins : ∀ word, e.context.reception t words = .joins word → executeStep m least e₀ = .ok (.again ()) (e.gathering t word)
  /-- Nothing is done with a space. -/
  passes : e.context.reception t words = .passes →
    executeStep m least e₀ = .ok (.again ()) (e.record (.dispatched t e.context.conditionals))
  /-- A command is executed with the words. The engine holds them no longer. -/
  obeyed : e.context.reception t words = .obeyed →
    executeStep m least e₀ = (absorb m (perform m t words) >>= fun _ => pure (.again ())) (e.dispatching t)
  /-- One error is reported for a token without a meaning. -/
  unknown : e.context.reception t words = .unknown →
    ((e.dispatching t).record (.stopped (e.undefinedToken t))).Bears 1 →
    ∃ e₁, executeStep m least e₀ = .ok (.again ()) e₁ ∧
      Engine.Reported [.undefinedControlSequence] ((e.dispatching t).record (.stopped (e.undefinedToken t))) e₁
  /-- One error is reported for a command to which the words do not belong. The next turn executes it without them, unless
  a handler had the run end while the token was read. -/
  refused : e.context.reception t words = .refused → (e.refusing t).Bears 1 →
    ∃ e₁, executeStep m least e₀ = .ok (.again ()) e₁ ∧ Engine.Reported [.cantUseModifier] (e.refusing t) e₁ ∧
      (e.halted = false → executeStep m least e₁ =
        (absorb m (perform m t .none) >>= fun _ => pure (.again ())) ((e₁.withInput e.input).dispatching t))

theorem refusing_bears {e : Engine} (t : Token) (h : e.handler.GoesOn e.context)
    (hlimit : (e.errorCount + 1 : Nat) ≤ e.settings.maxErrors) : (e.refusing t).Bears 1 :=
  Handler.GoesOn.bears (e := e.refusing t) h hlimit

theorem receives {n least : Nat} {t : Token} {e₀ e : Engine} (hhalted : e₀.halted = false) (hdepth : least ≤ e₀.context.depth)
    (hread : (machine n).nextExpanded e₀ = .ok (some t) e) : Receives (machine n) least e.modifiers t e₀ e := by
  have hturn := executeStep_of_read hhalted hdepth hread
  have hdispatch := dispatch_eq (machine n) e t
  refine ⟨fun word h => ?_, fun h => ?_, fun h => ?_, fun h hbears => ?_, fun h hbears => ?_⟩ <;> rw [h] at hdispatch
  · exact hturn.trans (Proc.bind_ok (absorb_ok hdispatch))
  · exact hturn.trans (Proc.bind_ok (absorb_ok hdispatch))
  · exact hturn.trans (absorb_bind_congr hdispatch _)
  · obtain ⟨e₁, hreported, habsorb⟩ := hbears.absorb rfl hdispatch
    exact ⟨e₁, hturn.trans (Proc.bind_ok (habsorb (machine n))), hreported⟩
  · obtain ⟨e₁, hreported, habsorb⟩ := hbears.absorb rfl hdispatch
    refine ⟨e₁, hturn.trans (Proc.bind_ok (habsorb (machine n))), hreported, fun hgoing => ?_⟩
    -- nothing but the records of errors has changed, so the token is read again, and now there are no words in front of it
    let R : Regime := ⟨False, .scanning, True⟩
    have hmeets : Meets R (machine n).nextExpanded fun x => ∀ t ∈ x, R.Admits t := (machine_sound n).nextExpanded
    have hscan : Course R.strict R.level none e₀ e := ((hmeets e₀ False.elim).ok hread).1
    have hcontext : e₁.context = e.context := hreported.context
    have hhalted₁ : e₁.halted = false := hreported.halted.trans hgoing
    have hdepth₁ : least ≤ e₁.context.depth := by rwa [hcontext, hscan.depth_eq rfl]
    have hagain : (machine n).nextExpanded e₁ = .ok (some t) (e₁.withInput e.input) :=
      nextExpanded_again hread hcontext hreported.input
    have hwords : (e₁.withInput e.input).modifiers = .none := hreported.modifiers
    have hdispatch₁ := dispatch_eq (machine n) (e₁.withInput e.input) t
    rw [Engine.withInput_context, hcontext, hwords, reception_of_refused h] at hdispatch₁
    exact (executeStep_of_read hhalted₁ hdepth₁ hagain).trans (absorb_bind_congr hdispatch₁ _)

end Compositor
