import Compositor.Proofs.Engine.Working

/-!
# Runs as courses

All machines are sound (`machine_sound`), whatever their fuel is. So a run takes a course from its first command to the
point where it ends or is stopped; `Outcome` lists the ways in which that can happen, and `run_outcome` says that there is
no other one. What is proved about courses holds of runs by cases on the outcome. Between runs, primitives may be installed
(`Engine.install_preserves`).
-/

namespace Compositor

/-- **All machines are sound.** -/
theorem machine_sound (n : Nat) : (machine n).Sound := by
  induction n with
  | zero => exact Machine.sound_stuck
  | succ n ih =>
    exact {
      next := meets_readToken ih
      next_stops := readToken_stops
      nextExpanded := meets_readExpanded ih
      number := meets_number ih
      expandOnce := meets_expandOnce ih
      execute := meets_executeWhile ih }

namespace Engine

/-- There is a typesetter, and something to read from. -/
def Ready (e : Engine) : Prop := e.hasTypesetter = true ∧ e.hasStreams = true

def begin (e : Engine) : Engine := { e with halted := false, errorCount := 0 }

/-- The engine at the end of a run which was not stopped. -/
def conclude (e : Engine) : Engine :=
  { e with
    context := { e.context with conditionals := [] }
    typesetter := e.typesetter.finish
    hasOutput := true }

/-- There is nothing to read from, unless the handler has been asked about open groups in the meantime. -/
def Drained (e e' : Engine) : Prop :=
  e'.input = [] ∨ ∃ d new, d.kind = .unbalancedEnd ∧ e'.trace = new ++ e.trace ∧ .consulted d ∈ new

end Engine

/-- How a run comes to an end. -/
inductive Outcome (strict : Prop) (e : Engine) : EStateM.Result (Interrupted Unit) Engine Unit → Prop where
  /-- There is no typesetter, or nothing that could be read. -/
  | unprepared {d : Diagnostic} (he : ¬ e.Ready)
      (hd : d.kind = .noTypesetter ∨ d.kind = .noStreams) :
      Outcome strict e (.error ⟨.diagnostic d, ()⟩ (e.record (.stopped d)))
  /-- The execution of the input is stopped. -/
  | stopped {s : Stop} {e₁ : Engine} (h : Course strict .working (some s) e.begin e₁) (hs : s.IsFinal) :
      Outcome strict e (.error ⟨s, ()⟩ e₁.clearInput)
  /-- The report that groups are still open stops the run. -/
  | unclosed {s : Stop} {e₁ e₂ : Engine} (h : Course strict .working none e.begin e₁)
      (hreport : Course strict .working (some s) e₁.clearInput e₂) (hs : s.IsFinal) (hinput : e₁.Drained e₂) :
      Outcome strict e (.error ⟨s, ()⟩ e₂)
  | ended {e₁ e₂ : Engine} (h : Course strict .working none e.begin e₁)
      (hreport : Course strict .working none e₁.clearInput e₂) (hinput : e₁.Drained e₂) :
      Outcome strict e (.ok () e₂.conclude)

theorem clearInput_proper {e : Engine} (he : e.Proper) : e.clearInput.Proper :=
  ⟨fun _ _ hmem => (List.not_mem_nil hmem).elim, he.context⟩

/-- Only the handler can bring something to read while open groups are reported. -/
theorem reportHere_drained (n : Nat) (e : Engine) (arguments : List Argument) :
    e.Drained (finalState (reportHere (machine n) .unbalancedEnd arguments e.clearInput)) := by
  let d : Diagnostic := { kind := .unbalancedEnd, place := e.clearInput.locator, arguments }
  have hreport : reportHere (machine n) .unbalancedEnd arguments e.clearInput = report (machine n) d e.clearInput := rfl
  have hrecoverable : d.isFatal = false := rfl
  rw [hreport]
  rcases Int.lt_or_le e.clearInput.settings.maxErrors (e.clearInput.errorCount + 1 : Nat) with hcount | hcount
  · rw [report_of_excess hrecoverable hcount]
    exact .inl rfl
  · let R : Regime := ⟨False, .working, True⟩
    have hproper : R.strict → e.clearInput.Proper := False.elim
    obtain ⟨o, hcourse⟩ := (attains_consulted (machine_sound n) hrecoverable hcount hproper).course
    obtain ⟨later, htrace⟩ := hcourse.trace_suffix
    let d' := e.clearInput.phrase d
    refine .inr ⟨d', later ++ [.consulted d', .reported d'], rfl, ?_, by simp⟩
    rw [← htrace, List.append_assoc]
    rfl

theorem isFatal_of_unprepared {d : Diagnostic} (hd : d.kind = .noTypesetter ∨ d.kind = .noStreams) : d.isFatal = true := by
  rcases hd with hd | hd <;> simp [Diagnostic.isFatal, hd, Kind.isFatal, Kind.number]

theorem run_of_not_ready (n : Nat) {e : Engine} (he : ¬ e.Ready) :
    ∃ d : Diagnostic, (d.kind = .noTypesetter ∨ d.kind = .noStreams) ∧
      run (machine n) e = .error ⟨.diagnostic d, ()⟩ (e.record (.stopped d)) := by
  by_cases htypesetter : e.hasTypesetter = true
  · have hstreams : ¬ e.hasStreams = true := fun hstreams => he ⟨htypesetter, hstreams⟩
    refine ⟨{ kind := .noStreams }, .inr rfl, ?_⟩
    simp only [run, Proc.get_bind]
    rw [if_neg (by simpa using htypesetter), if_pos (by simpa using hstreams)]
    rfl
  · refine ⟨{ kind := .noTypesetter }, .inl rfl, ?_⟩
    simp only [run, Proc.get_bind]
    rw [if_pos (by simpa using htypesetter)]
    rfl

/-- **Every run ends in one of the listed ways.** -/
theorem run_outcome (n : Nat) {strict : Prop} {e : Engine} (he : strict → e.Proper) :
    Outcome strict e (run (machine n) e) := by
  have hm := machine_sound n
  let R : Regime := ⟨strict, .working, True⟩
  by_cases hready : e.Ready
  swap
  · obtain ⟨d, hd, hrun⟩ := run_of_not_ready n hready
    rw [hrun]
    exact .unprepared hready hd
  have hexecute : MeetsAt R ((machine n).execute 0) (fun _ => True) e.begin :=
    hm.execute rfl 0 e.begin fun hs => (he hs).of_eq rfl rfl
  have hrun : run (machine n) e = (do
      discard (Proc.onStop ((machine n).execute 0) Engine.clearInput)
      modify Engine.clearInput
      let depth := (← context).depth
      if depth > 0 then reportHere (machine n) .unbalancedEnd [.number depth]
      modifyContext fun c => { c with conditionals := [] }
      modify fun e => { e with typesetter := e.typesetter.finish, hasOutput := true } : Action Unit) e.begin := by
    simp only [run, Proc.get_bind]
    rw [if_neg (by simpa using hready.1), if_neg (by simpa using hready.2)]
    rfl
  rw [hrun]
  -- the run is stopped in the main loop, or in the report that groups are still open at its end, or not at all
  cases h : (machine n).execute 0 e.begin with
  | error i e₁ =>
    obtain ⟨hcourse, hfinal⟩ := hexecute.error h
    have hstop : discard (Proc.onStop ((machine n).execute 0) Engine.clearInput) e.begin = .error i e₁.clearInput := by
      simp only [discard, Functor.mapConst, EStateM.map, Proc.onStop, h, Function.comp_apply]
    rw [Proc.bind_error hstop]
    exact .stopped hcourse (hfinal trivial)
  | ok ended e₁ =>
    obtain ⟨hcourse, -⟩ := hexecute.ok h
    have hproper : strict → e₁.clearInput.Proper :=
      fun hs => clearInput_proper (hcourse.proper hs ((he hs).of_eq rfl rfl))
    have hok : discard (Proc.onStop ((machine n).execute 0) Engine.clearInput) e.begin = .ok () e₁ := by
      simp only [discard, Functor.mapConst, EStateM.map, Proc.onStop, h, Function.comp_apply]
    rw [Proc.bind_ok hok]
    simp only [Proc.modify_bind, Proc.context_bind]
    split
    · have hinput := reportHere_drained n e₁ [.number e₁.clearInput.context.depth]
      have hreport : MeetsAt R (reportHere (machine n) .unbalancedEnd [.number e₁.clearInput.context.depth])
          (fun _ => True) e₁.clearInput := meets_reportHere hm _ (by simp) e₁.clearInput hproper
      cases hr : reportHere (machine n) .unbalancedEnd [.number e₁.clearInput.context.depth] e₁.clearInput with
      | error i e₂ =>
        rw [hr] at hinput
        rw [Proc.bind_error hr]
        exact .unclosed hcourse (hreport.error hr).1 ((hreport.error hr).2 trivial) hinput
      | ok u e₂ =>
        rw [hr] at hinput
        rw [Proc.bind_ok hr]
        exact .ended hcourse (hreport.ok hr).1 hinput
    · exact .ended hcourse (.refl _) (.inl rfl)

/-- A file is looked for and put in front of the input. If this does not end the attempt, there is a run. -/
theorem finalState_runFile (n : Nat) (name : String) (strict : Prop) {e : Engine} (he : strict → e.Proper) :
    ∃ o e₁, Course strict .working o e e₁ ∧
      (finalState (runFile (machine n) name e) = e₁ ∨
        finalState (runFile (machine n) name e) = finalState (run (machine n) e₁)) := by
  have hpush : MeetsAt (.command strict) (pushFile name) (fun _ => True) e := works_pushFile name e he
  simp only [runFile, Proc.get_bind]
  split
  · cases hfile : pushFile name e with
    | ok u e₁ => exact ⟨none, e₁, (hpush.ok hfile).1, .inr (by rw [Proc.bind_ok hfile])⟩
    | error i e₁ => exact ⟨some i.cause, e₁, (hpush.error hfile).1, .inl (by rw [Proc.bind_error hfile]; rfl)⟩
  · exact ⟨none, e, .refl e, .inr rfl⟩

/-! ## Installed primitives -/

namespace Engine

variable {P : Engine → Prop} {e e' : Engine}

theorem installOne_preserves {d : Declaration} (hbind : ∀ p, d.build = .ok p → P (e.bind d.name fun id => .primitive id d.name p))
    (hdefault : ∀ e v, P e → P (e.setDefault d.name v)) (h : e.installOne d = .ok e') : P e' := by
  unfold installOne at h
  cases hbuild : d.build with
  | error fault =>
    rw [hbuild] at h
    cases h
  | ok p =>
    have hbound := hbind p hbuild
    cases hvalue : d.default? with
    | error fault =>
      rw [hbuild, hvalue] at h
      cases h
    | ok v =>
      rw [hbuild, hvalue] at h
      cases v with
      | none =>
        cases h
        exact hbound
      | some v =>
        cases h
        exact hdefault _ v hbound

/-- What holds of an engine whatever declared primitive it gets, and whatever register is set, holds after primitives have been
installed. -/
theorem install_preserves {ds : List Declaration}
    (hbind : ∀ d ∈ ds, ∀ p, d.build = .ok p → ∀ e, P e → P (e.bind d.name fun id => .primitive id d.name p))
    (hdefault : ∀ e name v, P e → P (e.setDefault name v)) (h : e.install ds = .ok e') (he : P e) : P e' := by
  induction ds generalizing e with
  | nil =>
    cases h
    exact he
  | cons d ds ih =>
    rw [install, List.foldlM_cons] at h
    cases hone : e.installOne d with
    | error fault =>
      rw [hone] at h
      cases h
    | ok e₁ =>
      rw [hone] at h
      have hinstalled : P e₁ :=
        installOne_preserves (fun p hp => hbind d (by simp) p hp e he) (fun e v => hdefault e d.name v) hone
      exact ih (fun d hd => hbind d (by simp [hd])) h hinstalled

end Engine

end Compositor
