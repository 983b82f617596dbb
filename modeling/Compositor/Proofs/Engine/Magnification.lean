import Compositor.Proofs.Engine.Deeds
import Compositor.Proofs.Engine.Refusal
import Compositor.Proofs.Engine.Shelter

/-!
# The magnification

A length in true units is not magnified, so the magnification has to be final once such a length has been scanned: it is
locked then. Nothing unlocks it, and an attempt to change it ends the run.

* `Context.LockedAt.undergo` says that no deed changes a locked magnification;
* `absoluteUnit_locks` says that a true unit locks it;
* `Context.SameQuantities` is what scanners leave alone, the magnification and all registers among it: it lies across each of
  their changes (`KeptByScanners`);
* `magnification_final` is the statement about all states which come later.
-/

namespace Compositor

/-! ## The lock -/

namespace Context

/-- The magnification is locked at this value. -/
def LockedAt (c : Context) (v : Int64) : Prop := c.magnification = v ∧ c.magnificationLocked = true

variable {c c' : Context} {v w : Int64} {lock : Bool}

theorem setMagnification_illegal_iff :
    c.setMagnification v lock = .error .illegal ↔ v < 1 ∨ v > c.maxMagnification := by
  unfold setMagnification
  split
  · rename_i hrange
    simp [hrange]
  · rename_i hrange
    split <;> simp [hrange]

theorem setMagnification_incompatible_iff :
    c.setMagnification v lock = .error .incompatible ↔
      (1 ≤ v ∧ v ≤ c.maxMagnification) ∧ c.magnificationLocked = true ∧ v ≠ c.magnification := by
  have hrange : ¬ (v < 1 ∨ v > c.maxMagnification) ↔ 1 ≤ v ∧ v ≤ c.maxMagnification := by
    simp only [not_or, Int64.not_lt, gt_iff_lt]
  unfold setMagnification
  split
  · simp only [← hrange]
    simp_all
  · split <;> simp_all

theorem setMagnification_lockedAt (h : c.setMagnification v true = .ok c') : c'.LockedAt v := by
  rw [setMagnification_eq h]
  exact ⟨rfl, Bool.or_true _⟩

theorem LockedAt.setMagnification (h : c.LockedAt v) (hset : c.setMagnification w lock = .ok c') : c'.LockedAt v := by
  have hcompatible : ¬ c.setMagnification w lock = .error .incompatible := by
    rw [hset]
    exact nofun
  have hlegal : ¬ c.setMagnification w lock = .error .illegal := by
    rw [hset]
    exact nofun
  rw [setMagnification_illegal_iff] at hlegal
  simp only [not_or, gt_iff_lt, Int64.not_lt] at hlegal
  rw [setMagnification_incompatible_iff, h.1] at hcompatible
  have hw : w = v := by
    by_contra hne
    exact hcompatible ⟨hlegal, h.2, hne⟩
  rw [setMagnification_eq hset]
  exact ⟨hw, by simp [h.2]⟩

theorem Regroups.lockedAt (h : c.Regroups c') (hc : c.LockedAt v) : c'.LockedAt v := by
  obtain ⟨_, _, _, _, rfl⟩ := h
  exact hc

/-- **No deed changes a locked magnification.** -/
theorem LockedAt.undergo (h : c.LockedAt v) (d : Deed) : (c.undergo d).LockedAt v := by
  cases d with
  | operate op => exact (c.regroups_apply op).lockedAt h
  | set k w globally => exact (c.regroups_set k w globally).lockedAt h
  | afterGroupToken t => exact (c.regroups_afterGroupToken t).lockedAt h
  | afterGroupNotice label => exact (c.regroups_afterGroupNotice label).lockedAt h
  | setCalendar m => exact (c.regroups_setCalendar m).lockedAt h
  | setMaxMagnification max =>
    simp only [Context.undergo, setMaxMagnification]
    split <;> exact h
  | setMagnification w lock =>
    simp only [Context.undergo]
    cases hset : c.setMagnification w lock with
    | ok c' => exact h.setMagnification hset
    | error fault => exact h
  | _ => exact h

theorem Undergoes.lockedAt (h : c.Undergoes c') (hc : c.LockedAt v) : c'.LockedAt v := by
  obtain ⟨ds, rfl⟩ := h
  induction ds generalizing c with
  | nil => exact hc
  | cons d ds ih => exact ih (hc.undergo d)

end Context

/-! ## What scanners leave alone -/

/-- The magnification and its bound, and all count registers are the same. -/
structure Context.SameNumbers (c c' : Context) : Prop where
  magnification : c'.magnification = c.magnification
  maxMagnification : c'.maxMagnification = c.maxMagnification
  count : ∀ name, c'.count name = c.count name

/-- Scanners do not assign the slot. Meanings they do assign, and the interaction mode. -/
def Slot.isSteady : Slot → Bool
  | .key (.meaning _) | .interaction => false
  | _ => true

/-- The magnification and its bound, and all that is shown by slots which scanners do not assign, are the same. -/
structure Context.SameQuantities (c c' : Context) : Prop where
  magnification : c'.magnification = c.magnification
  maxMagnification : c'.maxMagnification = c.maxMagnification
  read : ∀ s, s.isSteady = true → c'.read s = c.read s

section Scanning

variable {strict : Prop} {l : Level} {o : Option Stop} {e e₁ e' : Engine}

theorem Context.SameNumbers.trans {c c₁ c' : Context} (h : c.SameNumbers c₁) (h' : c₁.SameNumbers c') : c.SameNumbers c' :=
  ⟨h'.magnification.trans h.magnification, h'.maxMagnification.trans h.maxMagnification,
    fun name => (h'.count name).trans (h.count name)⟩

namespace Context.SameQuantities

variable {c c₁ c' : Context}

theorem refl (c : Context) : c.SameQuantities c := ⟨rfl, rfl, fun _ _ => rfl⟩

theorem trans (h : c.SameQuantities c₁) (h' : c₁.SameQuantities c') : c.SameQuantities c' :=
  ⟨h'.magnification.trans h.magnification, h'.maxMagnification.trans h.maxMagnification,
    fun s hs => (h'.read s hs).trans (h.read s hs)⟩

theorem assign (c : Context) {s : Slot} (hs : s.isSteady = false) (v : s.Value) (globally : Bool) :
    c.SameQuantities (c.assign s v globally) := by
  have hregroups := c.regroups_assign s v globally
  refine ⟨?_, ?_, fun s' hs' => ?_⟩
  · obtain ⟨_, _, _, _, heq⟩ := hregroups
    rw [heq]
  · obtain ⟨_, _, _, _, heq⟩ := hregroups
    rw [heq]
  · have hne : s' ≠ s := by
      rintro rfl
      rw [hs] at hs'
      cases hs'
    rw [c.read_assign s v globally, Function.update_of_ne hne]

theorem count (h : c.SameQuantities c') (name : String) : c'.count name = c.count name :=
  h.read (.key (.count name)) rfl

theorem dimen (h : c.SameQuantities c') (name : String) : c'.dimen name = c.dimen name :=
  h.read (.key (.dimen name)) rfl

theorem glue (h : c.SameQuantities c') (name : String) : c'.glue name = c.glue name :=
  h.read (.key (.glue name)) rfl

theorem sameNumbers (h : c.SameQuantities c') : c.SameNumbers c' := ⟨h.magnification, h.maxMagnification, h.count⟩

end Context.SameQuantities

/-- The relation lies between a context and what it is after each of the changes which scanners make. -/
structure KeptByScanners (R : Context → Context → Prop) : Prop where
  refl : ∀ c, R c c
  trans : ∀ {c c₁ c'}, R c c₁ → R c₁ c' → R c c'
  relax : ∀ c t id, c.meaning t = none → R c (c.setMeaning t (some (.primitive id "relax" (.command .relax))) false)
  mode : ∀ c mode, R c (c.setInteraction mode true)
  lock : ∀ c locked, R c { c with magnificationLocked := locked }
  conditionals : ∀ c ks, R c { c with conditionals := ks }

variable {R : Context → Context → Prop}

theorem ScanStep.keeps_context (h : ScanStep strict e e') (hR : KeptByScanners R) : R e.context e'.context := by
  cases h with
  | endBranch => exact hR.conditionals _ _
  | defineRelax h => exact hR.relax _ _ _ h
  | lockMagnification h =>
    rw [Context.setMagnification_eq h]
    exact hR.lock _ _
  | setInteraction => exact hR.mode _ _
  | pushText text source =>
    rw [e.pushText_context]
    exact hR.refl _
  | _ => exact hR.refl _

/-- **What every change of a scanner keeps of the context is kept by whole courses.** -/
theorem Course.keeps_context (h : Course strict l o e e') (hl : l = .scanning) (hR : KeptByScanners R) :
    R e.context e'.context := by
  induction h with
  | refl => exact hR.refl _
  | scan _ hscan ih => exact hR.trans (ih hl) (hscan.keeps_context hR)
  | work hl' | box hl' => cases hl.symm.trans hl'
  | exhausted _ ih => exact ih hl
  | stop _ _ ih | restore _ _ ih | refuse _ _ _ ih | exceed _ _ _ _ ih | consult _ _ _ _ ih | answer _ _ _ ih
  | dismiss _ _ _ _ ih | say _ _ _ ih | consent _ ih | decline _ _ ih => exact ih hl
  | forgive _ _ _ _ _ _ ih ih' => exact hR.trans (ih hl) (ih' hl)
  | decide _ _ _ ih ih' | branch _ _ _ _ ih ih' =>
    exact hR.trans (ih hl) (hR.trans (hR.conditionals _ _) (hR.trans (ih' rfl) (hR.conditionals _ _)))

/-- **Scanners leave the magnification and all registers alone.** -/
theorem Course.sameQuantities (h : Course strict l o e e') (hl : l = .scanning) : e.context.SameQuantities e'.context :=
  h.keeps_context hl
    { refl := .refl
      trans := .trans
      relax := fun c t _ _ => .assign c (s := .key (.meaning t)) rfl _ false
      mode := fun c mode => .assign c (s := .interaction) rfl mode true
      lock := fun _ _ => ⟨rfl, rfl, fun _ _ => rfl⟩
      conditionals := fun _ _ => ⟨rfl, rfl, fun _ _ => rfl⟩ }

theorem Course.sameNumbers (h : Course strict l o e e') (hl : l = .scanning) : e.context.SameNumbers e'.context :=
  (h.sameQuantities hl).sameNumbers

theorem Course.errorCount_le (h : Course strict l o e e') : e.errorCount ≤ e'.errorCount := by
  induction h with
  | refl => exact le_rfl
  | scan _ hstep ih => exact ih.trans hstep.sameRun.errorCount.ge
  | work _ _ hstep ih => exact ih.trans hstep.sameRun.errorCount.ge
  | exhausted _ ih => exact ih
  | stop _ _ ih | restore _ _ ih | refuse _ _ _ ih | answer _ _ _ ih | dismiss _ _ _ _ ih | say _ _ _ ih | consent _ ih
  | decline _ _ ih => exact ih
  | exceed _ _ _ _ ih | consult _ _ _ _ ih => exact ih.trans (Nat.le_succ _)
  | forgive _ _ _ _ _ _ ih ih' => exact ih.trans ih'
  | decide _ _ _ ih ih' => exact ih.trans ih'
  | branch _ _ _ _ ih ih' => exact ih.trans ih'
  | box _ _ _ _ _ ih ih' => exact ih.trans ih'

end Scanning

/-! ## True units -/

section Units

variable {n : Nat} {e e₁ e' : Engine}

/-- After a report the run goes on with one error more. -/
theorem report_counts {d : Diagnostic} (h : report (machine n) d e = .ok () e') : e.errorCount < e'.errorCount := by
  by_cases hfatal : d.isFatal = true
  · cases (report_of_fatal hfatal e).symm.trans h
  · have hrecoverable : d.isFatal = false := by simpa using hfatal
    rcases Int.lt_or_le e.settings.maxErrors (e.errorCount + 1 : Nat) with hcount | hcount
    · cases (report_of_excess hrecoverable hcount).symm.trans h
    · have hconsulted : Attains Regime.reading (fun _ => True) _ (report (machine n) d e) :=
        attains_consulted (machine_sound n) hrecoverable hcount False.elim
      rw [h] at hconsulted
      exact Nat.lt_of_succ_le hconsulted.1.errorCount_le

def Engine.magnificationProblem (e : Engine) (fault : MagnificationFault) (v : Int64) : Diagnostic :=
  match fault with
  | .illegal =>
    { kind := .illegalMagnification, place := e.locator,
      arguments := [.number v.toInt, .number e.settings.maxMagnification.toInt] }
  | .incompatible =>
    { kind := .incompatibleMagnification, place := e.locator,
      arguments := [.number v.toInt, .number e.context.magnification.toInt] }

theorem reportMagnification_eq (m : Machine) (fault : MagnificationFault) (v : Int64) (e : Engine) :
    reportMagnification m fault v e = report m (e.magnificationProblem fault v) e := by
  cases fault <;> rfl

theorem absoluteUnit_locks {whole part : Int64} {d : Measure.Dimen} (htrue : keyword (machine n) "true" e = .ok true e₁)
    (hunit : absoluteUnit (machine n) whole part e = .ok d e') (herrors : e'.errorCount = e.errorCount) :
    e'.context.LockedAt e.context.magnification := by
  have hkeyword : Course False .scanning none e e₁ :=
    ((meets_keyword (R := Regime.reading.loose) (machine_sound n) "true" e False.elim).ok htrue).1
  have hlift : (monadLift (keyword (machine n) "true") : Action Bool) e = .ok true e₁ := Proc.lift_ok htrue
  rw [absoluteUnit, Proc.bind_ok hlift, if_pos rfl, Proc.context_bind] at hunit
  cases hset : e₁.context.setMagnification e₁.context.magnification true with
  | ok locked =>
    simp only [hset] at hunit
    have hlength := (meets_physicalLength (R := Regime.reading.loose) (machine_sound n) whole part e₁.context.magnification
      { e₁ with context := locked } False.elim).ok hunit
    rw [← (hkeyword.sameNumbers rfl).magnification]
    exact hlength.1.undergoes.lockedAt (Context.setMagnification_lockedAt hset)
  | error fault =>
    simp only [hset] at hunit
    -- the problem has been reported, which is against the assumption that there was no error
    have hcounts : e₁.errorCount < e'.errorCount := by
      cases hreport : reportMagnification (machine n) fault e₁.context.magnification e₁ with
      | ok u e₂ =>
        cases (Proc.bind_ok hreport).symm.trans hunit
        rw [reportMagnification_eq] at hreport
        exact report_counts hreport
      | error i e₂ => cases (Proc.bind_error hreport).symm.trans hunit
    have hle := hkeyword.errorCount_le
    omega

end Units

/-! ## Assignments of the magnification -/

section Assignments

variable {n : Nat} {e e₁ : Engine} {v : Int64}

/-- A new value of the magnification has been scanned. -/
def Scans (n : Nat) (e : Engine) (v : Int64) (e₁ : Engine) : Prop :=
  (do optionalEquals (machine n); (machine n).number : Action Int64) e = .ok v e₁

theorem Scans.course (h : Scans n e v e₁) : Course False .scanning none e e₁ := by
  have hm := machine_sound n
  have hscan : Meets Regime.reading.loose (do optionalEquals (machine n); (machine n).number : Action Int64)
      fun _ => True := (meets_optionalEquals hm).bind fun _ _ => hm.number.lift
  exact ((hscan e False.elim).ok h).1

theorem Scans.assign_eq (h : Scans n e v e₁) {fault : MagnificationFault}
    (hset : e₁.context.setMagnification v false = .error fault) (name : String) (globally : Bool) :
    assignMagnification (machine n) name globally e = report (machine n) (e₁.magnificationProblem fault v) e₁ := by
  have hsplit : assignMagnification (machine n) name globally =
      (do optionalEquals (machine n); (machine n).number : Action Int64) >>= _ := (bind_assoc _ _ _).symm
  rw [hsplit, Proc.bind_ok h, Proc.context_bind]
  simp only [hset]
  exact reportMagnification_eq _ fault v e₁

/-- Another value within bounds stops the assignment of a locked magnification for good. -/
theorem Scans.incompatible (h : Scans n e v e₁) {w : Int64} (hlocked : e.context.LockedAt w) (hne : v ≠ w)
    (hrange : 1 ≤ v ∧ v ≤ e.context.maxMagnification) (name : String) (globally : Bool) :
    let d := e₁.phrase (e₁.magnificationProblem .incompatible v)
    assignMagnification (machine n) name globally e = .error ⟨.diagnostic d, ()⟩ (e₁.refuse d) := by
  have hsame := h.course.sameNumbers rfl
  have hlocked₁ : e₁.context.LockedAt w := h.course.undergoes.lockedAt hlocked
  have hset : e₁.context.setMagnification v false = .error .incompatible := by
    rw [Context.setMagnification_incompatible_iff, hsame.maxMagnification, hlocked₁.1]
    exact ⟨hrange, hlocked₁.2, hne⟩
  rw [h.assign_eq hset]
  exact report_of_fatal rfl e₁

theorem Scans.illegal (h : Scans n e v e₁) (hrange : v < 1 ∨ v > e.context.maxMagnification) (name : String)
    (globally : Bool) :
    assignMagnification (machine n) name globally e =
      report (machine n) (e₁.magnificationProblem .illegal v) e₁ := by
  rw [← (h.course.sameNumbers rfl).maxMagnification] at hrange
  exact h.assign_eq (Context.setMagnification_illegal_iff.2 hrange) name globally

theorem report_sameNumbers {d : Diagnostic} (hd : Raises False d none) (e : Engine) :
    e.context.SameNumbers (finalState (report (machine n) d e)).context := by
  have hreport := attains_report (R := .reading) (machine_sound n) (.refl e) hd False.elim
  obtain ⟨o, hcourse⟩ := hreport.course
  exact hcourse.sameNumbers rfl

end Assignments

/-! ## Runs -/

section Runs

variable {strict : Prop} {l : Level} {o : Option Stop} {e e' : Engine}

/-- Nothing is forgotten but a refusal or an error too many. -/
def TraceEntry.IsPardonable : TraceEntry → Prop
  | forgiven d => d.kind = .aborted ∨ d.kind = .errorLimit
  | _ => True

theorem Notes.pardonable {new : List TraceEntry} (h : Notes strict e new) : ∀ entry ∈ new, entry.IsPardonable := by
  cases h <;> simp [TraceEntry.IsPardonable]

theorem Course.pardons (h : Course strict l o e e') : e.Extends TraceEntry.IsPardonable e' := by
  induction h with
  | refl => exact .of_eq rfl
  | scan _ hstep ih => exact ih.trans (.of_eq hstep.trace_eq)
  | work _ _ hstep ih =>
    obtain ⟨new, hnotes, heq⟩ := hstep.notes
    exact ih.trans ⟨new, heq, hnotes.pardonable⟩
  | exhausted _ ih | restore _ _ ih => exact ih
  | stop _ _ ih | answer _ _ _ ih | say _ _ _ ih | consent _ ih => exact ih.trans (.of_cons rfl trivial)
  | refuse _ _ _ ih | exceed _ _ _ _ ih | consult _ _ _ _ ih | dismiss _ _ _ _ ih | decline _ _ ih =>
    exact ih.trans ⟨[_, _], rfl, by simp [TraceEntry.IsPardonable]⟩
  | @forgive l e e₁ e₂ d line script n _ _ _ _ _ hd ih ih' =>
    have hanswer : e.Extends TraceEntry.IsPardonable (e₁.hear (.delete n) script) := ih.trans (.of_cons rfl trivial)
    exact (hanswer.trans ih').trans (.of_cons rfl hd)
  | decide _ _ _ ih ih' => exact ih.trans ih'
  | branch _ _ _ _ ih ih' => exact ih.trans ih'
  | box _ _ _ _ _ ih ih' => exact ih.trans ih'

theorem Outcome.pardons {r : EStateM.Result (Interrupted Unit) Engine Unit} (h : Outcome strict e r) :
    e.Extends TraceEntry.IsPardonable (finalState r) := by
  cases h with
  | unprepared => exact .of_cons rfl trivial
  | stopped h => exact h.pardons
  | unclosed h hreport => exact h.pardons.trans hreport.pardons
  | ended h hreport => exact h.pardons.trans hreport.pardons

/-- A fatal problem ends the run, unless it is a refusal or an error too many. -/
theorem run_ends_with (n : Nat) (e : Engine) {k : Kind} (hfatal : k.isFatal = true) (haborted : k ≠ .aborted)
    (hlimit : k ≠ .errorLimit) :
    ∃ new, (finalState (run (machine n) e)).trace = new ++ e.trace ∧
      ∀ d, .stopped d ∈ new → d.kind = k → ∃ d', stopOf (run (machine n) e) = some (.diagnostic d') ∧ d'.kind = k := by
  have houtcome : Outcome False e (run (machine n) e) := run_outcome n False.elim
  obtain ⟨new, htrace, hnew⟩ := houtcome.concludes
  obtain ⟨new', htrace', hpardons⟩ := houtcome.pardons
  obtain rfl : new' = new := List.append_cancel_right (htrace'.symm.trans htrace)
  refine ⟨new', htrace, fun d hmem hd => ?_⟩
  obtain ⟨later, earlier, rfl⟩ := List.append_of_mem hmem
  rcases hnew later _ earlier rfl (by rw [Diagnostic.isFatal, hd]; exact hfatal) with hends | hforgotten
  · rw [hd] at hends
    exact hends.2
  · obtain ⟨rest, d', closing, rfl, hd', -⟩ := hforgotten
    have hpardoned : d'.kind = .aborted ∨ d'.kind = .errorLimit := hpardons (.forgiven d') (by simp)
    rw [hd', hd] at hpardoned
    exact (hpardoned.elim haborted hlimit).elim

end Runs

/-! ## The main statement -/

/-- **A locked magnification is final.** Once it has been set with a lock, or a true unit has been scanned without an error,
it is the same in all states which come later, whatever is done to the context and whatever is run. A magnification is
refused if it is out of bounds, or if another one is locked, and nothing changes then. The command which assigns it stops
with a fatal problem if another value within bounds is locked, and the run ends with this problem; a value out of bounds
is reported as a problem which the run can go on after. Either way the magnification and the count registers stay as they
are. The number `n` bounds how far the command and the run are followed. -/
theorem magnification_final (n : Nat) :
    (∀ (e : Engine) c v, e.context.setMagnification v true = .ok c →
      ∀ e', Engine.Later { e with context := c } e' → e'.context.LockedAt v) ∧
    (∀ e e₁ e₂ whole part d, keyword (machine n) "true" e = .ok true e₁ →
      absoluteUnit (machine n) whole part e = .ok d e₂ → e₂.errorCount = e.errorCount →
      ∀ e', e₂.Later e' → e'.context.LockedAt e.context.magnification) ∧
    (∀ (c : Context) v lock fault, c.setMagnification v lock = .error fault →
      c.undergo (.setMagnification v lock) = c ∧ (fault = .illegal ↔ v < 1 ∨ v > c.maxMagnification)) ∧
    (∀ e v e₁, Scans n e v e₁ → ∀ w, e.context.LockedAt w → v ≠ w → 1 ≤ v → v ≤ e.context.maxMagnification →
      ∀ name modifiers, ∃ d, d.kind = .incompatibleMagnification ∧ d.isFatal = true ∧
        Command.execute (machine n) name modifiers .magnification e = .error ⟨.diagnostic d, ()⟩ (e₁.refuse d) ∧
        e.context.SameNumbers (e₁.refuse d).context) ∧
    (∀ e v e₁, Scans n e v e₁ → v < 1 ∨ v > e.context.maxMagnification →
      ∀ name modifiers, ∃ d, d.kind = .illegalMagnification ∧ d.isFatal = false ∧
        Command.execute (machine n) name modifiers .magnification e = report (machine n) d e₁ ∧
        e.context.SameNumbers (finalState (report (machine n) d e₁)).context) ∧
    ∀ e, ∃ new, (finalState (run (machine n) e)).trace = new ++ e.trace ∧
      ∀ d, .stopped d ∈ new → d.kind = .incompatibleMagnification →
        ∃ d', stopOf (run (machine n) e) = some (.diagnostic d') ∧ d'.kind = .incompatibleMagnification := by
  refine ⟨?locked, ?unit, ?refused, ?incompatible, ?illegal, fun e => run_ends_with n e rfl (by decide) (by decide)⟩
  case locked =>
    intro e c v hset e' hlater
    exact hlater.undergoes.lockedAt (Context.setMagnification_lockedAt hset)
  case unit =>
    intro e e₁ e₂ whole part d htrue hunit herrors e' hlater
    exact hlater.undergoes.lockedAt (absoluteUnit_locks htrue hunit herrors)
  case refused =>
    intro c v lock fault hset
    refine ⟨by simp [Context.undergo, hset, Except.toOption], ?_⟩
    rw [← @Context.setMagnification_illegal_iff c v lock, hset]
    exact ⟨fun h => by rw [h], fun h => Except.error.inj h⟩
  case incompatible =>
    intro e v e₁ hscan w hlocked hne hleast hgreatest name modifiers
    have hsame := hscan.course.sameNumbers rfl
    exact ⟨_, rfl, rfl, hscan.incompatible hlocked hne ⟨hleast, hgreatest⟩ name modifiers.isGlobal, hsame⟩
  case illegal =>
    intro e v e₁ hscan hrange name modifiers
    have hsame := hscan.course.sameNumbers rfl
    have hkind : Kind.illegalMagnification ≠ .errorLimit ∧ Kind.illegalMagnification ≠ .aborted := by decide
    have hraises : Raises False (e₁.magnificationProblem .illegal v) none := ⟨hkind.1, hkind.2, False.elim⟩
    exact ⟨_, rfl, rfl, hscan.illegal hrange name modifiers.isGlobal, hsame.trans (report_sameNumbers hraises e₁)⟩

/-- The magnification is locked at its first value, and a command wants it to be twice as large. -/
theorem magnification_final_doubled :
    let start : Engine := (Engine.new default {}).pushText "=2000 " ""
    let e := start.use (.deed (.setMagnification 1000 true))
    (∀ e', e.Later e' → e'.context.LockedAt 1000) ∧
      ∃ e₁ d, Scans 12 e 2000 e₁ ∧ d.kind = .incompatibleMagnification ∧
        Command.execute (machine 12) "mag" .none .magnification e = .error ⟨.diagnostic d, ()⟩ (e₁.refuse d) := by
  intro start e
  have hvalue : valueOf ((do optionalEquals (machine 12); (machine 12).number : Action Int64) e) = some 2000 := by
    decide +kernel
  obtain ⟨e₁, hscan⟩ := exists_of_valueOf hvalue
  have hfinal := magnification_final 12
  cases hset : start.context.setMagnification 1000 true with
  | error fault =>
    have hsome : (start.context.setMagnification 1000 true).toOption.isSome = true := by decide +kernel
    rw [hset] at hsome
    cases hsome
  | ok c =>
    have he : e = { start with context := c } := by
      simp only [e, Engine.use, Engine.modifyContext, Context.undergo, hset]
      rfl
    have hlocked : ∀ e', e.Later e' → e'.context.LockedAt 1000 := by
      rw [he]
      exact hfinal.1 start c 1000 hset
    obtain ⟨d, hd, -, hexecute, -⟩ := hfinal.2.2.2.1 e 2000 e₁ hscan 1000 (hlocked e .refl) (by decide) (by decide)
      (by decide +kernel) "mag" .none
    exact ⟨hlocked, e₁, d, hscan, hd, hexecute⟩

end Compositor
