import Compositor.Proofs.Engine.Consent
import Compositor.Proofs.Engine.Running

/-!
# The protocol of errors

A run keeps a trace of what is reported, of the questions which the handler of errors is asked, and of what is executed.
This module draws up the account of it: every recoverable problem is counted, and the handler is asked about each of them
but the one too many; a fatal problem is the last thing that happens, and so is a refusal of the handler.

* `Ledger` is the account between two states;
* `Course.ledger` says that a course keeps it, provided that the handler takes no tokens from the input. A user who has
  tokens deleted does, and the problems found among them are forgotten (`Course.forgive`);
* `error_protocol` is the statement about runs.
-/

namespace Compositor

/-! ## Accounts -/

namespace TraceEntry

def isError : TraceEntry → Bool
  | reported d => !d.isFatal
  | _ => false

def isQuestion : TraceEntry → Bool
  | consulted _ => true
  | _ => false

/-- The handler does not want the run to go on. -/
def IsRefusal : TraceEntry → Prop
  | answered a => a.isRefusal = true
  | decided goesOn => goesOn = false
  | _ => False

/-- A fatal problem stops a procedure, or the handler does not want the run to go on. -/
def IsEnd : TraceEntry → Prop
  | stopped d => d.isFatal = true
  | answered a => a.isRefusal = true
  | decided goesOn => goesOn = false
  | _ => False

/-- Neither an error nor a question nor an end. -/
def IsQuiet (entry : TraceEntry) : Prop := entry.isError = false ∧ entry.isQuestion = false ∧ ¬ entry.IsEnd

/-- A fatal problem stops a procedure, or is reported. -/
def IsClosing : TraceEntry → Prop
  | stopped d => d.isFatal = true
  | reported d => d.isFatal = true
  | _ => False

theorem IsRefusal.isEnd {entry : TraceEntry} (h : entry.IsRefusal) : entry.IsEnd := by
  cases entry with
  | answered | decided => exact h
  | _ => cases h

end TraceEntry

def raised (entries : List TraceEntry) : Nat := entries.countP TraceEntry.isError

def asked (entries : List TraceEntry) : Nat := entries.countP TraceEntry.isQuestion

theorem raised_append (new old : List TraceEntry) : raised (new ++ old) = raised new + raised old := List.countP_append

theorem asked_append (new old : List TraceEntry) : asked (new ++ old) = asked new + asked old := List.countP_append

def excess : Option Stop → Nat
  | some (.diagnostic d) => if d.kind = .errorLimit then 1 else 0
  | _ => 0

def IsFatalStop : Option Stop → Prop
  | some (.diagnostic d) => d.isFatal = true
  | _ => False

/-- A refusal has stopped the procedure. -/
def IsAbortion : Option Stop → Prop
  | some (.diagnostic d) => d.kind = .aborted
  | _ => False

theorem IsAbortion.isFatalStop {o : Option Stop} (h : IsAbortion o) : IsFatalStop o := by
  rcases o with _ | d | _
  · cases h
  · have hkind : d.kind = .aborted := h
    simp [IsFatalStop, Diagnostic.isFatal, hkind, Kind.isFatal, Kind.number]
  · cases h

/-- The account of what came to the trace between two states, where `limit` errors are allowed. -/
structure Ledger (limit : Int) (o : Option Stop) (e e' : Engine) (new : List TraceEntry) : Prop where
  trace : e'.trace = new ++ e.trace
  counted : e'.errorCount = e.errorCount + raised new
  answered : asked new + excess o = raised new
  bounded : (excess o = 0 ∧ e'.errorCount ≤ limit) ∨ (excess o = 1 ∧ e'.errorCount = limit + 1)
  recoverable : ∀ d, .consulted d ∈ new → d.isFatal = false
  ended : (∃ entry ∈ new, entry.IsEnd) → IsFatalStop o
  refused : (∃ entry ∈ new, entry.IsRefusal) ↔ IsAbortion o
  /-- The later entries come first. -/
  orderly : new.Pairwise fun later earlier => earlier.IsEnd → later.IsClosing

section Accounts

variable {limit : Int} {o : Option Stop} {e e₁ e₂ : Engine} {new new' : List TraceEntry} {d : Diagnostic}

theorem excess_of_recoverable (hd : d.isFatal = false) : excess (some (.diagnostic d)) = 0 := by
  have hkind : d.kind ≠ .errorLimit := by
    intro hkind
    rw [Diagnostic.isFatal, hkind] at hd
    cases hd
  simp [excess, hkind]

/-- What is reported has the weight of what stopped the procedure. -/
theorem Raises.excess_eq {strict : Prop} (h : Raises strict d o) : excess (some (.diagnostic d)) = excess o := by
  cases o with
  | none => simp [excess, h.1]
  | some s =>
    obtain rfl : s = .diagnostic d := h
    rfl

theorem Raises.not_isFatalStop {strict : Prop} (h : Raises strict d o) (hd : d.isFatal = false) : ¬ IsFatalStop o := by
  cases o with
  | none => exact id
  | some s =>
    obtain rfl : s = .diagnostic d := h
    simp [IsFatalStop, hd]

theorem Raises.isAbortion_iff {strict : Prop} (h : Raises strict d o) : IsAbortion (some (.diagnostic d)) ↔ IsAbortion o := by
  cases o with
  | none => exact iff_of_false h.2.1 id
  | some s =>
    obtain rfl : s = .diagnostic d := h
    rfl

namespace Ledger

theorem refl (hcount : e.errorCount ≤ limit) : Ledger limit none e e [] where
  trace := rfl
  counted := rfl
  answered := rfl
  bounded := .inl ⟨rfl, hcount⟩
  recoverable := by simp
  ended := by simp
  refused := by simp [IsAbortion]
  orderly := .nil

theorem trans (h : Ledger limit none e e₁ new) (h' : Ledger limit o e₁ e₂ new') :
    Ledger limit o e e₂ (new' ++ new) where
  trace := by rw [h'.trace, h.trace, List.append_assoc]
  counted := by
    have hcounted := h.counted
    have hcounted' := h'.counted
    rw [raised_append]
    omega
  answered := by
    have hanswered : asked new + 0 = raised new := h.answered
    have hanswered' := h'.answered
    rw [asked_append, raised_append]
    omega
  bounded := h'.bounded
  recoverable d hd := (List.mem_append.1 hd).elim (h'.recoverable d) (h.recoverable d)
  ended := by
    rintro ⟨entry, hmem, hend⟩
    rcases List.mem_append.1 hmem with hmem | hmem
    · exact h'.ended ⟨entry, hmem, hend⟩
    · exact (h.ended ⟨entry, hmem, hend⟩).elim
  refused := by
    have hnone : ¬ ∃ entry ∈ new, entry.IsRefusal := h.refused.not.2 id
    rw [← h'.refused]
    refine ⟨fun ⟨entry, hmem, hrefusal⟩ => ?_, fun ⟨entry, hmem, hrefusal⟩ => ⟨entry, by simp [hmem], hrefusal⟩⟩
    rcases List.mem_append.1 hmem with hmem | hmem
    · exact ⟨entry, hmem, hrefusal⟩
    · exact (hnone ⟨entry, hmem, hrefusal⟩).elim
  orderly := by
    -- nothing has ended in the first part
    refine List.pairwise_append.2 ⟨h'.orderly, h.orderly, fun later _ earlier hmem hend => ?_⟩
    exact (h.ended ⟨earlier, hmem, hend⟩).elim

theorem congr {e' e₂' : Engine} (h : Ledger limit o e e₂ new) (htrace : e'.trace = e.trace)
    (hcount : e'.errorCount = e.errorCount) (htrace' : e₂'.trace = e₂.trace) (hcount' : e₂'.errorCount = e₂.errorCount) :
    Ledger limit o e' e₂' new :=
  { h with
    trace := by rw [htrace', htrace, h.trace]
    counted := by rw [hcount', hcount, h.counted]
    bounded := by rw [hcount']; exact h.bounded }

/-- A change which adds neither an error nor a question nor an end to the trace. -/
theorem step {added : List TraceEntry} (h : Ledger limit none e e₁ new) (hcount : e₂.errorCount = e₁.errorCount)
    (htrace : e₂.trace = added ++ e₁.trace) (hquiet : ∀ entry ∈ added, entry.IsQuiet) :
    Ledger limit none e e₂ (added ++ new) := by
  have hraised : raised added = 0 := by
    refine List.countP_eq_zero.2 fun entry hmem => ?_
    simp [(hquiet entry hmem).1]
  have hasked : asked added = 0 := by
    refine List.countP_eq_zero.2 fun entry hmem => ?_
    simp [(hquiet entry hmem).2.1]
  have hadded : Ledger limit none e₁ e₂ added := by
    refine ⟨htrace, by rw [hcount, hraised, Nat.add_zero], by rw [hraised, hasked]; rfl, ?_, ?_, ?_, ?_, ?_⟩
    · rw [hcount]
      exact h.bounded
    · intro d hd
      cases (hquiet _ hd).2.1
    · rintro ⟨entry, hmem, hend⟩
      exact (hquiet entry hmem).2.2 hend
    · refine iff_of_false ?_ id
      rintro ⟨entry, hmem, hrefusal⟩
      exact (hquiet entry hmem).2.2 hrefusal.isEnd
    · exact List.pairwise_of_forall_mem_list fun later _ earlier hmem hend => ((hquiet earlier hmem).2.2 hend).elim
  exact h.trans hadded

theorem note (h : Ledger limit none e e₁ new) {entry : TraceEntry} (hquiet : entry.IsQuiet)
    (hcount : e₂.errorCount = e₁.errorCount) (htrace : e₂.trace = entry :: e₁.trace) :
    Ledger limit none e e₂ (entry :: new) := by
  have htrace : e₂.trace = [entry] ++ e₁.trace := htrace
  exact h.step hcount htrace (List.forall_mem_singleton.2 hquiet)

/-- A problem stops the procedure, and has not been reported yet. -/
theorem stop {strict : Prop} (h : Ledger limit none e e₁ new) (hd : Raises strict d none) :
    Ledger limit (some (.diagnostic d)) e (e₁.record (.stopped d)) (.stopped d :: new) := by
  have hbounded := h.bounded
  have hexcess : excess (some (.diagnostic d)) = 0 := hd.excess_eq
  have hstopped : Ledger limit (some (.diagnostic d)) e₁ (e₁.record (.stopped d)) [.stopped d] := by
    refine ⟨rfl, rfl, ?_, ?_, by simp, ?_, ?_, List.pairwise_singleton _ _⟩
    · simp [asked, raised, hexcess, TraceEntry.isError, TraceEntry.isQuestion]
    · rw [hexcess]
      exact hbounded
    · simp [TraceEntry.IsEnd, IsFatalStop]
    · simp [TraceEntry.IsRefusal, IsAbortion, hd.2.1]
  exact h.trans hstopped

theorem decline (h : Ledger limit none e e₁ new) {entry : TraceEntry} (hentry : entry.IsRefusal) (hd : d.kind = .aborted)
    (hcount : e₂.errorCount = e₁.errorCount) (htrace : e₂.trace = .stopped d :: entry :: e₁.trace) :
    Ledger limit (some (.diagnostic d)) e e₂ (.stopped d :: entry :: new) := by
  have hbounded := h.bounded
  have habortion : IsAbortion (some (.diagnostic d)) := hd
  have hfatal : d.isFatal = true := habortion.isFatalStop
  have hexcess : excess (some (.diagnostic d)) = 0 := by simp [excess, hd]
  have hraised : raised [.stopped d, entry] = 0 := by
    cases entry <;> first | rfl | cases hentry
  have hasked : asked [.stopped d, entry] = 0 := by
    cases entry <;> first | rfl | cases hentry
  have hquestion : ∀ d', entry ≠ .consulted d' := by
    rintro d' rfl
    cases hentry
  have hdeclined : Ledger limit (some (.diagnostic d)) e₁ e₂ [.stopped d, entry] := by
    refine ⟨htrace, by rw [hraised, hcount]; rfl, by rw [hraised, hasked, hexcess], ?_, ?_, fun _ => hfatal, ?_, ?_⟩
    · rw [hexcess, hcount]
      exact hbounded
    · intro d' hd'
      simp only [List.mem_cons, List.not_mem_nil, or_false, reduceCtorEq, false_or] at hd'
      exact (hquestion d' hd'.symm).elim
    · exact iff_of_true ⟨entry, by simp, hentry⟩ habortion
    · exact .cons (fun _ _ _ => hfatal) (List.pairwise_singleton _ _)
  exact h.trans hdeclined

theorem refuse (h : Ledger limit o e e₁ new) (hexcess : excess (some (.diagnostic d)) = excess o)
    (habortion : IsAbortion (some (.diagnostic d)) ↔ IsAbortion o) (hd : d.isFatal = true) :
    Ledger limit (some (.diagnostic d)) e (e₁.refuse d) (.stopped d :: .reported d :: new) where
  trace := by simp [h.trace]
  counted := by simpa [raised, TraceEntry.isError, hd] using h.counted
  answered := by simpa [asked, raised, TraceEntry.isError, TraceEntry.isQuestion, hd, hexcess] using h.answered
  bounded := by simpa [hexcess] using h.bounded
  recoverable d' hd' := h.recoverable d' (by simpa using hd')
  ended _ := hd
  refused := by rw [habortion, ← h.refused]; simp [TraceEntry.IsRefusal]
  orderly := by
    -- the new entries are closing ones, whatever was there before
    refine .cons (fun earlier _ _ => hd) (.cons (fun earlier _ _ => hd) h.orderly)

theorem no_refusals (h : Ledger limit o e e₁ new) (ho : ¬ IsFatalStop o) : ¬ ∃ entry ∈ new, entry.IsRefusal :=
  fun hrefusal => ho (h.refused.1 hrefusal).isFatalStop

theorem orderly_reported (h : Ledger limit o e e₁ new) (ho : ¬ IsFatalStop o) :
    (∀ entry ∈ .reported d :: new, ¬ entry.IsEnd) ∧
      (.reported d :: new).Pairwise fun later earlier => earlier.IsEnd → later.IsClosing := by
  have hquiet : ∀ entry ∈ new, ¬ entry.IsEnd := fun entry hmem hend => ho (h.ended ⟨entry, hmem, hend⟩)
  refine ⟨List.forall_mem_cons.2 ⟨id, hquiet⟩, .cons (fun earlier hmem hend => ?_) h.orderly⟩
  exact (hquiet earlier hmem hend).elim

theorem raised_reported (hd : d.isFatal = false) (new : List TraceEntry) :
    raised (.reported d :: new) = raised new + 1 := by
  simp [raised, TraceEntry.isError, hd]

theorem exceed {d' : Diagnostic} (h : Ledger limit o e e₁ new) (ho : ¬ IsFatalStop o) (hzero : excess o = 0)
    (hd : d.isFatal = false) (hd' : d'.kind = .errorLimit) (hcount : limit < (e₁.errorCount + 1 : Nat))
    (htrace : e₂.trace = .stopped d' :: .reported d :: e₁.trace) (hcount₂ : e₂.errorCount = e₁.errorCount + 1) :
    Ledger limit (some (.diagnostic d')) e e₂ (.stopped d' :: .reported d :: new) := by
  have hfatal : d'.isFatal = true := by
    rw [Diagnostic.isFatal, hd']
    rfl
  have hone : excess (some (.diagnostic d')) = 1 := by simp [excess, hd']
  have hraised : raised (.stopped d' :: .reported d :: new) = raised new + 1 := raised_reported hd new
  have hasked : asked (.stopped d' :: .reported d :: new) = asked new := rfl
  have hcounted := h.counted
  have hanswered := h.answered
  have hbounded := h.bounded
  refine ⟨by rw [htrace, h.trace]; rfl, by omega, by omega, .inr ⟨hone, by omega⟩, ?_, fun _ => hfatal, ?_, ?_⟩
  · exact fun d'' hd'' => h.recoverable d'' (by simpa using hd'')
  · refine iff_of_false ?_ (by simp [IsAbortion, hd'])
    simpa [TraceEntry.IsRefusal] using h.no_refusals ho
  · exact .cons (fun earlier _ _ => hfatal) (h.orderly_reported ho).2

theorem consult (h : Ledger limit o e e₁ new) (ho : ¬ IsFatalStop o) (hzero : excess o = 0) (hd : d.isFatal = false)
    (hcount : (e₁.errorCount + 1 : Nat) ≤ limit) :
    Ledger limit none e ((e₁.countError d).record (.consulted d)) (.consulted d :: .reported d :: new) := by
  obtain ⟨hquiet, horderly⟩ := h.orderly_reported (d := d) ho
  have hraised : raised (.consulted d :: .reported d :: new) = raised new + 1 := raised_reported hd new
  have hasked : asked (.consulted d :: .reported d :: new) = asked new + 1 := List.countP_cons_of_pos rfl
  have hcount' : ((e₁.countError d).record (.consulted d)).errorCount = e₁.errorCount + 1 := rfl
  have hnone : excess none = 0 := rfl
  have hcounted := h.counted
  have hanswered := h.answered
  refine ⟨?_, by omega, by omega, .inl ⟨rfl, hcount⟩, ?_, ?_, ?_, .cons (fun earlier hmem hend => ?_) horderly⟩
  · simp [Engine.record, h.trace]
  · intro d' hd'
    rcases List.mem_cons.1 hd' with heq | hd'
    · cases heq
      exact hd
    · exact h.recoverable d' (by simpa using hd')
  · rintro ⟨entry, hmem, hend⟩
    rcases List.mem_cons.1 hmem with rfl | hmem
    · exact hend
    · exact hquiet entry hmem hend
  · refine iff_of_false ?_ id
    simpa [TraceEntry.IsRefusal] using h.no_refusals ho
  · exact (hquiet earlier hmem hend).elim

end Ledger

end Accounts

theorem Notes.quiet {strict : Prop} {e : Engine} {new : List TraceEntry} (h : Notes strict e new) :
    ∀ entry ∈ new, entry.IsQuiet := by
  cases h <;> simp [TraceEntry.IsQuiet, TraceEntry.isError, TraceEntry.isQuestion, TraceEntry.IsEnd]

/-! ## Courses -/

/-- The handler takes no tokens, and there are not too many errors yet. -/
structure Engine.InOrder (limit : Int) (e : Engine) : Prop where
  limit_eq : e.settings.maxErrors = limit
  sparesInput : e.SparesInput
  errorCount : e.errorCount ≤ limit

section Courses

variable {limit : Int} {strict : Prop} {l : Level} {o : Option Stop} {e e' : Engine} {new : List TraceEntry}

theorem Engine.SameTerms.sparesInput (h : e.SameTerms e') (he : e.SparesInput) : e'.SparesInput := by
  intro hhandler line hline
  exact he (h.handler ▸ hhandler) line (h.script.subset hline)

/-- Where nothing has stopped the procedure, more errors may come. -/
theorem Ledger.inOrder (h : Ledger limit none e e' new) (hterms : e.SameTerms e') (he : e.InOrder limit) :
    e'.InOrder limit := by
  refine ⟨hterms.settings ▸ he.limit_eq, hterms.sparesInput he.sparesInput, ?_⟩
  rcases h.bounded with ⟨-, hcount⟩ | ⟨hone, -⟩
  · exact hcount
  · cases hone

/-- The account goes on with that of a course which begins and ends in states that differ in nothing the account is about. -/
theorem Ledger.resume {e₁ e₁' e₂ e₂' : Engine} (h : Ledger limit none e e₁ new) (hterms : e.SameTerms e₁)
    (he : e.InOrder limit) (hinner : e₁'.InOrder limit → ∃ new', Ledger limit o e₁' e₂' new') (hrun : e₁.SameRun e₁')
    (htrace : e₁'.trace = e₁.trace) (htrace' : e₂.trace = e₂'.trace) (hcount' : e₂.errorCount = e₂'.errorCount) :
    ∃ new', Ledger limit o e e₂ new' := by
  have he₁ := h.inOrder hterms he
  have hbegin : e₁'.InOrder limit :=
    ⟨hrun.settings ▸ he₁.limit_eq, hrun.toSameTerms.sparesInput he₁.sparesInput, hrun.errorCount ▸ he₁.errorCount⟩
  obtain ⟨new', hledger⟩ := hinner hbegin
  exact ⟨new' ++ new, h.trans (hledger.congr htrace.symm hrun.errorCount.symm htrace' hcount')⟩

theorem Engine.sameRun_of_eq (hsettings : e'.settings = e.settings) (hhandler : e'.handler = e.handler)
    (hconsole : e'.console = e.console) (hcount : e'.errorCount = e.errorCount) : e.SameRun e' :=
  ⟨⟨hsettings, hhandler, hconsole ▸ List.suffix_rfl⟩, hcount⟩

/-- **Every course keeps the account.** -/
theorem Course.ledger (h : Course strict l o e e') (he : e.InOrder limit) : ∃ new, Ledger limit o e e' new := by
  -- by induction on the course, which always begins below the limit: an inner course begins where nothing has been stopped
  induction h with
  | refl => exact ⟨[], .refl he.errorCount⟩
  | @scan l e e₁ e₂ _ hstep ih =>
    obtain ⟨new, hledger⟩ := ih he
    have htrace : e₂.trace = [] ++ e₁.trace := hstep.trace_eq
    exact ⟨_, hledger.step hstep.sameRun.errorCount htrace (by simp)⟩
  | work _ _ hstep ih =>
    obtain ⟨new, hledger⟩ := ih he
    obtain ⟨added, hnotes, heq⟩ := hstep.notes
    exact ⟨_, hledger.step hstep.sameRun.errorCount heq hnotes.quiet⟩
  | exhausted _ ih =>
    obtain ⟨new, hledger⟩ := ih he
    exact ⟨new, { hledger with }⟩
  | stop _ hd ih =>
    obtain ⟨new, hledger⟩ := ih he
    exact ⟨_, hledger.stop hd⟩
  | restore _ _ ih =>
    obtain ⟨new, hledger⟩ := ih he
    exact ⟨new, hledger.congr rfl rfl rfl rfl⟩
  | refuse _ ho hd ih =>
    obtain ⟨new, hledger⟩ := ih he
    exact ⟨_, hledger.refuse ho.excess_eq ho.isAbortion_iff hd⟩
  | exceed h ho hd hcount ih =>
    obtain ⟨new, hledger⟩ := ih he
    have hzero := ho.excess_eq.symm.trans (excess_of_recoverable hd)
    rw [h.sameTerms.settings, he.limit_eq] at hcount
    exact ⟨_, hledger.exceed (d := Engine.phrase _ _) (ho.not_isFatalStop hd) hzero hd rfl hcount rfl rfl⟩
  | consult h ho hd hcount ih =>
    obtain ⟨new, hledger⟩ := ih he
    have hzero := ho.excess_eq.symm.trans (excess_of_recoverable hd)
    rw [h.sameTerms.settings, he.limit_eq] at hcount
    exact ⟨_, hledger.consult (ho.not_isFatalStop hd) hzero hd hcount⟩
  | answer _ _ ha ih =>
    obtain ⟨new, hledger⟩ := ih he
    exact ⟨_, hledger.note ⟨rfl, rfl, by simp [TraceEntry.IsEnd, ha]⟩ rfl rfl⟩
  | @dismiss _ _ _ a _ _ _ _ ha hd ih =>
    obtain ⟨new, hledger⟩ := ih he
    have hrefusal : (TraceEntry.answered a).IsRefusal := ha
    exact ⟨_, hledger.decline hrefusal hd rfl rfl⟩
  | say _ _ _ ih =>
    obtain ⟨new, hledger⟩ := ih he
    exact ⟨_, hledger.note ⟨rfl, rfl, id⟩ rfl rfl⟩
  | consent _ ih =>
    obtain ⟨new, hledger⟩ := ih he
    exact ⟨_, hledger.note ⟨rfl, rfl, by simp [TraceEntry.IsEnd]⟩ rfl rfl⟩
  | decline _ hd ih =>
    obtain ⟨new, hledger⟩ := ih he
    have hrefusal : (TraceEntry.decided false).IsRefusal := rfl
    exact ⟨_, hledger.decline hrefusal hd rfl rfl⟩
  | forgive h hhandler hscript hanswer =>
    exact (h.sameTerms.sparesInput he.sparesInput hhandler _ (hscript ▸ List.mem_cons_self) _ hanswer).elim
  | decide h _ _ ih ih' | branch h _ _ _ ih ih' | box _ h _ _ _ ih ih' =>
    obtain ⟨new, hledger⟩ := ih he
    exact hledger.resume h.sameTerms he ih' (Engine.sameRun_of_eq rfl rfl rfl rfl) rfl rfl rfl

end Courses

/-! ## Runs -/

def stopOf : EStateM.Result (Interrupted Unit) Engine Unit → Option Stop
  | .ok _ _ => none
  | .error i _ => some i.cause

/-- What is promised about a run with this result, which has added these entries to the trace. -/
structure ErrorProtocol (limit : Int) (r : EStateM.Result (Interrupted Unit) Engine Unit) (new : List TraceEntry) :
    Prop where
  /-- The handler is asked about recoverable problems only. -/
  recoverable : ∀ d, .consulted d ∈ new → d.isFatal = false
  asked_le : asked new ≤ limit
  errorCount_le : (finalState r).errorCount ≤ limit + 1
  /-- After a report has ended the run, or a handler has refused to go on, nothing is executed and nobody is asked. -/
  orderly : new.Pairwise fun later earlier => earlier.IsEnd → later.IsClosing
  /-- And the run does end. -/
  ended : (∃ entry ∈ new, entry.IsEnd) → IsFatalStop (stopOf r)
  /-- Recoverable problems do not stop a run. -/
  final : ∀ s, stopOf r = some s → s.IsFinal
  limit_iff : (∃ d, stopOf r = some (.diagnostic d) ∧ d.kind = .errorLimit) ↔ raised new = limit + 1
  aborted_iff : (∃ d, stopOf r = some (.diagnostic d) ∧ d.kind = .aborted) ↔ ∃ entry ∈ new, entry.IsRefusal

section Runs

variable {e : Engine} {r : EStateM.Result (Interrupted Unit) Engine Unit} {new : List TraceEntry}

theorem excess_eq_one_iff {o : Option Stop} : excess o = 1 ↔ ∃ d, o = some (.diagnostic d) ∧ d.kind = .errorLimit := by
  constructor
  · intro h
    unfold excess at h
    split at h
    · split at h
      · exact ⟨_, rfl, ‹_›⟩
      · cases h
    · cases h
  · rintro ⟨d, rfl, hd⟩
    simp [excess, hd]

theorem isAbortion_iff {o : Option Stop} : IsAbortion o ↔ ∃ d, o = some (.diagnostic d) ∧ d.kind = .aborted := by
  constructor
  · intro h
    rcases o with _ | d | _
    · cases h
    · exact ⟨d, rfl, h⟩
    · cases h
  · rintro ⟨d, rfl, hd⟩
    exact hd

/-- The account of a run, which starts with no errors. -/
theorem Outcome.ledger {strict : Prop} (h : Outcome strict e r) (hready : e.Ready)
    (hbegin : e.begin.InOrder e.settings.maxErrors) :
    ∃ new, Ledger e.settings.maxErrors (stopOf r) e.begin (finalState r) new := by
  cases h with
  | unprepared he => exact (he hready).elim
  | stopped h hs =>
    obtain ⟨new, hledger⟩ := h.ledger hbegin
    exact ⟨new, hledger.congr rfl rfl rfl rfl⟩
  | unclosed h hreport hs =>
    obtain ⟨new, hledger⟩ := h.ledger hbegin
    exact hledger.resume h.sameTerms hbegin hreport.ledger (Engine.sameRun_of_eq rfl rfl rfl rfl) rfl rfl rfl
  | ended h hreport =>
    obtain ⟨new, hledger⟩ := h.ledger hbegin
    exact hledger.resume h.sameTerms hbegin hreport.ledger (Engine.sameRun_of_eq rfl rfl rfl rfl) rfl rfl rfl

theorem Outcome.final {strict : Prop} (h : Outcome strict e r) : ∀ s, stopOf r = some s → s.IsFinal := by
  intro s hs
  cases h with
  | @unprepared d _ hd =>
    cases hs
    exact isFatal_of_unprepared hd
  | stopped _ hfinal | unclosed _ _ hfinal =>
    cases hs
    exact hfinal
  | ended => cases hs

theorem Ledger.protocol {limit : Int} {start : Engine} (h : Ledger limit (stopOf r) start (finalState r) new)
    (hstart : start.errorCount = 0) (hfinal : ∀ s, stopOf r = some s → s.IsFinal) : ErrorProtocol limit r new := by
  have hcounted := h.counted
  have hanswered := h.answered
  have hbounded := h.bounded
  refine ⟨h.recoverable, by omega, by omega, h.orderly, h.ended, hfinal, ?_, isAbortion_iff.symm.trans h.refused.symm⟩
  rw [← excess_eq_one_iff]
  omega

/-- A run which cannot be started has a single problem, and counts none. -/
theorem unprepared_protocol {limit : Int} {d : Diagnostic} (hlimit : 0 ≤ limit) (hcount : e.errorCount ≤ limit + 1)
    (hd : d.kind = .noTypesetter ∨ d.kind = .noStreams) :
    ErrorProtocol limit (.error ⟨.diagnostic d, ()⟩ (e.record (.stopped d))) [.stopped d] where
  recoverable := by simp
  asked_le := hlimit
  errorCount_le := hcount
  orderly := List.pairwise_singleton _ _
  ended _ := isFatal_of_unprepared hd
  final := by
    intro s hs
    cases hs
    exact isFatal_of_unprepared hd
  limit_iff := by
    have hraised : raised [.stopped d] = 0 := rfl
    have hkind : d.kind ≠ .errorLimit := by
      rcases hd with hd | hd <;> simp [hd]
    constructor
    · rintro ⟨d', hd', hlimit'⟩
      cases hd'
      exact (hkind hlimit').elim
    · omega
  aborted_iff := by
    have hkind : d.kind ≠ .aborted := by
      rcases hd with hd | hd <;> simp [hd]
    rw [← isAbortion_iff]
    exact iff_of_false hkind (by simp [TraceEntry.IsRefusal])

end Runs

end Compositor
