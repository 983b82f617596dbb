import Compositor.Proofs.Engine.Protocol

/-!
# Refusals

A user who is asked about an error can refuse to go on, and a run does not go on when there are too many errors. A fatal
problem stops the procedure then. It stops all procedures around it as well, up to the run, with one exception: where
tokens are read to be deleted, whatever stops the reading is forgotten, and the run goes on.

* `Heeded` says of an entry of the trace what has to come after it and what has to come before it;
* `Course.concludes` says that this holds of all entries which a course adds;
* `refusal_ends_run_or_deletion` is the statement about runs.
-/

namespace Compositor

/-! ## What comes after a refusal -/

/-- Nothing has been done in the meantime, and a problem of this kind stops the procedure. -/
def EndsWith (o : Option Stop) (k : Kind) (later : List TraceEntry) : Prop :=
  (∀ entry ∈ later, entry.IsClosing) ∧ ∃ d, o = some (.diagnostic d) ∧ d.kind = k

/-- A problem of this kind was forgotten when tokens were deleted, and nothing had been done before that. -/
def IsForgotten (k : Kind) (later : List TraceEntry) : Prop :=
  ∃ rest d closing, later = rest ++ .forgiven d :: closing ∧ d.kind = k ∧ ∀ entry ∈ closing, entry.IsClosing

/-- An entry which calls for nothing: neither a fatal problem nor a refusal nor a deletion. -/
def TraceEntry.isRoutine : TraceEntry → Bool
  | stopped d => !d.isFatal
  | answered a => !a.isRefusal
  | forgiven _ => false
  | _ => true

/-- A fatal problem ends the procedure or is forgotten, a refusal leads to such a problem at once, and only what stops the
deletion of tokens is forgotten. -/
def Heeded (o : Option Stop) (later : List TraceEntry) (entry : TraceEntry) (earlier : List TraceEntry) : Prop :=
  match entry with
  | .stopped d => d.isFatal = true → EndsWith o d.kind later ∨ IsForgotten d.kind later
  | .answered a => a.isRefusal = true → ∃ rest d, later = rest ++ [.stopped d] ∧ d.kind = .aborted
  | .forgiven _ => ∃ k, .answered (.delete k) ∈ earlier
  | _ => True

/-- Every entry is heeded. -/
def Conclusive (o : Option Stop) (new : List TraceEntry) : Prop :=
  ∀ later entry earlier, new = later ++ entry :: earlier → Heeded o later entry earlier

section Entries

variable {o o' : Option Stop} {k : Kind} {d d' : Diagnostic} {entry : TraceEntry}
  {new new' later earlier : List TraceEntry}

theorem IsForgotten.append (h : IsForgotten k later) (new : List TraceEntry) : IsForgotten k (new ++ later) := by
  obtain ⟨rest, d, closing, rfl, hd, hclosing⟩ := h
  exact ⟨new ++ rest, d, closing, by rw [List.append_assoc], hd, hclosing⟩

/-- Where nothing fatal stops the procedure, a fatal problem must have been forgotten. -/
theorem EndsWith.elim (h : EndsWith o k later) (ho : ¬ IsFatalStop o) (hd : d.isFatal = true) (hk : d.kind = k) :
    False := by
  obtain ⟨-, d', rfl, hd'⟩ := h
  have hfatal : d'.isFatal = true := by
    rw [Diagnostic.isFatal, hd', ← hk]
    exact hd
  exact ho hfatal

theorem heeded_of_isRoutine (h : entry.isRoutine = true) : Heeded o later entry earlier := by
  cases entry with
  | stopped d =>
    intro hd
    simp [TraceEntry.isRoutine, hd] at h
  | answered a =>
    intro ha
    simp [TraceEntry.isRoutine, ha] at h
  | forgiven d => cases h
  | _ => trivial

theorem Heeded.goOn (h : Heeded o later entry earlier) (ho : ¬ IsFatalStop o) (new : List TraceEntry) :
    Heeded o' (new ++ later) entry earlier := by
  cases entry with
  | stopped d =>
    intro hd
    rcases h hd with hends | hforgotten
    · exact (hends.elim ho hd rfl).elim
    · exact .inr (hforgotten.append new)
  | answered a =>
    intro ha
    obtain ⟨rest, d, rfl, hd⟩ := h ha
    exact ⟨new ++ rest, d, by rw [List.append_assoc], hd⟩
  | forgiven d => exact h
  | _ => trivial

theorem Heeded.before (h : Heeded o later entry earlier) (new : List TraceEntry) :
    Heeded o later entry (earlier ++ new) := by
  cases entry with
  | forgiven d =>
    obtain ⟨k, hk⟩ := h
    exact ⟨k, List.mem_append_left new hk⟩
  | _ => exact h

theorem Heeded.refuse (h : Heeded (some (.diagnostic d)) later entry earlier) (hkind : d'.kind = d.kind)
    (hd' : d'.isFatal = true) :
    Heeded (some (.diagnostic d')) ([.stopped d', .reported d'] ++ later) entry earlier := by
  cases entry with
  | stopped d₁ =>
    intro hd₁
    rcases h hd₁ with ⟨hclosing, d₂, hd₂, hk⟩ | hforgotten
    · cases hd₂
      refine .inl ⟨fun entry hmem => ?_, d', rfl, hkind.trans hk⟩
      simp only [List.cons_append, List.nil_append, List.mem_cons] at hmem
      rcases hmem with rfl | rfl | hmem
      · exact hd'
      · exact hd'
      · exact hclosing entry hmem
    · exact .inr (hforgotten.append _)
  | answered a =>
    intro ha
    obtain ⟨rest, d₁, rfl, hd₁⟩ := h ha
    exact ⟨[.stopped d', .reported d'] ++ rest, d₁, by rw [List.append_assoc], hd₁⟩
  | forgiven d₁ => exact h
  | _ => trivial

theorem Heeded.forgive (h : Heeded (some (.diagnostic d)) later entry earlier) :
    Heeded none (.forgiven d :: later) entry earlier := by
  cases entry with
  | stopped d₁ =>
    intro hd₁
    rcases h hd₁ with ⟨hclosing, d₂, hd₂, hk⟩ | hforgotten
    · cases hd₂
      exact .inr ⟨[], d, later, rfl, hk, hclosing⟩
    · exact .inr (hforgotten.append [.forgiven d])
  | answered a =>
    intro ha
    obtain ⟨rest, d₁, rfl, hd₁⟩ := h ha
    exact ⟨.forgiven d :: rest, d₁, rfl, hd₁⟩
  | forgiven d₁ => exact h
  | _ => trivial

namespace Conclusive

theorem nil : Conclusive o [] := by
  intro later entry earlier h
  simp at h

theorem of_isRoutine (h : ∀ entry ∈ new, entry.isRoutine = true) : Conclusive o new := by
  rintro later entry earlier rfl
  exact heeded_of_isRoutine (h entry (by simp))

/-- The entries of a procedure which nothing fatal has stopped, and those of what follows it. -/
theorem append (h : Conclusive o new) (ho : ¬ IsFatalStop o) (h' : Conclusive o' new') : Conclusive o' (new' ++ new) := by
  intro later entry earlier heq
  rcases append_eq_split heq with ⟨mid, hnew', rfl⟩ | ⟨mid, rfl, hnew⟩
  · exact (h' later entry mid hnew').before new
  · exact (h mid entry earlier hnew).goOn ho new'

theorem stopped (d : Diagnostic) : Conclusive (some (.diagnostic d)) [.stopped d] := by
  intro later entry earlier heq
  obtain ⟨rfl, rfl, rfl⟩ : later = [] ∧ entry = .stopped d ∧ earlier = [] := by
    rcases List.singleton_eq_append_iff.1 heq with ⟨rfl, hcons⟩ | ⟨-, hnil⟩
    · obtain ⟨rfl, rfl⟩ := List.cons.inj hcons
      exact ⟨rfl, rfl, rfl⟩
    · cases hnil
  exact fun _ => .inl ⟨by simp, d, rfl, rfl⟩

theorem reported_stopped (d d' : Diagnostic) : Conclusive (some (.diagnostic d')) [.stopped d', .reported d] :=
  append (o := none) (of_isRoutine (by simp [TraceEntry.isRoutine])) id (stopped d')

/-- A user refuses to go on, and that stops the procedure. -/
theorem dismissed (a : Answer) (hd : d.kind = .aborted) :
    Conclusive (some (.diagnostic d)) [.stopped d, .answered a] := by
  intro later entry earlier heq
  have hsplit : [.stopped d] ++ [.answered a] = later ++ entry :: earlier := heq
  rcases append_eq_split hsplit with ⟨mid, hstopped, rfl⟩ | ⟨mid, rfl, hanswered⟩
  · exact (stopped d later entry mid hstopped).before _
  · rcases List.singleton_eq_append_iff.1 hanswered with ⟨rfl, hcons⟩ | ⟨-, hnil⟩
    · obtain ⟨rfl, rfl⟩ := List.cons.inj hcons
      exact fun _ => ⟨[], d, rfl, hd⟩
    · cases hnil

theorem refuse (h : Conclusive (some (.diagnostic d)) new) (hkind : d'.kind = d.kind) (hd' : d'.isFatal = true) :
    Conclusive (some (.diagnostic d')) ([.stopped d', .reported d'] ++ new) := by
  intro later entry earlier heq
  rcases append_eq_split heq with ⟨mid, hreported, rfl⟩ | ⟨mid, rfl, hnew⟩
  · exact (reported_stopped d' d' later entry mid hreported).before new
  · exact (h mid entry earlier hnew).refuse hkind hd'

/-- The user has tokens deleted, which goes on up to what is forgotten. -/
theorem forgive (h : Conclusive (some (.diagnostic d)) new) (n : Nat) :
    Conclusive none (.forgiven d :: (new ++ [.answered (.delete n)])) := by
  intro later entry earlier heq
  cases later with
  | nil =>
    obtain ⟨rfl, rfl⟩ := List.cons.inj heq
    exact ⟨n, by simp⟩
  | cons x later =>
    obtain ⟨rfl, hrest⟩ := List.cons.inj heq
    rcases append_eq_split hrest with ⟨mid, hnew, rfl⟩ | ⟨mid, rfl, hanswered⟩
    · exact (h later entry mid hnew).forgive.before _
    · rcases List.singleton_eq_append_iff.1 hanswered with ⟨rfl, hcons⟩ | ⟨-, hnil⟩
      · obtain ⟨rfl, rfl⟩ := List.cons.inj hcons
        exact nofun
      · cases hnil

end Conclusive

theorem Notes.isRoutine {strict : Prop} {e : Engine} (h : Notes strict e new) : ∀ entry ∈ new, entry.isRoutine = true := by
  cases h <;> simp [TraceEntry.isRoutine]

end Entries

/-! ## Courses -/

/-- All entries which come to the trace between two states are heeded. -/
def Engine.Concludes (o : Option Stop) (e e' : Engine) : Prop := ∃ new, e'.trace = new ++ e.trace ∧ Conclusive o new

section Courses

variable {strict : Prop} {l : Level} {o o' : Option Stop} {e e₁ e' : Engine} {d : Diagnostic}

namespace Engine.Concludes

theorem of_eq (h : e'.trace = e.trace) : e.Concludes o e' := ⟨[], h, .nil⟩

theorem trans (h : e.Concludes o e₁) (ho : ¬ IsFatalStop o) (h' : e₁.Concludes o' e') : e.Concludes o' e' := by
  obtain ⟨new, htrace, hnew⟩ := h
  obtain ⟨new', htrace', hnew'⟩ := h'
  exact ⟨new' ++ new, by rw [htrace', htrace, List.append_assoc], hnew.append ho hnew'⟩

theorem andThen (h : e.Concludes none e₁) (h' : e₁.Concludes o e') : e.Concludes o e' := h.trans id h'

end Engine.Concludes

theorem Raises.refuse_concludes (h : Raises strict d o) (hcourse : e.Concludes o e₁) (hd : d.isFatal = true) :
    e.Concludes (some (.diagnostic (e₁.phrase d))) (e₁.refuse (e₁.phrase d)) := by
  cases o with
  | none => exact hcourse.andThen ⟨[_, _], rfl, .reported_stopped _ _⟩
  | some s =>
    obtain rfl : s = .diagnostic d := h
    obtain ⟨new, htrace, hnew⟩ := hcourse
    exact ⟨_, by rw [Engine.refuse_trace, htrace]; rfl, hnew.refuse rfl hd⟩

/-- **In every course, refusals are heeded.** -/
theorem Course.concludes (h : Course strict l o e e') : e.Concludes o e' := by
  induction h with
  | refl => exact .of_eq rfl
  | scan _ hstep ih => exact ih.andThen (.of_eq hstep.trace_eq)
  | work _ _ hstep ih =>
    obtain ⟨new, hnotes, heq⟩ := hstep.notes
    exact ih.andThen ⟨new, heq, .of_isRoutine hnotes.isRoutine⟩
  | exhausted _ ih => exact ih.andThen (.of_eq rfl)
  | stop _ _ ih => exact ih.andThen ⟨[_], rfl, .stopped _⟩
  | restore _ _ ih => exact ih
  | refuse _ ho hd ih => exact ho.refuse_concludes ih hd
  | exceed _ ho hd _ ih => exact ih.trans (ho.not_isFatalStop hd) ⟨[_, _], rfl, .reported_stopped _ _⟩
  | consult _ ho hd _ ih =>
    exact ih.trans (ho.not_isFatalStop hd) ⟨[_, _], rfl, .of_isRoutine (by simp [TraceEntry.isRoutine])⟩
  | answer _ _ ha ih => exact ih.andThen ⟨[_], rfl, .of_isRoutine (by simp [TraceEntry.isRoutine, ha])⟩
  | dismiss _ _ _ hd ih => exact ih.andThen ⟨[_, _], rfl, .dismissed _ hd⟩
  | say _ _ _ ih | consent _ ih => exact ih.andThen ⟨[_], rfl, .of_isRoutine (by simp [TraceEntry.isRoutine])⟩
  | @decline _ _ e₁ _ _ _ ih =>
    have hdecided : e₁.Concludes none (e₁.record (.decided false)) :=
      ⟨[_], rfl, .of_isRoutine (by simp [TraceEntry.isRoutine])⟩
    exact (ih.andThen hdecided).andThen ⟨[_], rfl, .stopped _⟩
  | @forgive l e e₁ e₂ d line script n _ _ _ _ _ _ ih ih' =>
    obtain ⟨new, htrace, hnew⟩ := ih'
    refine ih.andThen ⟨.forgiven d :: (new ++ [.answered (.delete n)]), ?_, hnew.forgive n⟩
    simp [Engine.record, htrace, Engine.hear]
  | decide _ _ _ ih ih' => exact ih.andThen ih'
  | branch _ _ _ _ ih ih' => exact ih.andThen ih'
  | box _ _ _ _ _ ih ih' => exact ih.andThen ih'

end Courses

/-! ## Runs -/

theorem Outcome.concludes {strict : Prop} {e : Engine} {r : EStateM.Result (Interrupted Unit) Engine Unit}
    (h : Outcome strict e r) : e.Concludes (stopOf r) (finalState r) := by
  cases h with
  | unprepared => exact ⟨[_], rfl, .stopped _⟩
  | stopped h => exact h.concludes
  | unclosed h hreport => exact h.concludes.andThen hreport.concludes
  | ended h hreport => exact h.concludes.andThen hreport.concludes

/-- **Who refuses to go on ends the run, or the deletion of tokens.** Whatever the input is, whatever the answers of the
user are: a refusal stops what is being done at once. Unless the question was asked while tokens were being deleted,
nothing is done from then on, and the run is stopped because it was aborted. In the same way, the limit of errors is
what stops the run when there are too many of them, unless that happened while tokens were being deleted. Nothing is
forgotten but what stopped such a deletion, which the user has asked for. -/
theorem refusal_ends_run_or_deletion (n : Nat) (e : Engine) :
    ∃ new, (finalState (run (machine n) e)).trace = new ++ e.trace ∧
      (∀ later a earlier, new = later ++ .answered a :: earlier → a.isRefusal = true →
        ∃ rest d, later = rest ++ [.stopped d] ∧ d.kind = .aborted ∧
          (EndsWith (stopOf (run (machine n) e)) .aborted rest ∨ IsForgotten .aborted rest)) ∧
      (∀ later d earlier, new = later ++ .stopped d :: earlier → d.kind = .errorLimit →
        EndsWith (stopOf (run (machine n) e)) .errorLimit later ∨ IsForgotten .errorLimit later) ∧
      (∀ later d earlier, new = later ++ .forgiven d :: earlier → ∃ k, .answered (.delete k) ∈ earlier) := by
  have houtcome : Outcome False e (run (machine n) e) := run_outcome n False.elim
  obtain ⟨new, htrace, hnew⟩ := houtcome.concludes
  have hfatal : ∀ (d : Diagnostic) k, d.kind = k → k.isFatal = true → d.isFatal = true := by
    rintro d k rfl hk
    exact hk
  refine ⟨new, htrace, fun later a earlier heq ha => ?_, fun later d earlier heq hd => ?_, fun later d earlier heq => ?_⟩
  · obtain ⟨rest, d, rfl, hd⟩ := hnew later _ earlier heq ha
    refine ⟨rest, d, rfl, hd, ?_⟩
    rw [List.append_assoc] at heq
    have hstop := hnew rest (.stopped d) (.answered a :: earlier) heq (hfatal d _ hd rfl)
    rwa [hd] at hstop
  · have hstop := hnew later (.stopped d) earlier heq (hfatal d _ hd rfl)
    rwa [hd] at hstop
  · exact hnew later (.forgiven d) earlier heq

/-- An undefined name is reported, and the user has the next token deleted. That is an invalid character, which is reported
as well, and now the user refuses to go on. The run goes on with the letters after it. -/
theorem refusal_forgotten_in_deletion :
    let e : Engine := { (Engine.new default { interaction := .errorStop }).pushText "\\a\x7fbc" "" with
      handler := .prompter, console := { script := ["1", "x"] } }
    .answered .quit ∈ (finalState (run (machine 20) e)).trace ∧ stopOf (run (machine 20) e) = none ∧
      (finalState (run (machine 20) e)).typesetter.letters = ["b", "c"] := by
  decide +kernel

end Compositor
