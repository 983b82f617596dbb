import Compositor.Proofs.Engine.Groups
import Compositor.Proofs.Engine.Keeping

/-!
# What a procedure leaves out of the trace

A procedure may make no entries of some sort, whatever else it does. `Omits f p` says so of the entries with the property
`f`, and it also holds when the procedure is stopped.

* `NoAftermath` are the properties of entries which do not tell what becomes of a report: besides its own entry, a report
  makes no entries with such a property (`report_filter`);
* `Meets.still` covers everything which only reads and expands tokens;
* `omits_next`: while a token is read, no token is reported to be missing.
-/

namespace Compositor

variable {α β γ ν : Type} {f : TraceEntry → Bool}

/-! ## Omissions -/

/-- The procedure makes no entries of a sort in the trace, be it stopped or not. -/
abbrev Omits (f : TraceEntry → Bool) (p : Proc β α) : Prop := Keeps (fun e => e.trace.filter f) p

namespace Keeps

theorem record {entry : TraceEntry} (h : f entry = false) : Omits f (record entry : Proc β Unit) :=
  .modify fun _ => List.filter_cons_of_neg (by simp [h])

variable {view : List TraceEntry → ν}

theorem modifyContext (g : Context → Context) : Keeps (fun e => view e.trace) (modifyContext g : Proc β Unit) := fun _ => rfl

theorem modifyTypesetter (g : Typesetter → Typesetter) :
    Keeps (fun e => view e.trace) (modifyTypesetter g : Proc β Unit) := fun _ => rfl

theorem pushTokens (ts : List Token) : Keeps (fun e => view e.trace) (pushTokens ts : Proc β Unit) := fun _ => rfl

theorem pushBack (t : Token) : Keeps (fun e => view e.trace) (pushBack t : Proc β Unit) := fun _ => rfl

end Keeps

/-! ## Reports -/

/-- None of the entries says what becomes of a report. -/
structure NoAftermath (f : TraceEntry → Bool) : Prop where
  stopped (d : Diagnostic) : f (.stopped d) = false
  consulted (d : Diagnostic) : f (.consulted d) = false
  answered (a : Answer) : f (.answered a) = false
  decided (goesOn : Bool) : f (.decided goesOn) = false
  forgiven (d : Diagnostic) : f (.forgiven d) = false
  messaged (s : String) : f (.messaged s) = false

theorem NoAftermath.ignoresReports (hf : NoAftermath f) : IgnoresReports fun e => e.trace.filter f where
  stopped _ d := List.filter_cons_of_neg (by simp [hf.stopped d])
  consulted _ d := List.filter_cons_of_neg (by simp [hf.consulted d])
  answered _ a := List.filter_cons_of_neg (by simp [hf.answered a])
  decided _ goesOn := List.filter_cons_of_neg (by simp [hf.decided goesOn])
  forgiven _ d := List.filter_cons_of_neg (by simp [hf.forgiven d])
  messaged _ s := List.filter_cons_of_neg (by simp [hf.messaged s])
  aside _ _ _ _ _ _ _ := rfl
  mode _ _ := rfl

theorem Engine.pushText_trace (e : Engine) (text source : String) : (e.pushText text source).trace = e.trace := by
  unfold pushText
  split <;> rfl

section Reports

variable {m : Machine} (hf : NoAftermath f) (hnext : Omits f m.next)

include hf hnext

/-- **A report makes one entry of its own**, whatever becomes of it. -/
theorem report_filter (d : Diagnostic) (e : Engine) :
    (finalState (report m d e)).trace.filter f = [.reported (e.phrase d)].filter f ++ e.trace.filter f := by
  rw [← List.filter_append]
  exact view_report hf.ignoresReports hnext d e

theorem omits_report {d : Diagnostic} (hd : ∀ language, f (.reported { d with language }) = false) :
    Omits f (report m d) :=
  keeps_report hf.ignoresReports hnext fun _ language => List.filter_cons_of_neg (by simp [hd language])

end Reports

/-! ## Missing tokens -/

/-- A token is reported to be missing. -/
def TraceEntry.isMissing : TraceEntry → Bool
  | reported d => d.kind = .missingToken
  | _ => false

theorem noAftermath_isMissing : NoAftermath TraceEntry.isMissing :=
  ⟨fun _ => rfl, fun _ => rfl, fun _ => rfl, fun _ => rfl, fun _ => rfl, fun _ => rfl⟩

/-- **While a token is read, no token is reported to be missing**: nothing is reported but invalid characters. -/
theorem omits_next (n : Nat) : Omits TraceEntry.isMissing (machine n).next :=
  keeps_next noAftermath_isMissing.ignoresReports
    (fun _ d hd => List.filter_cons_of_neg (by simp [TraceEntry.isMissing, hd])) n

/-! ## Groups -/

/-- The procedure neither opens nor closes a group. -/
abbrev Still (p : Proc β α) : Prop := Omits TraceEntry.isMove p

theorem noAftermath_isMove : NoAftermath TraceEntry.isMove :=
  ⟨fun _ => rfl, fun _ => rfl, fun _ => rfl, fun _ => rfl, fun _ => rfl, fun _ => rfl⟩

/-- Tokens are read and expanded without opening or closing a group. -/
theorem Meets.still {p : Proc β α} {Q : α → Prop} (h : Meets ⟨False, .scanning, False⟩ p Q) : Still p := by
  intro e
  obtain ⟨o, hcourse⟩ := Attains.course (h e False.elim)
  exact hcourse.moves_eq rfl

end Compositor
