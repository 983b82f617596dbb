import Compositor.Declaration.Builtin
import Compositor.Proofs.Engine.Protocol

/-!
# The transcript

The transcript of an engine is made of its messages and of its errors. Every message and every recoverable error has an
entry there, in the order in which they come (`chronicle`).

A fatal problem has no entry of its own. There is one for each time it is reported, and it is reported wherever errors are
absorbed on its way out (`absorb`), be it in no place at all or in several ones. The limit of errors has one more entry,
which is written when it is exceeded.

`transcript_of_run` is the statement about runs.
-/

namespace Compositor

/-! ## Entries -/

/-- What an entry of the trace means for the transcript, unless it is about a fatal problem. -/
def TraceEntry.written : TraceEntry → String
  | messaged s => s ++ "\n"
  | reported d => if d.isFatal then "" else d.logEntry
  | _ => ""

/-- The messages and the recoverable errors, in the order in which they came. -/
def chronicle : List TraceEntry → String
  | [] => ""
  | entry :: earlier => chronicle earlier ++ entry.written

def TraceEntry.isFatalReport : TraceEntry → Bool
  | reported d => d.isFatal
  | _ => false

def fatalReports (entries : List TraceEntry) : Nat := entries.countP TraceEntry.isFatalReport

def repeated (s : String) : Nat → String
  | 0 => ""
  | k + 1 => repeated s k ++ s

/-- So many entries about what stopped a procedure. -/
def lastWords (o : Option Stop) (k : Nat) : String :=
  match o with
  | some (.diagnostic d) => repeated d.logEntry k
  | _ => ""

theorem chronicle_append (new old : List TraceEntry) : chronicle (new ++ old) = chronicle old ++ chronicle new := by
  induction new with
  | nil => simp [chronicle]
  | cons entry new ih => rw [List.cons_append, chronicle, chronicle, ih, String.append_assoc]

theorem fatalReports_append (new old : List TraceEntry) : fatalReports (new ++ old) = fatalReports new + fatalReports old :=
  List.countP_append

theorem lastWords_zero (o : Option Stop) : lastWords o 0 = "" := by
  unfold lastWords
  split <;> rfl

theorem excess_of_not_fatal {o : Option Stop} (ho : ¬ IsFatalStop o) : excess o = 0 := by
  unfold excess
  split
  · rename_i d
    have hd : d.isFatal = false := by simpa [IsFatalStop] using ho
    simpa [excess] using excess_of_recoverable hd
  · rfl

/-- What comes to the trace and to the transcript between two states. -/
structure Chronicles (o : Option Stop) (e e' : Engine) (new : List TraceEntry) : Prop where
  trace : e'.trace = new ++ e.trace
  transcript : e'.transcript = e.transcript ++ chronicle new ++ lastWords o (fatalReports new + excess o)
  /-- Only what stops the procedure has been reported as a fatal problem. -/
  unreported : ¬ IsFatalStop o → fatalReports new = 0
  /-- What has been reported has the language of the run. -/
  phrased : ∀ d, o = some (.diagnostic d) → fatalReports new + excess o ≠ 0 → d.language = e.settings.language

namespace Chronicles

variable {o o' : Option Stop} {e e₁ e₂ : Engine} {new new' : List TraceEntry} {d : Diagnostic}

theorem quiet (new : List TraceEntry) (htrace : e₂.trace = new ++ e₁.trace) (htranscript : e₂.transcript = e₁.transcript)
    (hwritten : chronicle new = "") (hreports : fatalReports new = 0) (ho : excess o = 0) : Chronicles o e₁ e₂ new := by
  refine ⟨htrace, ?_, fun _ => hreports, fun d _ hne => ?_⟩
  · rw [htranscript, hwritten, hreports, ho, lastWords_zero, String.append_empty, String.append_empty]
  · rw [hreports, ho] at hne
    exact (hne rfl).elim

theorem refl (e : Engine) : Chronicles none e e [] := quiet [] rfl rfl rfl rfl rfl

theorem transcript_of_not_fatal (h : Chronicles o e e₁ new) (ho : ¬ IsFatalStop o) :
    e₁.transcript = e.transcript ++ chronicle new := by
  rw [h.transcript, h.unreported ho, excess_of_not_fatal ho, lastWords_zero, String.append_empty]

theorem append (h : Chronicles o e e₁ new) (ho : ¬ IsFatalStop o) (hsettings : e₁.settings = e.settings)
    (h' : Chronicles o' e₁ e₂ new') : Chronicles o' e e₂ (new' ++ new) := by
  have hreports : fatalReports (new' ++ new) = fatalReports new' := by
    rw [fatalReports_append, h.unreported ho, Nat.add_zero]
  refine ⟨by rw [h'.trace, h.trace, List.append_assoc], ?_, fun ho' => hreports.trans (h'.unreported ho'), ?_⟩
  · rw [hreports, h'.transcript, h.transcript_of_not_fatal ho, chronicle_append, ← String.append_assoc]
  · rw [hreports, ← hsettings]
    exact h'.phrased

/-- States which differ in nothing that is written or noted. -/
theorem congr {e' e₂' : Engine} (h : Chronicles o e e₂ new) (htrace : e'.trace = e.trace)
    (htranscript : e'.transcript = e.transcript) (hsettings : e'.settings = e.settings) (htrace' : e₂'.trace = e₂.trace)
    (htranscript' : e₂'.transcript = e₂.transcript) : Chronicles o e' e₂' new where
  trace := by rw [htrace', htrace, h.trace]
  transcript := by rw [htranscript', htranscript, h.transcript]
  unreported := h.unreported
  phrased := by rw [hsettings]; exact h.phrased

theorem message (e : Engine) (s : String) : Chronicles none e (e.message s) [.messaged s] := by
  refine ⟨rfl, ?_, fun _ => rfl, fun d hd => (Option.some_ne_none _ hd.symm).elim⟩
  have hchronicle : chronicle [.messaged s] = s ++ "\n" := String.empty_append
  rw [hchronicle]
  simp [Engine.message, lastWords, String.append_assoc]

theorem chronicle_reported (hd : d.isFatal = false) (entry : TraceEntry) (hentry : entry.written = "") :
    chronicle [entry, .reported d] = d.logEntry := by
  have hreported : (TraceEntry.reported d).written = d.logEntry := by simp [TraceEntry.written, hd]
  simp [chronicle, hentry, hreported]

theorem consult (e : Engine) (hd : d.isFatal = false) :
    Chronicles none e ((e.countError d).record (.consulted d)) [.consulted d, .reported d] := by
  have hreports : fatalReports [.consulted d, .reported d] = 0 := by simp [fatalReports, TraceEntry.isFatalReport, hd]
  refine ⟨rfl, ?_, fun _ => hreports, fun d hd => (Option.some_ne_none _ hd.symm).elim⟩
  rw [chronicle_reported hd (.consulted d) rfl]
  simp [Engine.record, Engine.countError, lastWords]

theorem exceed (e : Engine) (hd : d.isFatal = false) :
    Chronicles (some (.diagnostic (e.limit d))) e (e.exceed d) [.stopped (e.limit d), .reported d] := by
  have hreports : fatalReports [.stopped (e.limit d), .reported d] = 0 := by
    simp [fatalReports, TraceEntry.isFatalReport, hd]
  have hexcess : excess (some (.diagnostic (e.limit d))) = 1 := rfl
  refine ⟨rfl, ?_, fun _ => hreports, ?_⟩
  · rw [chronicle_reported hd (.stopped (e.limit d)) rfl, hreports, hexcess]
    simp [Engine.exceed, lastWords, repeated]
  · rintro d' hd' -
    cases hd'
    rfl

theorem phrase_of_language (hd : d.language = e.settings.language) : e.phrase d = d := by
  rw [Engine.phrase, ← hd]

/-- A fatal problem is reported, be it a new one or what has just stopped a procedure. -/
theorem refuse (h : Chronicles o e e₁ new) (hsettings : e₁.settings = e.settings) (hd : d.isFatal = true)
    (ho : o = none ∧ excess (some (.diagnostic d)) = 0 ∨ o = some (.diagnostic d)) :
    Chronicles (some (.diagnostic (e₁.phrase d))) e (e₁.refuse (e₁.phrase d))
      (.stopped (e₁.phrase d) :: .reported (e₁.phrase d) :: new) := by
  have hfatal : (e₁.phrase d).isFatal = true := hd
  have hexcess : excess (some (.diagnostic (e₁.phrase d))) = excess o := by
    rcases ho with ⟨rfl, hzero⟩ | rfl
    · exact hzero
    · rfl
  have hreports : fatalReports (.stopped (e₁.phrase d) :: .reported (e₁.phrase d) :: new) = fatalReports new + 1 := by
    simp [fatalReports, TraceEntry.isFatalReport, hfatal]
  have hchronicle : chronicle (.stopped (e₁.phrase d) :: .reported (e₁.phrase d) :: new) = chronicle new := by
    simp [chronicle, TraceEntry.written, hfatal]
  -- the entries which are there already are about the same diagnostic in the same language
  have hlast : lastWords o (fatalReports new + excess o) =
      repeated (e₁.phrase d).logEntry (fatalReports new + excess o) := by
    by_cases hzero : fatalReports new + excess o = 0
    · rw [hzero, lastWords_zero]
      rfl
    · rcases ho with ⟨rfl, -⟩ | rfl
      · have hnone : fatalReports new = 0 := h.unreported id
        exact (hzero (by rw [hnone]; rfl)).elim
      · have hlanguage := h.phrased d rfl hzero
        rw [phrase_of_language (hlanguage.trans (congrArg Settings.language hsettings.symm))]
        rfl
  refine ⟨by rw [Engine.refuse_trace, h.trace]; rfl, ?_, fun hstop => (hstop hfatal).elim, ?_⟩
  · have hcount : fatalReports new + 1 + excess o = fatalReports new + excess o + 1 := by omega
    have htranscript : (e₁.refuse (e₁.phrase d)).transcript = e₁.transcript ++ (e₁.phrase d).logEntry := rfl
    rw [htranscript, hchronicle, hreports, hexcess, hcount, h.transcript, hlast, String.append_assoc]
    rfl
  · rintro d' hd' -
    cases hd'
    exact congrArg Settings.language hsettings

end Chronicles

/-! ## Courses -/

section Courses

variable {strict : Prop} {l : Level} {o : Option Stop} {e e' : Engine}

theorem ScanStep.transcript_eq (h : ScanStep strict e e') : e'.transcript = e.transcript := by
  cases h with
  | pushText text source =>
    obtain ⟨input, heq⟩ := e.pushText_eq text source
    rw [heq]
  | _ => rfl

theorem WorkStep.chronicles (h : WorkStep strict e e') : ∃ new, Chronicles none e e' new := by
  cases h with
  | pushText text source =>
    obtain ⟨input, heq⟩ := e.pushText_eq text source
    rw [heq]
    exact ⟨[], .quiet [] rfl rfl rfl rfl rfl⟩
  | dispatch | dispatchSpace | executeGroup | openGroup | closeGroup | setMagnification | keepFont | storeBox | deliverBox
  | toggled | closed =>
    exact ⟨[_], .quiet [_] rfl rfl rfl rfl rfl⟩
  | gather => exact ⟨[_, _], .quiet [_, _] rfl rfl rfl rfl rfl⟩
  | _ => exact ⟨[], .quiet [] rfl rfl rfl rfl rfl⟩

theorem Course.chronicles (h : Course strict l o e e') (he : e.SparesInput) : ∃ new, Chronicles o e e' new := by
  -- each step adds its own entries to those of the course before it, in the language of the same settings
  induction h with
  | refl e => exact ⟨[], .refl e⟩
  | scan h hstep ih =>
    obtain ⟨new, hnew⟩ := ih he
    exact ⟨_, hnew.append id h.sameTerms.settings (.quiet [] hstep.trace_eq hstep.transcript_eq rfl rfl rfl)⟩
  | work _ h hstep ih =>
    obtain ⟨new, hnew⟩ := ih he
    obtain ⟨added, hadded⟩ := hstep.chronicles
    exact ⟨_, hnew.append id h.sameTerms.settings hadded⟩
  | exhausted h ih =>
    obtain ⟨new, hnew⟩ := ih he
    exact ⟨_, hnew.append id h.sameTerms.settings (.quiet [] rfl rfl rfl rfl rfl)⟩
  | stop h hd ih =>
    obtain ⟨new, hnew⟩ := ih he
    exact ⟨_, hnew.append id h.sameTerms.settings (.quiet [_] rfl rfl rfl rfl hd.excess_eq)⟩
  | restore _ _ ih =>
    obtain ⟨new, hnew⟩ := ih he
    exact ⟨new, hnew.congr rfl rfl rfl rfl rfl⟩
  | @refuse l o e e₁ d h hraises hd ih =>
    obtain ⟨new, hnew⟩ := ih he
    refine ⟨_, hnew.refuse h.sameTerms.settings hd ?_⟩
    cases o with
    | none => exact .inl ⟨rfl, hraises.excess_eq⟩
    | some s => exact .inr (congrArg some hraises)
  | exceed h hraises hd _ ih =>
    obtain ⟨new, hnew⟩ := ih he
    exact ⟨_, hnew.append (hraises.not_isFatalStop hd) h.sameTerms.settings (.exceed _ hd)⟩
  | consult h hraises hd _ ih =>
    obtain ⟨new, hnew⟩ := ih he
    exact ⟨_, hnew.append (hraises.not_isFatalStop hd) h.sameTerms.settings (.consult _ hd)⟩
  | answer h _ _ ih =>
    obtain ⟨new, hnew⟩ := ih he
    exact ⟨_, hnew.append id h.sameTerms.settings (.quiet [_] rfl rfl rfl rfl rfl)⟩
  | dismiss h _ _ hd ih =>
    obtain ⟨new, hnew⟩ := ih he
    exact ⟨_, hnew.append id h.sameTerms.settings (.quiet [_, _] rfl rfl rfl rfl (by simp [excess, hd]))⟩
  | say h _ s ih =>
    obtain ⟨new, hnew⟩ := ih he
    exact ⟨_, hnew.append id h.sameTerms.settings (.message _ s)⟩
  | consent h ih =>
    obtain ⟨new, hnew⟩ := ih he
    exact ⟨_, hnew.append id h.sameTerms.settings (.quiet [_] rfl rfl rfl rfl rfl)⟩
  | decline h hd ih =>
    obtain ⟨new, hnew⟩ := ih he
    exact ⟨_, hnew.append id h.sameTerms.settings (.quiet [_, _] rfl rfl rfl rfl (by simp [excess, hd]))⟩
  | forgive h hhandler hscript hanswer =>
    exact (h.sameTerms.sparesInput he hhandler _ (hscript ▸ List.mem_cons_self) _ hanswer).elim
  | decide h _ _ ih ih' =>
    obtain ⟨new, hnew⟩ := ih he
    obtain ⟨new', hnew'⟩ := ih' (h.sameTerms.sparesInput he)
    exact ⟨_, hnew.append id h.sameTerms.settings (hnew'.congr rfl rfl rfl rfl rfl)⟩
  | branch h _ _ _ ih ih' =>
    obtain ⟨new, hnew⟩ := ih he
    obtain ⟨new', hnew'⟩ := ih' (h.sameTerms.sparesInput he)
    exact ⟨_, hnew.append id h.sameTerms.settings (hnew'.congr rfl rfl rfl rfl rfl)⟩
  | box _ h _ _ _ ih ih' =>
    obtain ⟨new, hnew⟩ := ih he
    obtain ⟨new', hnew'⟩ := ih' (h.sameTerms.sparesInput he)
    exact ⟨_, hnew.append id h.sameTerms.settings (hnew'.congr rfl rfl rfl rfl rfl)⟩

end Courses

/-! ## Runs -/

theorem Outcome.chronicles {strict : Prop} {e : Engine} {r : EStateM.Result (Interrupted Unit) Engine Unit}
    (h : Outcome strict e r) (he : e.SparesInput) : ∃ new, Chronicles (stopOf r) e (finalState r) new := by
  have hreported : ∀ {o : Option Stop} {e₁ e₂ : Engine}, Course strict .working none e.begin e₁ →
      Course strict .working o e₁.clearInput e₂ → ∃ new, Chronicles o e e₂ new := by
    intro o e₁ e₂ h hreport
    obtain ⟨new, hnew⟩ := h.chronicles he
    obtain ⟨new', hnew'⟩ := hreport.chronicles (h.sameTerms.sparesInput he)
    have hnew₁ : Chronicles none e e₁ new := hnew.congr rfl rfl rfl rfl rfl
    exact ⟨_, hnew₁.append id h.sameTerms.settings (hnew'.congr rfl rfl rfl rfl rfl)⟩
  cases h with
  | @unprepared d _ hd =>
    have hexcess : excess (some (.diagnostic d)) = 0 := by
      rcases hd with hd | hd <;> simp [excess, hd]
    exact ⟨[_], .quiet [_] rfl rfl rfl rfl hexcess⟩
  | stopped h =>
    obtain ⟨new, hnew⟩ := h.chronicles he
    exact ⟨new, hnew.congr rfl rfl rfl rfl rfl⟩
  | unclosed h hreport => exact hreported h hreport
  | ended h hreport =>
    obtain ⟨new, hnew⟩ := hreported h hreport
    exact ⟨new, hnew.congr rfl rfl rfl rfl rfl⟩

/-- **What a run writes to the transcript.** Whatever the input is, and whatever the handler does, as long as it takes no
tokens from the input: the transcript grows by one entry for each message and for each recoverable error, in the order in
which they come. At the end there are entries about the fatal problem which stops the run, as many as there were reports of
it, and one more if it is the limit of errors. No other fatal problem has been reported, and a run which cannot be started
writes nothing. -/
theorem transcript_of_run (n : Nat) (e : Engine) (he : e.SparesInput) :
    ∃ new, (finalState (run (machine n) e)).trace = new ++ e.trace ∧
      (finalState (run (machine n) e)).transcript = e.transcript ++ chronicle new ++
        lastWords (stopOf (run (machine n) e)) (fatalReports new + excess (stopOf (run (machine n) e))) ∧
      (¬ IsFatalStop (stopOf (run (machine n) e)) → fatalReports new = 0) ∧
      (¬ e.Ready → (finalState (run (machine n) e)).transcript = e.transcript) := by
  have houtcome : Outcome False e (run (machine n) e) := run_outcome n False.elim
  obtain ⟨new, hnew⟩ := houtcome.chronicles he
  refine ⟨new, hnew.trace, hnew.transcript, hnew.unreported, fun hready => ?_⟩
  obtain ⟨d, -, hrun⟩ := run_of_not_ready n hready
  rw [hrun]
  rfl

/-- Two undefined names: nothing stops the run, and the transcript has the two reports. -/
theorem transcript_of_run_two_names :
    let e : Engine := (Engine.new default {}).pushText "\\a\\b" ""
    e.SparesInput ∧ (finalState (run (machine 20) e)).errorCount = 2 ∧
      (finalState (run (machine 20) e)).transcript = chronicle (finalState (run (machine 20) e)).trace := by
  intro e
  have hspares : e.SparesInput := nofun
  have hcount : (finalState (run (machine 20) e)).errorCount = 2 := by decide +kernel
  have hstop : stopOf (run (machine 20) e) = none :=
    Option.isNone_iff_eq_none.1 (by decide +kernel : (stopOf (run (machine 20) e)).isNone = true)
  obtain ⟨new, htrace, htranscript, -, -⟩ := transcript_of_run 20 e hspares
  have hstart : e.trace = [] := rfl
  have hempty : e.transcript = "" := rfl
  refine ⟨hspares, hcount, ?_⟩
  rw [htrace, hstart, List.append_nil, htranscript, hstop, hempty, String.empty_append]
  exact String.append_empty

/-- The limit of errors has two entries where it is exceeded while a command looks for a number, and the end of the input
within text which is skipped has none. -/
theorem transcript_miscounts_fatal :
    let declared := Declaration.builtin.filter fun d => d.name ∈ ["count", "iffalse"]
    let e : Engine := ((Engine.new default { maxErrors := 0 }).install declared).toOption.getD default
    (finalState (runText (machine 12) "\\count0=x" "t" e)).transcript =
        "! Missing number, treated as zero.\nl.1 t\n" ++
          repeated "! That makes 1 errors; please try again..\nl.1 t\n" 2 ∧
      (stopOf (runText (machine 12) "\\iffalse" "t" e)).isSome = true ∧
      (finalState (runText (machine 12) "\\iffalse" "t" e)).transcript = "" := by
  decide +kernel

end Compositor
