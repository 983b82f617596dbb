import Compositor.Proofs.Engine.Noted
import Compositor.Proofs.Engine.Substitution

/-!
# The end of a paragraph in a use

A definition which is not long takes no control sequence `par` in its arguments. This is asked of every token which is read
for an argument, before the token is compared with the delimiter of the argument. So a delimiter with a `par` in it is never
found: the use is given up at the first `par` of its delimiters, which is then read as if it came after the use. The
tokens in front of the first parameter may contain a `par`, for nothing is asked of them but to match.

* `Definition.givenUp` is the engine after a use has been given up, `expand_stops` says where that happens;
* `par_delimiters` says which uses are replaced and which are given up.
-/

namespace Compositor

namespace Definition

/-- The problem of a use which is given up. -/
def runaway (d : Definition) (place : Locator) : Diagnostic :=
  { kind := .runawayArgument, place, arguments := [.text ("\\" ++ d.name)] }

/-- The engine after a use has been given up at a token, which is put back. -/
def givenUp (d : Definition) (e : Engine) (t : Token) : Engine :=
  (e.pushTokens [t]).record (.stopped (d.runaway (e.pushTokens [t]).locator))

/-- What a use leaves which is given up at a token. -/
def interrupted (d : Definition) (e : Engine) (t : Token) : Interrupted Unit :=
  ⟨.diagnostic (d.runaway (e.pushTokens [t]).locator), ()⟩

section Stopped

variable {d : Definition} {e : Engine} {input mid : Input} {t : Token} {level : Nat} {acc delimiter seen unseen : List Token}

theorem endsParagraph_eq_true (hlong : d.isLong = false) (ht : t.IsPar) : d.endsParagraph t = true := by
  obtain ⟨hcs, hname⟩ := ht
  simp only [endsParagraph, hlong, hcs, hname, Bool.not_false, Bool.and_self, beq_self_eq_true]

theorem delimitedStep_stops (hlong : d.isLong = false) (ht : t.IsPar)
    (hpull : e.input.pull e.context.lexicon = (.token t, input)) :
    Stops (d.delimitedStep · delimiter (level, acc)) e (d.interrupted (e.withInput input) t)
      (d.givenUp (e.withInput input) t) := by
  refine (argumentToken_runs hpull).bind_stops ?_
  simp only [endsParagraph_eq_true hlong ht, if_true]
  exact Stops.of_eq fun _ => rfl

theorem ne_nil_of_par {argument : List Token} (hlong : d.isLong = false) (hfits : Fits d.isLong delimiter argument)
    (hmem : t ∈ argument ++ delimiter) (ht : t.IsPar) : delimiter ≠ [] := by
  rintro rfl
  rw [List.append_nil] at hmem
  exact hfits.noPar hlong t hmem ht

/-- An argument is given up at the first `par` of its delimiter. -/
theorem delimitedArgument_stops {argument : List Token} (hlong : d.isLong = false) (hfits : Fits d.isLong delimiter argument)
    (hplain : ∀ t ∈ delimiter, t.IsNoBrace) (hwhole : argument ++ delimiter = seen ++ t :: unseen)
    (hseen : ∀ t ∈ seen, ¬ t.IsPar) (ht : t.IsPar) (hinput : e.input.Delivers e.context.lexicon seen mid)
    (hpull : mid.pull e.context.lexicon = (.token t, input)) :
    Stops (d.delimitedArgument · delimiter) e (d.interrupted (e.withInput input) t) (d.givenUp (e.withInput input) t) := by
  have hne := ne_nil_of_par hlong hfits (hwhole ▸ List.mem_append_cons_self) ht
  obtain ⟨level, -, hadvances⟩ := delimited_advances hfits hne hplain hwhole (by simp) (fun _ => hseen) hinput
  exact hadvances.stops (delimitedStep_stops (e := e.withInput mid) hlong ht hpull)

/-- The arguments of a use are given up at the first `par` of its delimiters. -/
theorem readArguments_stops {delimiters arguments : List (List Token)} (hlong : d.isLong = false)
    (hplain : ∀ delimiter ∈ delimiters, ∀ t ∈ delimiter, t.IsNoBrace)
    (hfits : List.Forall₂ (Fits d.isLong) delimiters arguments)
    (huse : useTokens delimiters arguments = seen ++ t :: unseen) (hseen : ∀ t ∈ seen, ¬ t.IsPar) (ht : t.IsPar)
    (hinput : e.input.Delivers e.context.lexicon seen mid) (hpull : mid.pull e.context.lexicon = (.token t, input)) :
    Stops (d.readArguments · delimiters) e (d.interrupted (e.withInput input) t) (d.givenUp (e.withInput input) t) := by
  induction hfits generalizing seen e with
  | nil => simp [useTokens] at huse
  | @cons delimiter argument delimiters arguments hargument _ ih =>
    rcases append_eq_split huse with ⟨after, hwhole, -⟩ | ⟨before, rfl, hrest⟩
    · -- the first argument is given up
      have hne := ne_nil_of_par hlong hargument (hwhole ▸ List.mem_append_cons_self) ht
      have hstops := delimitedArgument_stops hlong hargument (hplain delimiter (by simp)) hwhole hseen ht hinput hpull
      simp only [readArguments, List.isEmpty_iff, hne, if_false]
      exact hstops.bind _
    · -- the first argument is read, and one of the others is given up
      obtain ⟨mid₁, hfirst, hinput⟩ := Input.delivers_append.1 hinput
      obtain ⟨value, hvalue⟩ := exists_unbraced argument
      have hstops := ih (e := e.withInput mid₁) (fun delimiter h => hplain delimiter (by simp [h])) hrest
        (fun t ht => hseen t (by simp [ht])) hinput hpull
      have hcons : Stops (fun m => return value :: (← d.readArguments m delimiters)) (e.withInput mid₁) _ _ := hstops.bind _
      by_cases hempty : delimiter = []
      · subst hempty
        rw [List.append_nil] at hfirst
        exact (undelimitedArgument_runs hargument hvalue hfirst).bind_stops hcons
      · have hdelimited := delimitedArgument_runs hargument hempty (hplain delimiter (by simp))
          (fun _ t ht => hseen t (by simp [ht])) hvalue hfirst
        simp only [readArguments, List.isEmpty_iff, hempty, if_false]
        exact hdelimited.bind_stops hcons

/-- **A use is given up at the first `par` of its delimiters.** -/
theorem expand_stops {arguments : List (List Token)} (hlong : d.isLong = false)
    (hplain : ∀ delimiter ∈ d.delimiters, ∀ t ∈ delimiter, t.IsNoBrace)
    (hfits : List.Forall₂ (Fits d.isLong) d.delimiters arguments)
    (huse : useTokens d.delimiters arguments = seen ++ t :: unseen) (hseen : ∀ t ∈ seen, ¬ t.IsPar) (ht : t.IsPar)
    (hinput : e.input.Delivers e.context.lexicon (d.opening ++ seen) mid)
    (hpull : mid.pull e.context.lexicon = (.token t, input)) :
    Stops (d.expand ·) e (d.interrupted (e.withInput input) t) (d.givenUp (e.withInput input) t) := by
  obtain ⟨mid₁, hopening, hinput⟩ := Input.delivers_append.1 hinput
  refine (matchTokens_runs hopening).bind_stops ?_
  exact (readArguments_stops (e := e.withInput mid₁) hlong hplain hfits huse hseen ht hinput hpull).bind _

end Stopped

/-! ## Uses which are replaced, and uses which are given up -/

theorem mem_useTokens {isLong : Bool} {delimiters arguments : List (List Token)}
    (hfits : List.Forall₂ (Fits isLong) delimiters arguments) {t : Token} (ht : t ∈ delimiters.flatten) :
    t ∈ useTokens delimiters arguments := by
  induction hfits with
  | nil => exact ht
  | cons _ _ ih =>
    rw [List.flatten_cons, List.mem_append] at ht
    rw [useTokens, List.append_assoc, List.mem_append, List.mem_append]
    exact .inr (ht.imp id ih)

theorem exists_first_par {ts : List Token} (h : ∃ t ∈ ts, t.IsPar) :
    ∃ seen t unseen, ts = seen ++ t :: unseen ∧ (∀ u ∈ seen, ¬ u.IsPar) ∧ t.IsPar := by
  have hfound : (ts.find? (Decidable.decide ·.IsPar)).isSome = true := List.find?_isSome.2 (by simpa using h)
  obtain ⟨t, ht⟩ := Option.isSome_iff_exists.1 hfound
  obtain ⟨hpar, seen, unseen, hts, hseen⟩ := List.find?_eq_some_iff_append.1 ht
  exact ⟨seen, t, unseen, hts, by simpa using hseen, of_decide_eq_true hpar⟩

theorem expand_reports {d : Definition} {e : Engine} {input : Input} {t : Token}
    (hstops : Stops (d.expand ·) e (d.interrupted (e.withInput input) t) (d.givenUp (e.withInput input) t))
    (hgoes : e.handler.GoesOn e.context) (hlimit : (e.errorCount + 1 : Nat) ≤ e.settings.maxErrors) :
    ∃ e', Engine.Reported [.runawayArgument] (d.givenUp (e.withInput input) t) e' ∧
      ∀ u, e.context.meaning? u = some (.definition d) → Runs (Compositor.expand · u) e true e' := by
  let stopped := d.givenUp (e.withInput input) t
  have hbears : stopped.Bears 1 := by
    have hsame : stopped.handler.GoesOn stopped.context := hgoes
    exact hsame.bears hlimit
  let problem := d.runaway ((e.withInput input).pushTokens [t]).locator
  obtain ⟨e', hreported, hreport⟩ := hbears.report (d := problem) rfl stopped.input
  rw [Engine.withInput_self, ← hreported.input, Engine.withInput_self] at hreport
  refine ⟨e', hreported, fun u hu => ?_⟩
  have habsorb : Runs (fun m => absorb m ((do return { tokens := ← d.expand m } : Action Replacement).giving {})) e {} e' :=
    ((hstops.bind _).giving _).absorb (.of_eq hreport)
  have hinsert : Runs (fun m => insertReplacement m do return { tokens := ← d.expand m }) e () e' :=
    habsorb.bind (.of_eq fun _ => rfl)
  have hexpand := hinsert.bind (q := fun _ _ => pure true) (.of_eq fun _ => rfl)
  refine hexpand.congr fun m => ?_
  rw [Compositor.expand, meaningOf_bind, hu]

end Definition

open Definition in
/-- **A `par` in a delimiter ends the use.** A use of a definition is read whose arguments fit; the delimiter after each
of them is the first one outside of groups. If the definition is long or its delimiters are without a `par`, the use is
replaced by the replacement text with the arguments in place. Otherwise it is given up at the first `par` of the delimiters,
with a problem. This one is put back, and what comes after it is not read. If the handler of errors goes on, the problem is
reported and nothing takes the place of the use, whatever token stands for the definition. -/
theorem par_delimiters (d : Definition) (e : Engine) (arguments : List (List Token)) (rest : Input)
    (hplain : ∀ delimiter ∈ d.delimiters, ∀ t ∈ delimiter, t.IsNoBrace)
    (hfits : List.Forall₂ (Fits d.isLong) d.delimiters arguments)
    (hinput : e.input.Delivers e.context.lexicon (d.opening ++ useTokens d.delimiters arguments) rest) :
    ((d.isLong = false → ∀ t ∈ d.delimiters.flatten, ¬ t.IsPar) →
        ∃ values, List.Forall₂ Unbraced arguments values ∧ Runs (d.expand ·) e (d.substitute values) (e.withInput rest)) ∧
      (d.isLong = false → (∃ t ∈ d.delimiters.flatten, t.IsPar) →
        ∃ seen t unseen input, useTokens d.delimiters arguments = seen ++ t :: unseen ∧ (∀ u ∈ seen, ¬ u.IsPar) ∧ t.IsPar ∧
          input.Delivers e.context.lexicon unseen rest ∧
          Stops (d.expand ·) e (d.interrupted (e.withInput input) t) (d.givenUp (e.withInput input) t) ∧
          (e.handler.GoesOn e.context → (e.errorCount + 1 : Nat) ≤ e.settings.maxErrors →
            ∃ e', Engine.Reported [.runawayArgument] (d.givenUp (e.withInput input) t) e' ∧
              ∀ u, e.context.meaning? u = some (.definition d) → Runs (Compositor.expand · u) e true e')) := by
  constructor
  · intro hnone
    obtain ⟨values, hvalues⟩ := exists_forall₂_unbraced arguments
    have hpar : d.isLong = false → ∀ delimiter ∈ d.delimiters, ∀ t ∈ delimiter, ¬ t.IsPar := fun hlong delimiter hd t ht =>
      hnone hlong t (List.mem_flatten.2 ⟨delimiter, hd, ht⟩)
    exact ⟨values, hvalues, expand_runs hplain hpar hfits hvalues hinput⟩
  · rintro hlong ⟨t₀, ht₀, hpar₀⟩
    obtain ⟨seen, t, unseen, huse, hseen, ht⟩ := exists_first_par ⟨t₀, mem_useTokens hfits ht₀, hpar₀⟩
    rw [huse, ← List.append_assoc] at hinput
    obtain ⟨mid, hread, input, hpull, hunseen⟩ := Input.delivers_append.1 hinput
    have hstops := expand_stops hlong hplain hfits huse hseen ht hread hpull
    exact ⟨seen, t, unseen, input, huse, hseen, ht, hunseen, hstops, expand_reports hstops⟩

/-- `(#1)` with the parameter text `#1\par`. -/
def Definition.upToPar (isLong : Bool) : Definition :=
  { name := "a", delimiters := [[.controlSequence "par" ""]], isLong,
    body := [.token (.other '('), .argument 1, .token (.other ')')] }

theorem Definition.upToPar_fits (isLong : Bool) :
    List.Forall₂ (Fits isLong) (upToPar isLong).delimiters [[.letter 'b']] := by
  have hfirst : ∀ ts ∈ ([.letter 'b', .controlSequence "par" ""] : List Token).inits, levelAfter 0 ts = some 0 →
      [Token.controlSequence "par" ""] <:+ ts → ts = [.letter 'b', .controlSequence "par" ""] := by decide
  refine .cons ⟨by decide, fun _ => by decide, (fun h => by cases h), fun _ ts hts => ?_⟩ .nil
  exact hfirst ts ((List.mem_inits ts _).2 hts)

/-- The use `b\par` is given up at the `par`, unless the definition is long. -/
theorem par_delimiters_sample :
    let tokens : List Token := [.letter 'b', .controlSequence "par" ""]
    let e : Engine := (Engine.new default {}).withInput (Input.pushTokens [] tokens)
    (∃ values, Runs ((Definition.upToPar true).expand ·) e ((Definition.upToPar true).substitute values) (e.withInput [])) ∧
      ∃ input e', Stops ((Definition.upToPar false).expand ·) e
          ((Definition.upToPar false).interrupted (e.withInput input) (.controlSequence "par" ""))
          ((Definition.upToPar false).givenUp (e.withInput input) (.controlSequence "par" "")) ∧
        Engine.Reported [.runawayArgument]
          ((Definition.upToPar false).givenUp (e.withInput input) (.controlSequence "par" "")) e' := by
  intro tokens e
  have hplain : ∀ isLong, ∀ delimiter ∈ (Definition.upToPar isLong).delimiters, ∀ t ∈ delimiter, t.IsNoBrace := by decide
  have hinput : e.input.Delivers e.context.lexicon tokens [] := Input.delivers_pushTokens [] tokens
  constructor
  · obtain ⟨hreplaced, -⟩ := par_delimiters (.upToPar true) e _ [] (hplain true) (Definition.upToPar_fits true) hinput
    obtain ⟨values, -, hruns⟩ := hreplaced (by decide)
    exact ⟨values, hruns⟩
  · obtain ⟨-, hstopped⟩ := par_delimiters (.upToPar false) e _ [] (hplain false) (Definition.upToPar_fits false) hinput
    obtain ⟨seen, t, unseen, input, huse, -, ht, -, hstops, hreports⟩ := hstopped rfl (by decide)
    have huse : tokens = seen ++ t :: unseen := huse
    have hmem : t ∈ tokens := huse ▸ List.mem_append_cons_self
    obtain rfl : t = .controlSequence "par" "" := by
      rcases List.mem_cons.1 hmem with rfl | hlast
      · exact absurd ht (by decide)
      · exact List.mem_singleton.1 hlast
    obtain ⟨e', hreported, -⟩ := hreports trivial (by decide)
    exact ⟨input, e', hstops, hreported⟩

/-- A control sequence is defined whose parameter is delimited by a `par`, and used with an argument which fits. An error is
reported, and only the `par` is left of the use. -/
theorem par_delimiter_refused :
    List.Forall₂ (Fits false) (Definition.upToPar false).delimiters [[.letter 'b']] ∧
      (let e := finalState (define (machine 12) .none false false
        ((Engine.new default {}).pushText "\\a#1\\par\x7b(#1)\x7db\\par" ""))
      let e' := finalState (expand (machine 12) (.controlSequence "a" "") e)
      e.context.meaning (.controlSequence "a" "") = some (.definition (.upToPar false)) ∧ e.errorCount = 0 ∧
        e'.errorCount = 1 ∧ e'.input.waiting = [.controlSequence "par" ""]) :=
  ⟨Definition.upToPar_fits false, by decide +kernel⟩

end Compositor
