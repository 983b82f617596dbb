import Mathlib.Data.List.Infix
import Mathlib.Data.List.Induction
import Compositor.Proofs.Engine.Branching

/-!
# Where skipping ends

A position of a token list has a level: the number of conditionals started before it, less the number of those ended.
Skipping looks for the first end mark at level 0, where an `or` is one only if it is asked for. What the tokens are called
does not matter, only what they mean at the moment, and they may be nested in any way.

* `Context.ifLevel` counts over a list, `Context.skipEnd?` tells whether skipping ends with its last token;
* `carries_of_skipEnd?` follows the counter of the loop over a list in which skipping does not end;
* `skip_shortest` says how much is skipped, and what happens if there is no end.
-/

namespace Compositor

/-! ## Levels -/

/-- The end mark which a token at level 0 is for skipping. -/
def SkipClass.ends? (atOr : Bool) : SkipClass → Option EndMark
  | .mark .orMark => if atOr then some .orMark else none
  | .mark m => some m
  | .start | .text => none

/-- What a token adds to the level. -/
def SkipClass.step : SkipClass → Int
  | .start => 1
  | .mark .fiMark => -1
  | .mark _ | .text => 0

/-- What a token is for skipping, by its current meaning. -/
def Context.skipClass (c : Context) (t : Token) : SkipClass := .ofMeaning (c.meaning? t)

def Context.ifLevel (c : Context) (ts : List Token) : Int :=
  (ts.countP (c.skipClass · = .start) : Int) - ts.countP (c.skipClass · = .mark .fiMark)

def Context.skipEnd? (c : Context) (atOr : Bool) (ts : List Token) : Option EndMark :=
  if c.ifLevel ts.dropLast = 0 then ts.getLast?.bind fun t => (c.skipClass t).ends? atOr else none

def Conditional.unended (k : Conditional) : Diagnostic :=
  { kind := .inputEndedInSkip, arguments := [.text ("\\" ++ k.name), .number k.place.line] }

section Levels

variable {c : Context} {atOr : Bool} {ts : List Token} {t : Token}

theorem Context.skipEnd?_append_singleton :
    c.skipEnd? atOr (ts ++ [t]) = if c.ifLevel ts = 0 then (c.skipClass t).ends? atOr else none := by
  simp [skipEnd?]

theorem Context.ifLevel_append_singleton : c.ifLevel (ts ++ [t]) = c.ifLevel ts + (c.skipClass t).step := by
  have hstep : c.ifLevel [t] = (c.skipClass t).step := by
    unfold ifLevel
    rw [List.countP_singleton, List.countP_singleton]
    generalize c.skipClass t = a
    rcases a with _ | mark | _
    · rfl
    · cases mark <;> rfl
    · rfl
  rw [← hstep]
  unfold ifLevel
  rw [List.countP_append, List.countP_append]
  omega

theorem SkipClass.pass_zero {a : SkipClass} {mark : EndMark} (h : a.ends? atOr = some mark) :
    a.pass atOr 0 = .done mark := by
  rcases a with _ | m | _
  · cases h
  · cases m <;> cases atOr <;> cases h <;> rfl
  · cases h

/-- All other tokens are passed, and the counter of the loop goes with the level. -/
theorem SkipClass.pass_again {a : SkipClass} {level : Nat} (h : level = 0 → a.ends? atOr = none) :
    ∃ mid : Nat, a.pass atOr level = .again mid ∧ (mid : Int) = level + a.step := by
  rcases a with _ | mark | _
  · exact ⟨level + 1, rfl, rfl⟩
  · rcases level with _ | level
    · -- the only end mark which is passed at level 0
      obtain ⟨rfl, rfl⟩ : mark = .orMark ∧ atOr = false := by
        cases mark <;> cases atOr <;> simp_all [ends?]
      exact ⟨0, rfl, rfl⟩
    · cases mark with
      | fiMark => exact ⟨level, rfl, show (level : Int) = (level + 1 : Nat) + -1 by omega⟩
      | elseMark | orMark => exact ⟨level + 1, rfl, (Int.add_zero _).symm⟩
  · exact ⟨level, rfl, (Int.add_zero _).symm⟩

/-- Tokens none of which ends skipping are passed. The induction is on the list from its end, because the level of a
token is what comes before it. -/
theorem carries_of_skipEnd? (h : ∀ us, us <+: ts → c.skipEnd? atOr us = none) :
    ∃ level : Nat, Carries c atOr ts 0 level ∧ c.ifLevel ts = level := by
  induction ts using List.reverseRecOn with
  | nil => exact ⟨0, rfl, rfl⟩
  | append_singleton ts t ih =>
    obtain ⟨level, hcarries, hlevel⟩ := ih fun us hus => h us (hus.trans (List.prefix_append ts [t]))
    have hlast := h _ List.prefix_rfl
    rw [Context.skipEnd?_append_singleton, hlevel] at hlast
    have hpassed : level = 0 → (c.skipClass t).ends? atOr = none := by
      rintro rfl
      rwa [if_pos Int.natCast_zero] at hlast
    obtain ⟨mid, hpass, hmid⟩ := SkipClass.pass_again hpassed
    refine ⟨mid, carries_append.2 ⟨level, hcarries, mid, hpass, rfl⟩, ?_⟩
    rw [Context.ifLevel_append_singleton, hlevel, hmid]

end Levels

/-! ## Skipping -/

/-- **Skipping ends at the first end mark at level 0.** If the next tokens of the input are a list which ends with such a
mark, and no shorter part of it does, just these tokens are taken from the input and the mark is delivered. If the input
comes to its end before there is one, everything is taken and skipping is stopped by a fatal diagnostic. Nothing else of
the engine is changed: no token is executed or expanded. -/
theorem skip_shortest (e : Engine) (k : Conditional) (atOr : Bool) :
    (∀ ts rest mark, e.input.Delivers e.context.lexicon ts rest → e.context.skipEnd? atOr ts = some mark →
      (∀ us, us <+: ts → us ≠ ts → e.context.skipEnd? atOr us = none) →
      Runs (skip · k atOr) e mark (e.withInput rest)) ∧
    (∀ ts, e.input.Holds e.context.lexicon ts → (∀ us, us <+: ts → e.context.skipEnd? atOr us = none) →
      Stops (skip · k atOr) e ⟨.diagnostic k.unended, ()⟩ ((e.withInput []).record (.stopped k.unended)) ∧
      k.unended.isFatal = true) := by
  constructor
  · intro ts rest mark hinput hend hshortest
    obtain ⟨us, t, rfl⟩ : ∃ us t, ts = us ++ [t] := by
      rcases List.eq_nil_or_concat ts with rfl | ⟨us, t, rfl⟩
      · cases hend
      · exact ⟨us, t, List.concat_eq_append⟩
    have hnone : ∀ vs, vs <+: us → e.context.skipEnd? atOr vs = none := fun vs hvs =>
      hshortest vs (hvs.trans (List.prefix_append us [t])) fun h => absurd (h ▸ hvs).length_le (by simp)
    obtain ⟨level, hcarries, hlevel⟩ := carries_of_skipEnd? hnone
    rw [Context.skipEnd?_append_singleton] at hend
    obtain ⟨hzero, hmark⟩ : e.context.ifLevel us = 0 ∧ (e.context.skipClass t).ends? atOr = some mark := by
      split at hend <;> simp_all
    obtain rfl : level = 0 := by omega
    have hruns : Runs (skip · k atOr) (e.reading e.input e.context.conditionals e.serial) mark (e.withInput rest) :=
      skip_runs hcarries (SkipClass.pass_zero hmark) hinput
    exact hruns
  · intro ts ⟨rest, hinput, hpull⟩ hnone
    obtain ⟨level, hcarries, -⟩ := carries_of_skipEnd? hnone
    refine ⟨?_, rfl⟩
    have hadvances : Advances (skipStep · k atOr) 0 (e.reading e.input e.context.conditionals e.serial) level
        (e.withInput rest) := skip_advances hcarries hinput
    refine hadvances.stops ?_
    exact Runs.bind_stops (next_runs_none (e := e.withInput rest) hpull) (Stops.of_eq fun m => rfl)

/-- Inner end marks are passed, and an `or` which is not asked for. -/
theorem skip_shortest_nested (k : Conditional) :
    let word (name : String) : Token := .controlSequence name ""
    let inner := [word "iffalse", word "else", word "fi"]
    let outer := inner ++ [word "or", word "fi"]
    let e (input : Input) : Engine := { context := Passage.sampleContext, input }
    let rest := Input.pushTokens [] [word "fi"]
    Runs (skip · k false) (e (rest.pushTokens outer)) .fiMark (e rest) ∧
    Stops (skip · k true) (e (Input.pushTokens [] inner)) ⟨.diagnostic k.unended, ()⟩
      ((e []).record (.stopped k.unended)) := by
  intro word inner outer e rest
  have houter : ∀ us ∈ outer.inits, us ≠ outer → Passage.sampleContext.skipEnd? false us = none := by decide
  have hinner : ∀ us ∈ inner.inits, Passage.sampleContext.skipEnd? true us = none := by decide
  constructor
  · have hskip := (skip_shortest (e (rest.pushTokens outer)) k false).1 outer rest .fiMark
    exact hskip (rest.delivers_pushTokens outer) (by decide) fun us hus => houter us ((List.mem_inits _ _).2 hus)
  · have hskip := (skip_shortest (e (Input.pushTokens [] inner)) k true).2 inner
    exact (hskip (Input.holds_pushTokens inner Input.holds_nil) fun us hus => hinner us ((List.mem_inits _ _).2 hus)).1

end Compositor
