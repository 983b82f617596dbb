import Compositor.Proofs.Engine.Magnification

/-!
# Legal magnifications

A magnification is legal if it is at least one and not above its bound. Every assignment is checked against the bound, but
the bound may be set below a magnification which stays as it is. So all that can be said of a context which has been made
legal is that it stays so until this happens, and no run does it.

* `Context.Legal.undergo_iff` says which deeds take the legality away, `Evolves.upholds` that the engine never does;
* `Engine.Onward` are the states which come later while the bound is not set below the magnification;
* `absoluteUnit_of_legal` and `absoluteUnit_of_illegal` say what becomes of a true unit;
* `magnification_legal` is the statement about all settings and all states.
-/

namespace Compositor

/-! ## Contexts -/

namespace Context

/-- The magnification is within its bounds. -/
structure Legal (c : Context) : Prop where
  least : 1 ≤ c.magnification
  greatest : c.magnification ≤ c.maxMagnification

/-- The magnification and its bound are at least one. -/
structure Positive (c : Context) : Prop where
  magnification : 1 ≤ c.magnification
  maxMagnification : 1 ≤ c.maxMagnification

/-- The bound stays, and with it the magnification, unless there is a legal one instead. -/
structure Upholds (c c' : Context) : Prop where
  maxMagnification : c'.maxMagnification = c.maxMagnification
  magnification : c'.magnification = c.magnification ∨ c'.Legal

/-- The bound is set below the magnification. -/
def Undercuts (c : Context) (d : Deed) : Prop := ∃ max, d = .setMaxMagnification max ∧ 1 ≤ max ∧ max < c.magnification

variable {c c₁ c' : Context} {v max : Int64} {lock : Bool}

theorem legal_iff : c.Legal ↔ ¬ (c.magnification < 1 ∨ c.magnification > c.maxMagnification) := by
  rw [not_or, gt_iff_lt, Int64.not_lt, Int64.not_lt]
  exact ⟨fun h => ⟨h.least, h.greatest⟩, fun h => ⟨h.1, h.2⟩⟩

theorem Legal.positive (h : c.Legal) : c.Positive := ⟨h.least, Int64.le_trans h.least h.greatest⟩

theorem setMagnification_legal (h : c.setMagnification v lock = .ok c') : c'.Legal := by
  have hrange : ¬ (v < 1 ∨ v > c.maxMagnification) := by
    rw [← @setMagnification_illegal_iff c v lock, h]
    exact nofun
  rw [setMagnification_eq h]
  exact legal_iff.2 hrange

namespace Upholds

theorem refl (c : Context) : c.Upholds c := ⟨rfl, .inl rfl⟩

theorem legal (h : c.Upholds c') (hc : c.Legal) : c'.Legal := by
  rcases h.magnification with hsame | hlegal
  · exact ⟨hsame ▸ hc.least, by rw [hsame, h.maxMagnification]; exact hc.greatest⟩
  · exact hlegal

theorem trans (h : c.Upholds c₁) (h' : c₁.Upholds c') : c.Upholds c' := by
  refine ⟨h'.maxMagnification.trans h.maxMagnification, ?_⟩
  rcases h.magnification with hsame | hlegal
  · rw [← hsame]
    exact h'.magnification
  · exact .inr (h'.legal hlegal)

end Upholds

theorem setMaxMagnification_bounds (c : Context) (h : 1 ≤ max) :
    (c.setMaxMagnification max).magnification = c.magnification ∧
      (c.setMaxMagnification max).maxMagnification = max := by
  simp only [setMaxMagnification, ge_iff_le, h, if_true, and_self]

theorem Regroups.bounds (h : c.Regroups c') :
    c'.magnification = c.magnification ∧ c'.maxMagnification = c.maxMagnification := by
  obtain ⟨_, _, _, _, rfl⟩ := h
  exact ⟨rfl, rfl⟩

theorem Regroups.upholds (h : c.Regroups c') : c.Upholds c' := ⟨h.bounds.2, .inl h.bounds.1⟩

theorem undergo_upholds (c : Context) {d : Deed} (hd : ∀ max, d ≠ .setMaxMagnification max) : c.Upholds (c.undergo d) := by
  cases d with
  | setMaxMagnification max => exact absurd rfl (hd max)
  | setMagnification v lock =>
    simp only [undergo]
    cases hset : c.setMagnification v lock with
    | ok c' =>
      refine ⟨?_, .inr (setMagnification_legal hset)⟩
      rw [setMagnification_eq hset]
      rfl
    | error fault => exact .refl c
  | operate op => exact (c.regroups_apply op).upholds
  | set k v globally => exact (c.regroups_set k v globally).upholds
  | afterGroupToken t => exact (c.regroups_afterGroupToken t).upholds
  | afterGroupNotice label => exact (c.regroups_afterGroupNotice label).upholds
  | setCalendar m => exact (c.regroups_setCalendar m).upholds
  | _ => exact ⟨rfl, .inl rfl⟩

/-- **A legal magnification stays legal, until the bound is set below it.** -/
theorem Legal.undergo_iff (h : c.Legal) (d : Deed) : (c.undergo d).Legal ↔ ¬ c.Undercuts d := by
  by_cases hd : ∃ max, d = .setMaxMagnification max
  · obtain ⟨max, rfl⟩ := hd
    simp only [undergo, setMaxMagnification]
    split
    · rename_i hmax
      refine ⟨fun hlegal => ?_, fun hcut => ⟨h.least, Int64.not_lt.1 fun hlt => hcut ⟨max, rfl, hmax, hlt⟩⟩⟩
      rintro ⟨max', heq, -, hlt⟩
      cases heq
      exact Int64.not_lt.2 hlegal.greatest hlt
    · rename_i hmax
      refine ⟨fun _ => ?_, fun _ => h⟩
      rintro ⟨max', heq, hmax', -⟩
      cases heq
      exact hmax hmax'
  · refine ⟨fun _ hcut => hd ⟨hcut.choose, hcut.choose_spec.1⟩, fun _ => ?_⟩
    exact (c.undergo_upholds fun max heq => hd ⟨max, heq⟩).legal h

theorem Evolves.upholds (h : c.Evolves c') : c.Upholds c' := by
  obtain ⟨ds, hds, rfl⟩ := h
  induction ds generalizing c with
  | nil => exact .refl c
  | cons d ds ih =>
    have hfirst : c.Upholds (c.undergo d) := by
      refine c.undergo_upholds fun max heq => ?_
      subst heq
      exact hds _ (List.mem_cons_self ..)
    exact hfirst.trans (ih fun d' hd' => hds d' (List.mem_cons_of_mem _ hd'))

theorem Positive.undergo (h : c.Positive) (d : Deed) : (c.undergo d).Positive := by
  by_cases hd : ∃ max, d = .setMaxMagnification max
  · obtain ⟨max, rfl⟩ := hd
    simp only [Context.undergo, setMaxMagnification]
    split
    · rename_i hmax
      exact ⟨h.magnification, hmax⟩
    · exact h
  · have hupholds := c.undergo_upholds fun max heq => hd ⟨max, heq⟩
    refine ⟨?_, hupholds.maxMagnification ▸ h.maxMagnification⟩
    rcases hupholds.magnification with hsame | hlegal
    · exact hsame ▸ h.magnification
    · exact hlegal.least

theorem new_bounds (id : String) (moment : Moment) :
    (Context.new id moment).magnification = 1000 ∧ (Context.new id moment).maxMagnification = defaultMaxMagnification :=
  ((({ id } : Context).regroups_setCount "mag" 1000 true).trans (regroups_setCalendar _ moment)).bounds

theorem Undergoes.positive (h : c.Undergoes c') (hc : c.Positive) : c'.Positive := by
  obtain ⟨ds, rfl⟩ := h
  induction ds generalizing c with
  | nil => exact hc
  | cons d ds ih => exact ih (hc.undergo d)

end Context

/-! ## Settings -/

namespace Settings

theorem readAll_preserves {P : Settings → Prop} {readers : List (Settings → Except Fault Settings)}
    (h : ∀ read ∈ readers, ∀ s s', read s = .ok s' → P s → P s') {s : Settings} (hs : P s) :
    P (s.readAll readers).1 := by
  induction readers generalizing s with
  | nil => exact hs
  | cons read readers ih =>
    simp only [readAll]
    cases hread : read s with
    | error fault => exact hs
    | ok s' =>
      have hnext : P s' := h read (List.mem_cons_self ..) s s' hread hs
      exact ih (fun r hr => h r (List.mem_cons_of_mem _ hr)) hnext

theorem readMaxMagnification_pos {s s' : Settings} {text : String} (h : s.readMaxMagnification text = .ok s')
    (hs : 1 ≤ s.maxMagnification) : 1 ≤ s'.maxMagnification := by
  simp only [readMaxMagnification] at h
  split at h
  · cases h
    exact hs
  · split at h
    · split at h
      · cases h
      · rename_i hpos
        cases h
        exact Int64.not_lt.1 hpos
    · cases h

/-- The bound of the magnification which is read from a configuration is positive, whatever the configuration says. -/
theorem maxMagnification_pos (languages : Languages) (text : String → String) :
    1 ≤ (ofConfiguration languages text).1.maxMagnification := by
  unfold ofConfiguration
  refine readAll_preserves (P := fun s => 1 ≤ s.maxMagnification) (fun read hread s s' h hs => ?_) (by decide)
  have hs : 1 ≤ s.maxMagnification := hs
  show 1 ≤ s'.maxMagnification
  simp only [List.mem_cons, List.not_mem_nil, or_false] at hread
  rcases hread with rfl | rfl | rfl | rfl
  · have hsame : s'.maxMagnification = s.maxMagnification := by
      simp only [readMaxErrors] at h
      grind
    rw [hsame]
    exact hs
  · exact readMaxMagnification_pos h hs
  · have hsame : s'.maxMagnification = s.maxMagnification := by
      simp only [readInteraction] at h
      grind
    rw [hsame]
    exact hs
  · have hsame : s'.maxMagnification = s.maxMagnification := by
      simp only [readLanguage] at h
      grind
    rw [hsame]
    exact hs

end Settings

/-! ## Engines -/

section Engines

variable {strict : Prop} {l : Level} {o : Option Stop} {e e₁ e' : Engine}

namespace Engine

/-- A state which may come after another one, where the bound is never set below the magnification. -/
inductive Onward (e : Engine) : Engine → Prop where
  | refl : Onward e e
  | use {e₁ : Engine} (h : Onward e e₁) (u : Use) (hu : ∀ d, u = .deed d → ¬ e₁.context.Undercuts d) :
      Onward e (e₁.use u)
  | course {e₁ e₂ : Engine} {strict : Prop} {l : Level} {o : Option Stop} (h : Onward e e₁)
      (hcourse : Course strict l o e₁ e₂) : Onward e e₂

theorem Onward.legal (h : e.Onward e') (he : e.context.Legal) : e'.context.Legal := by
  induction h with
  | refl => exact he
  | @use e₁ _ u hu ih =>
    by_cases hdeed : ∃ d, u = .deed d
    · obtain ⟨d, rfl⟩ := hdeed
      exact (ih.undergo_iff d).2 (hu d rfl)
    · exact (e₁.use_evolves fun d heq => hdeed ⟨d, heq⟩).upholds.legal ih
  | course _ hcourse ih => exact hcourse.evolves.upholds.legal ih

/-- A new engine takes the bound from its settings, and the magnification from its context. -/
theorem new_legal_iff (c : Context) {settings : Settings} (hc : 1 ≤ c.magnification)
    (hsettings : 1 ≤ settings.maxMagnification) :
    (Engine.new c settings).context.Legal ↔ c.magnification ≤ settings.maxMagnification := by
  let frozen := c.setMeaning frozenRelaxToken (some .frozenRelax) true
  let bounded := frozen.setMaxMagnification settings.maxMagnification
  have hfrozen := (c.regroups_setMeaning frozenRelaxToken (some .frozenRelax) true).bounds
  have hbounded := frozen.setMaxMagnification_bounds hsettings
  have hinteraction := (bounded.regroups_setInteraction settings.interaction true).bounds
  have hmagnification : (Engine.new c settings).context.magnification = c.magnification :=
    hinteraction.1.trans (hbounded.1.trans hfrozen.1)
  have hbound : (Engine.new c settings).context.maxMagnification = settings.maxMagnification :=
    hinteraction.2.trans hbounded.2
  refine ⟨fun h => ?_, fun h => ⟨?_, ?_⟩⟩
  · rw [← hmagnification, ← hbound]
    exact h.greatest
  · rwa [hmagnification]
  · rwa [hmagnification, hbound]

end Engine

/-! ## True units -/

variable {n : Nat} {whole part : Int64}

theorem Context.SameNumbers.legal_iff {c c' : Context} (h : c.SameNumbers c') : c'.Legal ↔ c.Legal := by
  rw [Context.legal_iff, Context.legal_iff, h.magnification, h.maxMagnification]

theorem Context.Legal.setMagnification {c : Context} (h : c.Legal) (lock : Bool) :
    ∃ c', c.setMagnification c.magnification lock = .ok c' := by
  have hlegal := Context.legal_iff.1 h
  have hsame : ¬ (c.magnificationLocked = true ∧ c.magnification ≠ c.magnification) := fun h => h.2 rfl
  unfold Context.setMagnification
  rw [if_neg hlegal, if_neg hsame]
  exact ⟨_, rfl⟩

theorem keyword_sameNumbers (htrue : keyword (machine n) "true" e = .ok true e₁) : e.context.SameNumbers e₁.context := by
  have hcourse : Course False .scanning none e e₁ :=
    ((meets_keyword (R := Regime.reading.loose) (machine_sound n) "true" e False.elim).ok htrue).1
  exact hcourse.sameNumbers rfl

/-- **A true unit is scanned to its end**, with the magnification locked, if the magnification is legal. -/
theorem absoluteUnit_of_legal (htrue : keyword (machine n) "true" e = .ok true e₁) (h : e.context.Legal)
    (whole part : Int64) :
    ∃ locked, e₁.context.setMagnification e.context.magnification true = .ok locked ∧
      absoluteUnit (machine n) whole part e =
        physicalLength (machine n) whole part e.context.magnification { e₁ with context := locked } := by
  have hsame := keyword_sameNumbers htrue
  obtain ⟨locked, hlocked⟩ := (hsame.legal_iff.2 h).setMagnification true
  have hlift : (monadLift (keyword (machine n) "true") : Action Bool) e = .ok true e₁ := Proc.lift_ok htrue
  refine ⟨locked, by rw [← hlocked, hsame.magnification], ?_⟩
  rw [absoluteUnit, Proc.bind_ok hlift, if_pos rfl, Proc.context_bind, ← hsame.magnification]
  simp only [hlocked]
  rfl

theorem absoluteUnit_of_illegal (htrue : keyword (machine n) "true" e = .ok true e₁) (h : ¬ e.context.Legal)
    (whole part : Int64) :
    absoluteUnit (machine n) whole part e =
      (do report (machine n) (e₁.magnificationProblem .illegal e.context.magnification); return 0 : Action Measure.Dimen) e₁ := by
  have hsame := keyword_sameNumbers htrue
  have hillegal : e₁.context.setMagnification e₁.context.magnification true = .error .illegal := by
    rw [Context.setMagnification_illegal_iff]
    exact Classical.not_not.1 fun hnot => h (hsame.legal_iff.1 (Context.legal_iff.2 hnot))
  have hlift : (monadLift (keyword (machine n) "true") : Action Bool) e = .ok true e₁ := Proc.lift_ok htrue
  rw [absoluteUnit, Proc.bind_ok hlift, if_pos rfl, Proc.context_bind, ← hsame.magnification]
  simp only [hillegal]
  have heq := reportMagnification_eq (machine n) .illegal e₁.context.magnification e₁
  cases hreport : report (machine n) (e₁.magnificationProblem .illegal e₁.context.magnification) e₁ with
  | ok u e₂ => rw [Proc.bind_ok (heq.trans hreport), Proc.bind_ok hreport]
  | error i e₂ => rw [Proc.bind_error (heq.trans hreport), Proc.bind_error hreport]

/-! ## The main statement -/

/-- **When the magnification is legal.** The bound which a configuration sets is at least one. A new engine for a new
context has a legal magnification if and only if this bound is not below 1000. Magnification and bound stay at least one,
whatever is done. Legality is lost only when the bound is set below the magnification; no run does it, and so a legal
magnification stays legal through all runs. Where it is legal, a true unit is scanned to its end without a report that it is
not. Otherwise there is this report and nothing of the unit is scanned, until a run sets a magnification, which is legal then.
The number `n` bounds how far the scanners are followed. -/
theorem magnification_legal (n : Nat) :
    (∀ languages text id moment, 1 ≤ (Settings.ofConfiguration languages text).1.maxMagnification ∧
      ((Engine.new (Context.new id moment) (Settings.ofConfiguration languages text).1).context.Legal ↔
        1000 ≤ (Settings.ofConfiguration languages text).1.maxMagnification)) ∧
    (∀ id moment c, (Context.new id moment).Undergoes c → c.Positive) ∧
    (∀ (c : Context) d, c.Legal → ((c.undergo d).Legal ↔ ¬ c.Undercuts d)) ∧
    (∀ e e' : Engine, e.Onward e' → e.context.Legal → e'.context.Legal) ∧
    (∀ e e₁ whole part, keyword (machine n) "true" e = .ok true e₁ → e.context.Legal →
      ∃ locked, e₁.context.setMagnification e.context.magnification true = .ok locked ∧
        absoluteUnit (machine n) whole part e =
          physicalLength (machine n) whole part e.context.magnification { e₁ with context := locked }) ∧
    (∀ e e₁ whole part, keyword (machine n) "true" e = .ok true e₁ → ¬ e.context.Legal →
      absoluteUnit (machine n) whole part e =
        (do report (machine n) (e₁.magnificationProblem .illegal e.context.magnification); return 0 :
          Action Measure.Dimen) e₁) ∧
    ∀ strict l o e e', Course strict l o e e' → e.context.Upholds e'.context := by
  refine ⟨fun languages text id moment => ?_, fun id moment c h => ?_, fun c d h => h.undergo_iff d, fun e e' h he => h.legal he,
    fun e e₁ whole part htrue h => absoluteUnit_of_legal htrue h whole part,
    fun e e₁ whole part htrue h => absoluteUnit_of_illegal htrue h whole part,
    fun strict l o e e' h => h.evolves.upholds⟩
  · have hpos := Settings.maxMagnification_pos languages text
    have hnew := (Context.new_bounds id moment).1
    refine ⟨hpos, ?_⟩
    rw [Engine.new_legal_iff (Context.new id moment) (by rw [hnew]; decide) hpos, hnew]
  · obtain ⟨hmagnification, hbound⟩ := Context.new_bounds id moment
    exact h.positive ⟨by rw [hmagnification]; decide, by rw [hbound]; decide⟩

/-- The settings of a configuration which says nothing but the bound of the magnification. -/
def Settings.bounded (bound : String) : Settings × Option Fault :=
  ofConfiguration (fun _ => .ok .english) fun key => if key == maxMagnificationKey then bound else ""

/-- A new engine for a new context, with a bound of the magnification and a length in true units to scan. -/
def Engine.bounded (bound : String) : Engine :=
  { (Engine.new (Context.new "" ⟨1776, 7, 4, 12, 0⟩) (Settings.bounded bound).1).pushText "truept " "" with
    handler := .recorder 0 }

/-- The bound is 1500, and the magnification has been set to it. -/
theorem magnification_legal_at_bound :
    let e := (Engine.bounded "1500").use (.deed (.setMagnification 1500 false))
    e.context.Legal ∧ ∃ (e₁ : Engine) (locked : Context),
      e₁.context.setMagnification e.context.magnification true = .ok locked ∧
        absoluteUnit (machine 12) 1 0 e =
          physicalLength (machine 12) 1 0 e.context.magnification { e₁ with context := locked } := by
  intro e
  have hfinal := magnification_legal 12
  have hmagnification : (Engine.bounded "1500").context.magnification = 1000 := by decide +kernel
  have hbound : (Engine.bounded "1500").context.maxMagnification = 1500 := by decide +kernel
  have hstart : (Engine.bounded "1500").context.Legal :=
    ⟨by rw [hmagnification]; decide, by rw [hmagnification, hbound]; decide⟩
  have honward : (Engine.bounded "1500").Onward e := by
    refine .use .refl _ fun d hd => ?_
    cases hd
    rintro ⟨max, hmax, -⟩
    cases hmax
  have hlegal : e.context.Legal := hfinal.2.2.2.1 _ e honward hstart
  have hvalue : valueOf (keyword (machine 12) "true" e) = some true := by decide +kernel
  obtain ⟨e₁, htrue⟩ := exists_of_valueOf hvalue
  exact ⟨hlegal, e₁, hfinal.2.2.2.2.1 e e₁ 1 0 htrue hlegal⟩

/-- A bound below 1000 is accepted from a configuration, although a new context does not comply with it. A true unit is
reported then, and the letters of the unit stay in the input. -/
theorem magnification_above_bound :
    let e := Engine.bounded "500"
    let r := absoluteUnit (machine 12) 1 0 e
    (Settings.bounded "500").2 = none ∧ (Settings.bounded "500").1.maxMagnification = 500 ∧
      e.context.magnification = 1000 ∧ valueOf r = some 0 ∧ (finalState r).errorCount = 1 ∧
      (finalState r).trace.any (fun entry => match entry with
        | .reported d => d.kind = .illegalMagnification
        | _ => false) = true := by
  decide +kernel

end Engines

end Compositor
