import Compositor.Proofs.Engine.Safety
import Compositor.Proofs.Scope.Snapshots

/-!
# The frozen `relax`

Where a condition runs into an end mark of its own conditional, the mark is put back behind a `relax` of a name space which
is not meant to be reached from the input. It has to stay a `relax`, since the condition is ended by it.

Yet the token goes through the input like any other one, so a command which is about to read the name to be defined may
find it there: `frozen_relax_redefined`. What holds is that there is no other way to a new meaning than such an assignment
by name, and that a watch on the token tells about it (`frozen_relax_watched`).

The proof goes by snapshots: all groups show the same meaning of the token (`Context.Frozen`), and every step which does not
assign that very token keeps it so.
-/

namespace Compositor

/-! ## Contexts -/

namespace Context

/-- In all groups the token means the `relax` which it was made for. -/
def Frozen (c : Context) : Prop := c.snapshots.Shows (.key (.meaning frozenRelaxToken)) (some .frozenRelax)

/-- Somebody has been told about a new meaning of the token. -/
def Warned (c : Context) : Prop := ∃ m, .meaning frozenRelaxToken m ∈ c.notices

/-- The token is watched, and it has got no new meaning yet without a notice. -/
structure Guarded (c : Context) : Prop where
  watched : .meaning frozenRelaxToken ∈ c.watches
  warned_or_frozen : c.Warned ∨ c.Frozen

variable {c c' : Context}

theorem Frozen.meaning (h : c.Frozen) : c.meaning frozenRelaxToken = some .frozenRelax := by
  have hget : c.get (.meaning frozenRelaxToken) = some .frozenRelax := by
    have htop := Snapshots.Shows.top h
    rw [snapshots_top] at htop
    exact htop
  rw [Context.meaning, hget]

theorem Frozen.of_snapshots (h : c.Frozen) (heq : c'.snapshots = c.snapshots) : c'.Frozen := by
  unfold Frozen
  rw [heq]
  exact h

theorem Frozen.assign (h : c.Frozen) {s : Slot} (hs : s ≠ .key (.meaning frozenRelaxToken)) (v : s.Value)
    (globally : Bool) : (c.assign s v globally).Frozen := by
  unfold Frozen
  rw [snapshots_assign]
  exact Snapshots.Shows.apply h (.assign s v globally) hs

theorem Frozen.set (h : c.Frozen) {k : Key} (hk : k ≠ .meaning frozenRelaxToken) (v : k.Value) (globally : Bool) :
    (c.set k v globally).Frozen := by
  unfold Frozen
  rw [snapshots_set]
  exact Snapshots.Shows.apply h (.assign (.key k) v globally) fun heq => hk (Slot.key.inj heq)

theorem Frozen.openGroup (h : c.Frozen) (kind : GroupKind) (place : Locator) : (c.openGroup kind place).Frozen := by
  unfold Frozen
  rw [snapshots_openGroup]
  exact Snapshots.Shows.apply h (.openGroup kind place) False.elim

theorem Frozen.closeGroup (h : c.Frozen) {kind : GroupKind} {ts : List Token}
    (hclose : c.closeGroup kind = .ok (ts, c')) : c'.Frozen := by
  have happly : c' = c.apply (.closeGroup kind) := by simp only [apply, hclose]
  unfold Frozen
  rw [happly, snapshots_closeGroup]
  exact Snapshots.Shows.apply h (.closeGroup kind) False.elim

/-- What is deferred to the end of a group is no part of its snapshot. -/
theorem snapshot_after (g : Group) (after : List AfterGroup) (around : List Group) :
    Group.snapshot { g with after } around = g.snapshot around := by
  funext s
  cases s <;> rfl

theorem snapshots_afterGroupToken (c : Context) (t : Token) : (c.afterGroupToken t).snapshots = c.snapshots := by
  unfold afterGroupToken
  split
  · rfl
  · rename_i g rest hinner
    simp only [snapshots, innerSnapshots, hinner, snapshot_after]

/-! ## Guards -/

theorem Warned.mono (h : c.Warned) (hnotices : c.notices <:+ c'.notices) : c'.Warned := by
  obtain ⟨m, hm⟩ := h
  exact ⟨m, hnotices.subset hm⟩

theorem Guarded.regroups (h : c.Guarded) (hregroups : c.Regroups c') (hfrozen : c.Frozen → c'.Frozen) : c'.Guarded :=
  ⟨hregroups.watches ▸ h.watched, h.warned_or_frozen.imp (·.mono hregroups.notices) hfrozen⟩

/-- A change of what has nothing to do with groups. -/
theorem Guarded.of_eq (h : c.Guarded) (hwatches : c'.watches = c.watches) (hnotices : c'.notices = c.notices)
    (hsnapshots : c'.snapshots = c.snapshots) : c'.Guarded := by
  refine ⟨hwatches ▸ h.watched, h.warned_or_frozen.imp (·.mono ?_) (·.of_snapshots hsnapshots)⟩
  rw [hnotices]

theorem Guarded.setCount (h : c.Guarded) (name : String) (v : Int64) (globally : Bool) :
    (c.setCount name v globally).Guarded :=
  h.regroups (c.regroups_setCount name v globally) fun hfrozen => hfrozen.set (k := .count name) nofun v globally

/-- A new meaning of the token itself is told about. -/
theorem Guarded.setMeaning (h : c.Guarded) (t : Token) (m : Option Meaning) (globally : Bool) :
    (c.setMeaning t m globally).Guarded := by
  have hregroups := c.regroups_setMeaning t m globally
  by_cases ht : t = frozenRelaxToken
  · subst ht
    refine ⟨hregroups.watches ▸ h.watched, .inl ⟨m, ?_⟩⟩
    have hcount : (c.set (.meaning frozenRelaxToken) m globally).watches.count (.meaning frozenRelaxToken) ≠ 0 := by
      rw [(c.regroups_set _ _ globally).watches]
      exact (List.count_pos_iff.2 h.watched).ne'
    exact List.mem_append_left _ (List.mem_replicate.2 ⟨hcount, rfl⟩)
  · exact h.regroups hregroups fun hfrozen => hfrozen.set (fun heq => ht (Key.meaning.inj heq)) m globally

theorem Guarded.setInteraction (h : c.Guarded) (mode : Interaction) (globally : Bool) :
    (c.setInteraction mode globally).Guarded :=
  h.regroups (c.regroups_setInteraction mode globally) fun hfrozen =>
    hfrozen.assign (s := .interaction) nofun mode globally

theorem Guarded.setMagnification (h : c.Guarded) {v : Int64} {lock : Bool} (hset : c.setMagnification v lock = .ok c') :
    c'.Guarded := by
  rw [setMagnification_eq hset]
  exact h.of_eq rfl rfl rfl

end Context

/-! ## Courses -/

section Courses

variable {strict : Prop} {l : Level} {o : Option Stop} {e e' : Engine}

theorem ScanStep.guarded (h : ScanStep strict e e') (he : e.context.Guarded) : e'.context.Guarded := by
  cases h with
  | endBranch => exact he.of_eq rfl rfl rfl
  | defineRelax => exact he.setMeaning _ _ false
  | lockMagnification h => exact he.setMagnification h
  | setInteraction mode => exact he.setInteraction mode true
  | pushText text source =>
    obtain ⟨input, heq⟩ := e.pushText_eq text source
    rw [heq]
    exact he
  | _ => exact he

theorem WorkStep.guarded (h : WorkStep strict e e') (he : e.context.Guarded) : e'.context.Guarded := by
  let c := e.context
  cases h with
  | @assign k v hk _ globally =>
    have hne : k ≠ .meaning frozenRelaxToken := by
      rintro rfl
      cases hk
    exact he.regroups (c.regroups_set k v globally) fun hfrozen => hfrozen.set hne v globally
  | setCount _ v globally => exact he.setCount _ v globally
  | setMeaning t _ globally => exact he.setMeaning t _ globally
  | openGroup kind place => exact he.regroups (c.regroups_openGroup kind place) fun hfrozen => hfrozen.openGroup kind place
  | closeGroup h => exact he.regroups (.closeGroup h) fun hfrozen => hfrozen.closeGroup h
  | @afterGroupToken t _ =>
    exact he.regroups (c.regroups_afterGroupToken t) fun hfrozen =>
      hfrozen.of_snapshots (c.snapshots_afterGroupToken t)
  | setInteraction mode => exact he.setInteraction mode true
  | setStyle style globally =>
    exact he.regroups (c.regroups_setStyle style globally) fun hfrozen => hfrozen.assign (s := .style) nofun style globally
  | setSpace space globally =>
    exact he.regroups (c.regroups_setSpace space globally) fun hfrozen => hfrozen.assign (s := .space) nofun space globally
  | pushDirection | popDirection => exact he.of_eq rfl rfl rfl
  | setMagnification h _ globally => exact (he.setMagnification h).setCount _ _ globally
  | keepFont target name font _ globally =>
    have hmeaning := he.setMeaning target (some (.primitive e.serial target.name (.command (.selectFont name)))) globally
    exact hmeaning.regroups (Context.regroups_set _ (.font target.name) _ globally) fun hfrozen =>
      hfrozen.set (k := .font target.name) nofun (some font) globally
  | storeBox name box globally =>
    exact he.regroups (c.regroups_set (.box name) box globally) fun hfrozen =>
      hfrozen.set (k := .box name) nofun box globally
  | deliverBox name keeps =>
    refine he.regroups (Context.regroups_deliverBox e name keeps) fun hfrozen => ?_
    rcases e.deliverBox_context name keeps with heq | heq <;> rw [heq]
    · exact hfrozen
    · exact hfrozen.set (k := .box name) nofun none false
  | pushText text source =>
    obtain ⟨input, heq⟩ := e.pushText_eq text source
    rw [heq]
    exact he
  | _ => exact he

/-- **Whatever the engine does, the token stays guarded.** -/
theorem Course.guarded (h : Course strict l o e e') (he : e.context.Guarded) : e'.context.Guarded := by
  induction h with
  | refl => exact he
  | scan _ hstep ih => exact hstep.guarded (ih he)
  | work _ _ hstep ih => exact hstep.guarded (ih he)
  | exhausted _ ih => exact ih he
  | stop _ _ ih | restore _ _ ih | refuse _ _ _ ih | exceed _ _ _ _ ih | consult _ _ _ _ ih | answer _ _ _ ih
  | dismiss _ _ _ _ ih | say _ _ _ ih | consent _ ih | decline _ _ ih => exact ih he
  | forgive _ _ _ _ _ _ ih ih' => exact ih' (ih he)
  | decide _ _ _ ih ih' => exact (ih' ((ih he).of_eq rfl rfl rfl)).of_eq rfl rfl rfl
  | branch _ _ _ _ ih ih' => exact (ih' ((ih he).of_eq rfl rfl rfl)).of_eq rfl rfl rfl
  | box _ _ _ _ _ ih ih' => exact ih' (ih he)

theorem Outcome.guarded {r : EStateM.Result (Interrupted Unit) Engine Unit} (h : Outcome strict e r)
    (he : e.context.Guarded) : (finalState r).context.Guarded := by
  cases h with
  | unprepared => exact he
  | stopped h => exact h.guarded he
  | unclosed h hreport => exact hreport.guarded (h.guarded he)
  | @ended e₁ e₂ h hreport =>
    have hguarded : e₂.context.Guarded := hreport.guarded (h.guarded he)
    exact hguarded.of_eq rfl rfl rfl

end Courses

/-! ## New engines -/

namespace Engine

variable {e e' : Engine}

theorem bind_frozen (he : e.context.Frozen) (name : String) (meaning : Nat → Meaning) :
    (e.bind name meaning).context.Frozen := by
  have hne : Key.meaning (.controlSequence name "") ≠ .meaning frozenRelaxToken := by
    intro heq
    have hspace : "" = "\x00frozen" := congrArg Token.space (Key.meaning.inj heq)
    exact absurd hspace (by decide)
  exact he.set hne _ true

theorem setDefault_frozen (he : e.context.Frozen) (name : String) (v : DefaultValue) :
    (e.setDefault name v).context.Frozen := by
  cases v with
  | count n => exact he.set (k := .count name) nofun n true
  | dimen l => exact he.set (k := .dimen name) nofun l true
  | glue g => exact he.set (k := .glue name) nofun g true

theorem install_frozen {ds : List Declaration} (he : e.context.Frozen) (h : e.install ds = .ok e') :
    e'.context.Frozen :=
  install_preserves (P := fun e => e.context.Frozen) (fun d _ _ _ _ he => bind_frozen he d.name _)
    (fun _ name v he => setDefault_frozen he name v) h he

theorem new_frozen (c : Context) (settings : Settings) : (Engine.new c settings).context.Frozen := by
  have hset : (c.setMeaning frozenRelaxToken (some .frozenRelax) true).Frozen := by
    have hshows := Snapshots.shows_assign c.snapshots (.key (.meaning frozenRelaxToken)) (some Meaning.frozenRelax)
    rw [← c.snapshots_set] at hshows
    exact hshows
  have hbounded : ((c.setMeaning frozenRelaxToken (some .frozenRelax) true).setMaxMagnification
      settings.maxMagnification).Frozen := by
    unfold Context.setMaxMagnification
    split
    · exact hset
    · exact hset
  exact hbounded.assign (s := .interaction) nofun settings.interaction true

end Engine

/-! ## The main statements -/

/-- The token means the `relax` which it was made for: it is not expanded, and nothing is done to execute it. -/
structure Engine.KeepsRelax (m : Machine) (e : Engine) : Prop where
  meaning : e.context.meaning frozenRelaxToken = some .frozenRelax
  unexpandable : expand m frozenRelaxToken e = .ok false e
  idle : e.modifiers = .none →
    dispatch m frozenRelaxToken e = .ok () (e.record (.dispatched frozenRelaxToken e.context.conditionals))

section Execution

variable {m : Machine} {e : Engine}

theorem executeMeaning_command {t : Token} {id : Nat} {name : String} {c : Command} (he : e.modifiers = .none) :
    executeMeaning m t (.primitive id name (.command c)) e = c.execute m name .none e := by
  have hsame : { e with modifiers := .none } = e := by rw [← he]
  simp only [executeMeaning, Proc.get_bind, Proc.modify_bind, he, hsame]
  rfl

/-- Nothing replaces the token, and nothing is done to execute it. -/
structure Engine.Idles (m : Machine) (e : Engine) (t : Token) : Prop where
  unexpandable : expand m t e = .ok false e
  idle : e.modifiers = .none → dispatch m t e = .ok () (e.record (.dispatched t e.context.conditionals))

theorem Engine.idles_of_relax {t : Token} {id : Nat} {name : String} (ht : t.isCode = true)
    (h : e.context.meaning t = some (.primitive id name (.command .relax))) (m : Machine) : e.Idles m t where
  unexpandable := by
    have hmeaning : (meaningOf t : Action _) e = .ok (some (.primitive id name (.command .relax))) e := by
      simp only [meaningOf, ht, if_true, Proc.context_bind, h]
      rfl
    rw [expand, Proc.bind_ok hmeaning]
    rfl
  idle hmodifiers := by
    rw [dispatch_of_meaning ht h]
    exact executeMeaning_command hmodifiers

theorem Context.Frozen.keepsRelax (h : e.context.Frozen) (m : Machine) : e.KeepsRelax m :=
  have hidles := Engine.idles_of_relax (t := frozenRelaxToken) rfl h.meaning m
  ⟨h.meaning, hidles.unexpandable, hidles.idle⟩

end Execution

/-- **A new meaning of the frozen `relax` does not come unnoticed.** A new engine with the built-in primitives, in which
the token is watched, runs any text: unless there has been a notice about it, the token is still the `relax` which it was
made for. It is not expanded then, and does nothing. The number `n` bounds how far the run is followed. -/
theorem frozen_relax_watched (id : String) (moment : Moment) (settings : Settings) (files : FileStore) (fonts : FontSource)
    (search : NameSearch) (handler : Handler) (console : Console) :
    ∃ e, Engine.install { Engine.new (Context.new id moment) settings with files, fonts, search, handler, console }
        Declaration.builtin = .ok e ∧
      ∀ n text source,
        let e' := finalState (runText (machine n) text source (e.modifyContext (·.watch (.meaning frozenRelaxToken))))
        e'.context.Warned ∨ ∀ m, e'.KeepsRelax m := by
  obtain ⟨e, hinstall, -, -⟩ := Engine.install_builtin id moment settings files fonts search handler console
  have hnew :
      ({ Engine.new (Context.new id moment) settings with files, fonts, search, handler, console } : Engine).context.Frozen :=
    Engine.new_frozen (Context.new id moment) settings
  have hfrozen : e.context.Frozen := Engine.install_frozen hnew hinstall
  refine ⟨e, hinstall, fun n text source => ?_⟩
  have hwatched : (e.context.watch (.meaning frozenRelaxToken)).Guarded :=
    ⟨List.mem_append_right _ (List.mem_singleton_self _), .inr hfrozen⟩
  have hpushed : ((e.modifyContext (·.watch (.meaning frozenRelaxToken))).pushText text source).context.Guarded := by
    obtain ⟨input, heq⟩ := Engine.pushText_eq (e.modifyContext (·.watch (.meaning frozenRelaxToken))) text source
    rw [heq]
    exact hwatched
  have houtcome : ∀ e₁, Outcome False e₁ (run (machine n) e₁) := fun _ => run_outcome n False.elim
  exact ((houtcome _).guarded hpushed).warned_or_frozen.imp_right fun hfrozen m => hfrozen.keepsRelax m

/-- The token can get a new meaning: a condition which runs into its end mark while a name to be defined is looked for
puts it there. Then it means the mark itself. -/
theorem frozen_relax_redefined :
    ((Engine.new default {}).install Declaration.builtin).toOption.bind (fun e =>
      (finalState (runText (machine 8) "\\expandafter\\let\\ifnum1=1\\fi X" "" e)).context.meaning frozenRelaxToken) =
    some (.primitive 78 "fi" (.endMark .fiMark)) := by
  decide +kernel

end Compositor
