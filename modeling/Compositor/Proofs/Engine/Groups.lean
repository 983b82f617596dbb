import Compositor.Proofs.Engine.Magnification

/-!
# Open groups

The trace tells which groups are opened and closed, and nothing else opens or closes one. So the groups which are open at
some time can be told from those which were open before and from the moves in between.

* `Engine.moves` is the part of the trace which is about groups, `StaysOpen` and `GroupsBalanced` say of moves that they do
  not reach below the group in which they began;
* `Context.outline` is what the open groups are known by;
* `Engine.Follows` says that the groups of an engine have followed some moves, and `Course.follows` that they always do;
* `Course.moves_eq`: groups are neither opened nor closed while tokens are read and expanded.
-/

namespace Compositor

/-! ## Moves -/

def TraceEntry.isMove : TraceEntry → Bool
  | groupOpened | groupClosed => true
  | _ => false

/-- The groups which have been opened and closed, the latest first. -/
def Engine.moves (e : Engine) : List TraceEntry := e.trace.filter (·.isMove)

/-- No more groups are closed than have been opened, at any time. The latest entry comes first. -/
def StaysOpen (trace : List TraceEntry) : Prop :=
  ∀ earlier, earlier <:+ trace → earlier.count .groupClosed ≤ earlier.count .groupOpened

/-- All groups which are opened are closed, and no others. -/
def GroupsBalanced (trace : List TraceEntry) : Prop :=
  StaysOpen trace ∧ trace.count .groupOpened = trace.count .groupClosed

instance : DecidablePred StaysOpen := fun trace =>
  decidable_of_iff (∀ earlier ∈ trace.tails, earlier.count .groupClosed ≤ earlier.count .groupOpened)
    (by simp [StaysOpen, List.mem_tails])

instance : DecidablePred GroupsBalanced := fun trace =>
  inferInstanceAs (Decidable (StaysOpen trace ∧ trace.count .groupOpened = trace.count .groupClosed))

section Moves

variable {new later : List TraceEntry}

/-- What comes before some point of a trace is in its first part, or goes beyond it. -/
theorem suffix_append_split {α : Type} {earlier later new : List α} (h : earlier <:+ later ++ new) :
    earlier <:+ new ∨ ∃ between, between <:+ later ∧ earlier = between ++ new := by
  obtain ⟨front, heq⟩ := h
  rcases List.append_eq_append_iff.1 heq with ⟨between, hlater, hearlier⟩ | ⟨between, -, hnew⟩
  · exact .inr ⟨between, ⟨front, hlater.symm⟩, hearlier⟩
  · exact .inl ⟨between, hnew.symm⟩

theorem StaysOpen.append (h : StaysOpen new) (hlater : StaysOpen later) : StaysOpen (later ++ new) := by
  intro earlier hearlier
  rcases suffix_append_split hearlier with hearlier | ⟨between, hbetween, rfl⟩
  · exact h earlier hearlier
  · have hcount := hlater between hbetween
    have hcount' := h new List.suffix_rfl
    rw [List.count_append, List.count_append]
    omega

theorem StaysOpen.closed (h : StaysOpen new) (hopen : new.count .groupClosed < new.count .groupOpened) :
    StaysOpen (.groupClosed :: new) := by
  intro earlier hearlier
  rcases List.suffix_cons_iff.1 hearlier with rfl | hearlier
  · rw [List.count_cons_self, List.count_cons_of_ne (by decide)]
    omega
  · exact h earlier hearlier

theorem count_closed_all (k : Nat) (new : List TraceEntry) :
    (List.replicate k TraceEntry.groupClosed ++ new).count .groupClosed = k + new.count .groupClosed ∧
      (List.replicate k TraceEntry.groupClosed ++ new).count .groupOpened = new.count .groupOpened := by
  simp [List.count_append, List.count_replicate]

theorem StaysOpen.closed_all (h : StaysOpen new) {k : Nat} (hopen : new.count .groupClosed + k ≤ new.count .groupOpened) :
    StaysOpen (List.replicate k .groupClosed ++ new) := by
  induction k with
  | zero => exact h
  | succ k ih =>
    obtain ⟨hclosed, hopened⟩ := count_closed_all k new
    exact (ih (by omega)).closed (by omega)

end Moves

/-! ## The open groups -/

/-- What a group is known by: its kind, and the place where it was opened. -/
def Group.mark (g : Group) : GroupKind × Locator := (g.kind, g.place)

namespace Context

/-- The open groups, the innermost first. -/
def outline (c : Context) : List (GroupKind × Locator) := c.groups.map Group.mark

variable (c : Context)

theorem length_outline : c.outline.length = c.depth + 1 := by simp [outline, groups, depth]

theorem outline_modifyCurrent {f : Group → Group} (hf : ∀ g, (f g).mark = g.mark) :
    (c.modifyCurrent f).outline = c.outline := by
  unfold modifyCurrent outline groups
  split <;> simp_all

theorem outline_modifyAll {f : Group → Group} (hf : ∀ g, (f g).mark = g.mark) :
    (c.modifyAll f).outline = c.outline := by
  simp [modifyAll, outline, groups, hf]

theorem outline_set (k : Key) (v : k.Value) (globally : Bool) : (c.set k v globally).outline = c.outline := by
  unfold set
  split
  · have hbind : ∀ g : Group, (if g.bindings.contains k then g.bind k v else g).mark = g.mark := by
      intro g
      split <;> rfl
    have hbound : (c.outermost.bind k v).mark = c.outermost.mark := rfl
    simp [outline, groups, hbind, hbound]
  · exact c.outline_modifyCurrent fun _ => rfl

theorem outline_setMeaning (t : Token) (m : Option Meaning) (globally : Bool) :
    (c.setMeaning t m globally).outline = c.outline := c.outline_set _ _ globally

theorem outline_setStyle (style : Style) (globally : Bool) : (c.setStyle style globally).outline = c.outline := by
  unfold setStyle
  split
  · exact c.outline_modifyAll fun _ => rfl
  · exact c.outline_modifyCurrent fun _ => rfl

theorem outline_setSpace (space : String) (globally : Bool) : (c.setSpace space globally).outline = c.outline := by
  unfold setSpace
  split
  · exact c.outline_modifyAll fun _ => rfl
  · exact c.outline_modifyCurrent fun _ => rfl

theorem outline_setInteraction (mode : Interaction) (globally : Bool) :
    (c.setInteraction mode globally).outline = c.outline := by
  have hchanged : (if globally then c.modifyAll fun g => { g with interaction := mode }
      else c.modifyCurrent fun g => { g with interaction := mode }).outline = c.outline := by
    split
    · exact c.outline_modifyAll fun _ => rfl
    · exact c.outline_modifyCurrent fun _ => rfl
  simp only [setInteraction]
  split <;> exact hchanged

theorem outline_afterGroupToken (t : Token) : (c.afterGroupToken t).outline = c.outline := by
  unfold afterGroupToken
  split
  · rfl
  · next heq => simp [outline, groups, heq, Group.mark]

variable {c}

theorem outline_closeGroup {kind : GroupKind} {ts : List Token} {outside : Context}
    (h : c.closeGroup kind = .ok (ts, outside)) : ∃ mark, c.outline = mark :: outside.outline := by
  unfold closeGroup at h
  split at h
  · cases h
  · next g rest heq =>
    split at h
    · cases h
    · simp only [Except.ok.injEq, Prod.mk.injEq] at h
      obtain ⟨-, rfl⟩ := h
      refine ⟨g.mark, ?_⟩
      split <;> simp [outline, groups, heq, notifyInteraction, notify]

end Context

/-- The open groups have followed these moves, the latest first. The groups which the moves do not reach are the same. -/
structure Moved (marks : List (GroupKind × Locator)) (new : List TraceEntry) (marks' : List (GroupKind × Locator)) :
    Prop where
  length : marks'.length + new.count .groupClosed = marks.length + new.count .groupOpened
  base : ∀ upper base, marks = upper ++ base →
    (∀ earlier, earlier <:+ new → earlier.count .groupClosed ≤ upper.length + earlier.count .groupOpened) →
    ∃ upper', marks' = upper' ++ base

namespace Moved

variable {marks marks₁ marks' : List (GroupKind × Locator)} {new later : List TraceEntry}

theorem refl (marks : List (GroupKind × Locator)) : Moved marks [] marks :=
  ⟨rfl, fun upper _ heq _ => ⟨upper, heq⟩⟩

theorem trans (h : Moved marks new marks₁) (h' : Moved marks₁ later marks') : Moved marks (later ++ new) marks' := by
  have hlength := h.length
  refine ⟨?_, fun upper base heq hreach => ?_⟩
  · have hlength' := h'.length
    rw [List.count_append, List.count_append]
    omega
  · obtain ⟨upper₁, heq₁⟩ := h.base upper base heq fun earlier hearlier =>
      hreach earlier (hearlier.trans (List.suffix_append later new))
    rw [heq, heq₁, List.length_append, List.length_append] at hlength
    refine h'.base upper₁ base heq₁ fun between ⟨front, hfront⟩ => ?_
    have hcount := hreach (between ++ new) ⟨front, by rw [← hfront, List.append_assoc]⟩
    rw [List.count_append, List.count_append] at hcount
    omega

theorem opened (marks : List (GroupKind × Locator)) (mark : GroupKind × Locator) :
    Moved marks [.groupOpened] (mark :: marks) :=
  ⟨rfl, fun upper _ heq _ => ⟨mark :: upper, by rw [heq, List.cons_append]⟩⟩

theorem closed (mark : GroupKind × Locator) (marks : List (GroupKind × Locator)) :
    Moved (mark :: marks) [.groupClosed] marks := by
  refine ⟨rfl, fun upper base heq hreach => ?_⟩
  have hone := hreach [.groupClosed] List.suffix_rfl
  cases upper with
  | nil => simp at hone
  | cons first upper => exact ⟨upper, (List.cons.inj heq).2⟩

end Moved

/-- There have been moves since, and the open groups have followed them. -/
def Engine.Follows (e e' : Engine) : Prop :=
  ∃ new, e'.moves = new ++ e.moves ∧ Moved e.context.outline new e'.context.outline

namespace Engine.Follows

variable {e e₁ e' : Engine}

theorem trans (h : e.Follows e₁) (h' : e₁.Follows e') : e.Follows e' := by
  obtain ⟨new, hmoves, hnew⟩ := h
  obtain ⟨later, hmoves', hlater⟩ := h'
  exact ⟨later ++ new, by rw [hmoves', hmoves, List.append_assoc], hnew.trans hlater⟩

theorem of_eq (hmoves : e'.moves = e.moves) (houtline : e'.context.outline = e.context.outline) : e.Follows e' :=
  ⟨[], hmoves, houtline ▸ .refl _⟩

end Engine.Follows

/-! ## Steps and courses -/

section Courses

variable {strict : Prop} {l : Level} {o : Option Stop} {e e' : Engine}

theorem ScanStep.moves_eq (h : ScanStep strict e e') : e'.moves = e.moves :=
  congrArg (List.filter TraceEntry.isMove) h.trace_eq

/-- **Groups are neither opened nor closed while tokens are read and expanded.** -/
theorem Course.moves_eq (h : Course strict l o e e') (hl : l = .scanning) : e'.moves = e.moves := by
  induction h with
  | refl => rfl
  | scan _ hstep ih => exact hstep.moves_eq.trans (ih hl)
  | work hl' | box hl' => cases hl.symm.trans hl'
  | exhausted _ ih | stop _ _ ih | restore _ _ ih | refuse _ _ _ ih | exceed _ _ _ _ ih | consult _ _ _ _ ih
  | answer _ _ _ ih | dismiss _ _ _ _ ih | say _ _ _ ih | consent _ ih | decline _ _ ih => exact ih hl
  | forgive _ _ _ _ _ _ ih ih' => exact (ih' hl).trans (ih hl)
  | decide _ _ _ ih ih' | branch _ _ _ _ ih ih' => exact (ih' rfl).trans (ih hl)

/-- The open groups are still the same when tokens have been read and expanded. -/
theorem Course.outline_eq (h : Course strict l o e e') (hl : l = .scanning) : e'.context.outline = e.context.outline :=
  h.keeps_context hl (R := fun c c' => c'.outline = c.outline)
    { refl := fun _ => rfl
      trans := fun h h' => h'.trans h
      relax := fun c t _ _ => c.outline_setMeaning t _ false
      mode := fun c mode => c.outline_setInteraction mode true
      lock := fun _ _ => rfl
      conditionals := fun _ _ => rfl }

theorem Course.depth_eq (h : Course strict l o e e') (hl : l = .scanning) : e'.context.depth = e.context.depth := by
  have hlength := congrArg List.length (h.outline_eq hl)
  rw [Context.length_outline, Context.length_outline] at hlength
  exact Nat.add_right_cancel hlength

theorem Engine.outline_deliverBox (e : Engine) (name : String) (keeps : Bool) :
    (e.deliverBox name keeps).context.outline = e.context.outline := by
  rcases e.deliverBox_context name keeps with heq | heq <;> rw [heq]
  exact e.context.outline_set _ _ false

theorem WorkStep.follows (h : WorkStep strict e e') : e.Follows e' := by
  cases h with
  | openGroup kind place => exact ⟨[_], rfl, .opened _ _⟩
  | @closeGroup kind ts outside h =>
    obtain ⟨mark, hmark⟩ := Context.outline_closeGroup h
    exact ⟨[_], rfl, hmark ▸ .closed mark outside.outline⟩
  | @assign k v _ _ globally => exact .of_eq rfl (e.context.outline_set k v globally)
  | @setCount name _ v globally => exact .of_eq rfl (e.context.outline_set (.count name) v globally)
  | setMeaning t _ globally => exact .of_eq rfl (e.context.outline_setMeaning t _ globally)
  | @afterGroupToken t => exact .of_eq rfl (e.context.outline_afterGroupToken t)
  | setInteraction mode => exact .of_eq rfl (e.context.outline_setInteraction mode true)
  | setStyle style globally => exact .of_eq rfl (e.context.outline_setStyle style globally)
  | setSpace space globally => exact .of_eq rfl (e.context.outline_setSpace space globally)
  | @setMagnification v c name h _ globally =>
    obtain rfl := Context.setMagnification_eq h
    exact .of_eq rfl (Context.outline_set _ (.count name) v globally)
  | keepFont target name font fonts globally =>
    refine .of_eq rfl ((Context.outline_set _ (.font target.name) (some font) globally).trans ?_)
    exact e.context.outline_setMeaning target _ globally
  | storeBox name box globally => exact .of_eq rfl (e.context.outline_set (.box name) box globally)
  | deliverBox name keeps => exact .of_eq rfl (e.outline_deliverBox name keeps)
  | pushText text source =>
    obtain ⟨input, heq⟩ := e.pushText_eq text source
    rw [heq]
    exact .of_eq rfl rfl
  | _ => exact .of_eq rfl rfl

/-- **The open groups follow the moves in the trace.** -/
theorem Course.follows (h : Course strict l o e e') : e.Follows e' := by
  induction h with
  | refl => exact .of_eq rfl rfl
  | scan _ hstep ih =>
    have hscan := Course.scan (.refl _) hstep (l := .scanning)
    exact ih.trans (.of_eq (hscan.moves_eq rfl) (hscan.outline_eq rfl))
  | work _ _ hstep ih => exact ih.trans hstep.follows
  | exhausted _ ih | stop _ _ ih | restore _ _ ih | refuse _ _ _ ih | exceed _ _ _ _ ih | consult _ _ _ _ ih
  | answer _ _ _ ih | dismiss _ _ _ _ ih | say _ _ _ ih | consent _ ih | decline _ _ ih => exact ih
  | forgive _ _ _ _ _ _ ih ih' => exact ih.trans ih'
  | decide _ _ _ ih ih' | branch _ _ _ _ ih ih' => exact ih.trans ih'
  | box _ _ _ _ _ ih ih' => exact ih.trans ih'

end Courses

end Compositor
