import Compositor.Proofs.Engine.Shelter
import Mathlib.Data.List.Chain

/-!
# The lists of boxes

A box is made in a list of its own, which is opened for it and closed at the end of its contents. What is closed there is
the innermost list. That is the one of the box unless something is still open in it, and a paragraph is ended first. But a
formula which is still open is not, so its list is closed in place of the one of the box, which stays open.

* `Mode.LiesOn` says in which order lists can be open, `Typesetter.Rests` that a list and all lists below it are open, and
  what is open in it;
* `Course.restsOn` says that this stays so until the box is finished;
* `box_closes_own_list` says which boxes close their own list, `box_closes_formula` is one which does not.
-/

namespace Compositor

/-! ## Lists on lists -/

/-- A list of the first mode can be open in one of the second mode. Paragraphs are in vertical lists, formulas are not in
formulas, and boxes are in any list. -/
def Mode.LiesOn : Mode → Mode → Prop
  | horizontal, m => m.isVertical = true
  | math, m | displayMath, m => m.isMath = false
  | internalVertical, _ | restrictedHorizontal, _ => True
  | vertical, _ | unnamed, _ => False

theorem Mode.liesOn_of_isBox {m : Mode} (hm : m.isBox = true) (m' : Mode) : m.LiesOn m' := by
  cases m with
  | internalVertical | restrictedHorizontal => trivial
  | _ => cases hm

theorem Mode.ne_horizontal_of_isBox {m : Mode} (hm : m.isBox = true) : m ≠ .horizontal := by
  rintro rfl
  cases hm

namespace Typesetter

theorem mode_append (t : Typesetter) (nodes : List Node) : (t.append nodes).mode = t.mode := by
  unfold append modifyCurrent mode
  rcases hnests : t.nests with _ | ⟨nest, rest⟩
  · rfl
  · rfl

/-- A list of the mode `own` is open on the lists of `base`, which are as they were, and in it the lists `above`. -/
structure Rests (base : Typesetter) (own : Mode) (above : List Nest) (t : Typesetter) : Prop where
  main : t.main = base.main
  nests : ∃ nodes, t.nests = above ++ ⟨own, nodes⟩ :: base.nests
  orderly : (above.map Nest.mode ++ [own]).IsChain Mode.LiesOn

namespace Rests

variable {base t t' : Typesetter} {own m : Mode} {above : List Nest} {nest : Nest}

theorem openList_base (base : Typesetter) (own : Mode) : Rests base own [] (base.openList own) :=
  ⟨rfl, ⟨[], rfl⟩, .singleton own⟩

theorem of_eq (h : Rests base own above t) (hmain : t'.main = t.main) (hnests : t'.nests = t.nests) :
    Rests base own above t' :=
  ⟨hmain.trans h.main, hnests ▸ h.nests, h.orderly⟩

theorem modes_eq (h : Rests base own above t) : ∃ ms, above.map Nest.mode ++ [own] = t.mode :: ms := by
  obtain ⟨nodes, hnests⟩ := h.nests
  unfold mode
  rw [hnests]
  cases above with
  | nil => exact ⟨[], rfl⟩
  | cons nest above => exact ⟨_, rfl⟩

theorem openList (h : Rests base own above t) (hm : m.LiesOn t.mode) : Rests base own (⟨m, []⟩ :: above) (t.openList m) := by
  obtain ⟨nodes, hnests⟩ := h.nests
  obtain ⟨ms, hmodes⟩ := h.modes_eq
  refine ⟨h.main, ⟨nodes, by rw [Typesetter.openList, hnests]; rfl⟩, ?_⟩
  rw [List.map_cons, List.cons_append, hmodes]
  exact .cons_cons hm (hmodes ▸ h.orderly)

theorem pop (h : Rests base own (nest :: above) t) : Rests base own above { t with nests := t.nests.tail } := by
  obtain ⟨nodes, hnests⟩ := h.nests
  exact ⟨h.main, ⟨nodes, by rw [hnests]; rfl⟩, h.orderly.tail⟩

theorem modifyCurrent (h : Rests base own (nest :: above) t) (f : List Node → List Node) :
    Rests base own ({ nest with nodes := f nest.nodes } :: above) (t.modifyCurrent f) := by
  obtain ⟨nodes, hnests⟩ := h.nests
  refine ⟨?_, ⟨nodes, ?_⟩, h.orderly⟩
  · simp only [Typesetter.modifyCurrent, hnests, List.cons_append, h.main]
  · simp only [Typesetter.modifyCurrent, hnests, List.cons_append]

end Rests

/-- A list of the mode `own` is open on the lists of `base`, which are as they were. -/
def RestsOn (base : Typesetter) (own : Mode) (t : Typesetter) : Prop := ∃ above, Rests base own above t

namespace RestsOn

variable {base t t' : Typesetter} {own m : Mode}

theorem of_eq (h : RestsOn base own t) (hmain : t'.main = t.main) (hnests : t'.nests = t.nests) : RestsOn base own t' := by
  obtain ⟨above, habove⟩ := h
  exact ⟨above, habove.of_eq hmain hnests⟩

theorem openList (h : RestsOn base own t) (hm : m.LiesOn t.mode) : RestsOn base own (t.openList m) := by
  obtain ⟨above, habove⟩ := h
  exact ⟨_, habove.openList hm⟩

theorem pop (h : RestsOn base own t) (hown : own.isBox = true) {nest : Nest} {rest : List Nest}
    (hnests : t.nests = nest :: rest) (hnest : nest.mode.isBox = false) : RestsOn base own { t with nests := rest } := by
  obtain ⟨above, habove⟩ := h
  cases above with
  | nil =>
    obtain ⟨nodes, heq⟩ := habove.nests
    rw [hnests] at heq
    obtain ⟨rfl, -⟩ := List.cons.inj heq
    rw [hown] at hnest
    cases hnest
  | cons nest' above =>
    have hpopped := habove.pop
    rw [hnests] at hpopped
    exact ⟨above, hpopped⟩

theorem modifyCurrent (h : RestsOn base own t) (f : List Node → List Node) : RestsOn base own (t.modifyCurrent f) := by
  obtain ⟨above, habove⟩ := h
  cases above with
  | nil =>
    obtain ⟨nodes, hnests⟩ := habove.nests
    refine ⟨[], ?_, ⟨f nodes, ?_⟩, habove.orderly⟩
    · simp only [Typesetter.modifyCurrent, hnests, List.nil_append, habove.main]
    · simp only [Typesetter.modifyCurrent, hnests, List.nil_append]
  | cons nest above => exact ⟨_, habove.modifyCurrent f⟩

theorem append (h : RestsOn base own t) (nodes : List Node) : RestsOn base own (t.append nodes) := h.modifyCurrent _

theorem startParagraph (h : RestsOn base own t) : RestsOn base own t.startParagraph := by
  unfold Typesetter.startParagraph
  split
  · exact h.openList ‹_›
  · exact h

theorem endParagraph (h : RestsOn base own t) (hown : own.isBox = true) : RestsOn base own t.endParagraph := by
  unfold Typesetter.endParagraph
  split
  · exact h
  · rename_i nest rest hnests
    split
    · rename_i hmode
      have hnest : nest.mode.isBox = false := by rw [hmode]; rfl
      exact (h.pop hown hnests hnest).append _
    · exact h

theorem startFormula (h : RestsOn base own t) (hmode : t.mode.isMath = false) (hm : m = .math ∨ m = .displayMath)
    (nodes : List Node) : RestsOn base own ((t.startParagraph.append nodes).openList m) := by
  refine (h.startParagraph.append nodes).openList ?_
  have hstarted : (t.startParagraph.append nodes).mode.isMath = false := by
    rw [mode_append]
    unfold Typesetter.startParagraph
    split
    · rfl
    · exact hmode
  rcases hm with rfl | rfl <;> exact hstarted

theorem toggle (h : RestsOn base own t) (hown : own.isBox = true) {display : Bool} (htoggle : t.toggle display = .ok t') :
    RestsOn base own t' := by
  have hinside : ∀ m, m = (if display then Mode.displayMath else .math) →
      (m = .math ∨ m = .displayMath) ∧ m.isBox = false := by
    rintro m rfl
    cases display <;> exact ⟨by simp, rfl⟩
  simp only [Typesetter.toggle] at htoggle
  generalize hm : (if display = true then Mode.displayMath else Mode.math) = inside at htoggle
  obtain ⟨hmath, hbox⟩ := hinside inside hm.symm
  rcases hnests : t.nests with _ | ⟨nest, rest⟩
  · obtain ⟨above, habove⟩ := h
    obtain ⟨nodes, heq⟩ := habove.nests
    rw [hnests] at heq
    cases above <;> cases heq
  · simp only [hnests] at htoggle
    by_cases hnest : nest.mode = inside
    · rw [if_pos hnest] at htoggle
      obtain rfl := Except.ok.inj htoggle
      exact (h.pop hown hnests (hnest ▸ hbox)).append _
    · rw [if_neg hnest] at htoggle
      split at htoggle
      · cases htoggle
      · rename_i hoff
        obtain rfl := Except.ok.inj htoggle
        refine h.startFormula ?_ hmath _
        simpa only [Typesetter.mode, hnests, Bool.not_eq_true] using hoff

/-- **What is asked of the typesetter does not close the list.** -/
theorem step (h : RestsOn base own t) (hown : own.isBox = true) (hstep : TypesetterStep t t') : RestsOn base own t' := by
  have hrecord : ∀ event, RestsOn base own (t.record event) := fun event => h.of_eq rfl rfl
  cases hstep with
  | add style code => exact (hrecord _).startParagraph.append _
  | addSpace style factor =>
    simp only [Typesetter.addSpace]
    split
    · exact hrecord .space
    · exact (hrecord .space).append _
  | addGlue | addKern | addPenalty => exact (hrecord _).append _
  | addBox b =>
    cases b with
    | none => exact hrecord .box
    | some b => exact (hrecord .box).append _
  | par => exact (hrecord .par).endParagraph hown
  | @toggleMath display _ htoggle =>
    simp only [Typesetter.toggleMath] at htoggle
    split at htoggle
    · rename_i t'' hok
      obtain rfl := (Prod.mk.inj htoggle).2
      exact (hrecord (if display then .displayMath else .math)).toggle hown hok
    · cases htoggle
  | openList hm => exact h.openList (Mode.liesOn_of_isBox hm _)

/-- The lists of `base` are below those which it rests on itself. -/
theorem trans {t₁ : Typesetter} (h : RestsOn base own t₁) (h' : RestsOn t₁ m t) (hm : m.isBox = true) :
    ∃ above inner nodes, Rests base own (inner ++ ⟨m, nodes⟩ :: above) t := by
  obtain ⟨above, hmain, ⟨nodes, hnests⟩, horderly⟩ := h
  obtain ⟨inner, hmain', ⟨nodes', hnests'⟩, horderly'⟩ := h'
  refine ⟨above, inner, nodes', hmain'.trans hmain, ⟨nodes, ?_⟩, ?_⟩
  · rw [hnests', hnests, List.append_assoc, List.cons_append]
  · have hbelow : ([m] ++ (above.map Nest.mode ++ [own])).IsChain Mode.LiesOn :=
      List.isChain_cons.2 ⟨fun m' _ => Mode.liesOn_of_isBox hm m', horderly⟩
    have hjoined := horderly'.append_overlap hbelow (List.cons_ne_nil m [])
    simpa only [List.map_append, List.map_cons, List.append_assoc, List.cons_append, List.nil_append] using hjoined

end RestsOn

/-! ## Closing lists -/

/-- The material of some paragraphs, as it comes to the list which they are in. -/
def paragraphs (nests : List Nest) : List Node := nests.flatMap fun q => dropLastGlue q.nodes ++ [Node.par]

theorem exists_append_paragraphs {nests : List Nest} (h : ∃ p ∈ nests, p.mode ≠ .horizontal) :
    ∃ paras p rest, nests = paras ++ p :: rest ∧ (∀ q ∈ paras, q.mode = .horizontal) ∧ p.mode ≠ .horizontal := by
  induction nests with
  | nil =>
    obtain ⟨p, hp, -⟩ := h
    cases hp
  | cons nest nests ih =>
    by_cases hnest : nest.mode = .horizontal
    · obtain ⟨p, hmem, hp⟩ := h
      have hrest : p ∈ nests := (List.mem_cons.1 hmem).resolve_left fun heq => hp (heq ▸ hnest)
      obtain ⟨paras, p', rest, rfl, hparas, hp'⟩ := ih ⟨p, hrest, hp⟩
      exact ⟨nest :: paras, p', rest, rfl, List.forall_mem_cons.2 ⟨hnest, hparas⟩, hp'⟩
    · exact ⟨[], nest, nests, rfl, by simp, hnest⟩

/-- The list which is closed is the innermost one, after a paragraph has been ended. -/
theorem closeList_eq {t : Typesetter} {paras rest : List Nest} {p : Nest}
    (hparas : paras = [] ∨ ∃ q, paras = [q] ∧ q.mode = .horizontal) (hp : p.mode ≠ .horizontal)
    (hnests : t.nests = paras ++ p :: rest) :
    t.closeList = (.ok (p.nodes ++ paragraphs paras), { t with nests := rest }) := by
  rcases hparas with rfl | ⟨q, rfl, hq⟩
  · have hend : t.endParagraph = t := by simp [endParagraph, hnests, hp]
    simp [closeList, hend, hnests, paragraphs]
  · simp [closeList, endParagraph, hnests, hq, append, modifyCurrent, paragraphs]

namespace Rests

variable {base t : Typesetter} {own : Mode} {above paras inner : List Nest} {p : Nest} {nodes : List Node}

/-- A list has at most one paragraph open in it. -/
theorem paragraph_or_none (h : Rests base own (paras ++ inner) t) (hparas : ∀ q ∈ paras, q.mode = .horizontal) :
    paras = [] ∨ ∃ q, paras = [q] ∧ q.mode = .horizontal := by
  rcases paras with _ | ⟨q, _ | ⟨q', rest⟩⟩
  · exact .inl rfl
  · exact .inr ⟨q, rfl, hparas q (by simp)⟩
  · -- the second paragraph would have the first one in it
    have hq' : q'.mode = .horizontal := hparas q' (by simp)
    have hlies := (List.isChain_cons_cons.1 h.orderly).1
    rw [hparas q (by simp), hq'] at hlies
    cases hlies

theorem closeList_own (h : Rests base own above t) (hown : own.isBox = true) (habove : ∀ p ∈ above, p.mode = .horizontal)
    (hnests : t.nests = above ++ ⟨own, nodes⟩ :: base.nests) :
    t.closeList = (.ok (nodes ++ paragraphs above), { t with nests := base.nests }) := by
  have hparas : Rests base own (above ++ []) t := by
    rw [List.append_nil]
    exact h
  exact closeList_eq (hparas.paragraph_or_none habove) (Mode.ne_horizontal_of_isBox hown) hnests

/-- Where something else is open in it, this is closed. -/
theorem closeList_inner (h : Rests base own (paras ++ p :: inner) t) (hparas : ∀ q ∈ paras, q.mode = .horizontal)
    (hp : p.mode ≠ .horizontal) (hnests : t.nests = (paras ++ p :: inner) ++ ⟨own, nodes⟩ :: base.nests) :
    t.closeList = (.ok (p.nodes ++ paragraphs paras), { t with nests := inner ++ ⟨own, nodes⟩ :: base.nests }) :=
  closeList_eq (h.paragraph_or_none hparas) hp (by rw [hnests, List.append_assoc, List.cons_append])

theorem closed_inner (h : Rests base own (paras ++ p :: inner) t) (nodes : List Node) :
    Rests base own inner { t with nests := inner ++ ⟨own, nodes⟩ :: base.nests } := by
  have hsuffix : inner.map Nest.mode ++ [own] <:+ (paras ++ p :: inner).map Nest.mode ++ [own] :=
    ⟨paras.map Nest.mode ++ [p.mode], by simp⟩
  exact ⟨h.main, ⟨nodes, rfl⟩, h.orderly.suffix hsuffix⟩

end Rests

/-- What comes of closing a list while the lists `list` and `above` are open on those of `base`. -/
structure Closes (base : Typesetter) (list : Nest) (above : List Nest) (packed : List Node) (t : Typesetter) : Prop where
  main : t.main = base.main
  /-- The lists of `base` are open again, if nothing but a paragraph was open in the list. -/
  nests : t.nests = base.nests ↔ ∀ p ∈ above, p.mode = .horizontal
  /-- This is the list which is closed then. -/
  own : (∀ p ∈ above, p.mode = .horizontal) → packed = list.nodes ++ paragraphs above
  /-- Otherwise the innermost list is closed which is no paragraph, and the other one stays open. -/
  inner : ∀ paras p rest, above = paras ++ p :: rest → (∀ q ∈ paras, q.mode = .horizontal) → p.mode ≠ .horizontal →
    packed = p.nodes ++ paragraphs paras ∧ t.nests = rest ++ list :: base.nests

theorem Rests.closes {base t t' : Typesetter} {own : Mode} {above : List Nest} {nodes packed : List Node}
    (h : Rests base own above t) (hown : own.isBox = true) (hnests : t.nests = above ++ ⟨own, nodes⟩ :: base.nests)
    (hclose : t.closeList = (.ok packed, t')) : Closes base ⟨own, nodes⟩ above packed t' := by
  have howned : (∀ p ∈ above, p.mode = .horizontal) →
      packed = nodes ++ paragraphs above ∧ t' = { t with nests := base.nests } := by
    intro habove
    obtain ⟨hpacked, ht⟩ := Prod.mk.inj (hclose.symm.trans (h.closeList_own hown habove hnests))
    exact ⟨Except.ok.inj hpacked, ht⟩
  have hinner : ∀ paras p inner, above = paras ++ p :: inner → (∀ q ∈ paras, q.mode = .horizontal) →
      p.mode ≠ .horizontal →
        packed = p.nodes ++ paragraphs paras ∧ t' = { t with nests := inner ++ ⟨own, nodes⟩ :: base.nests } := by
    rintro paras p inner rfl hparas hp
    obtain ⟨hpacked, ht⟩ := Prod.mk.inj (hclose.symm.trans (h.closeList_inner hparas hp hnests))
    exact ⟨Except.ok.inj hpacked, ht⟩
  -- either nothing but paragraphs is open in the list, or something else is found below them
  by_cases habove : ∀ p ∈ above, p.mode = .horizontal
  · obtain ⟨hpacked, rfl⟩ := howned habove
    refine ⟨h.main, ⟨fun _ => habove, fun _ => rfl⟩, fun _ => hpacked, ?_⟩
    rintro paras p inner rfl - hp
    exact absurd (habove p (by simp)) hp
  · obtain ⟨paras, p, inner, hsplit, hparas, hp⟩ := exists_append_paragraphs (by simpa using habove)
    obtain ⟨-, rfl⟩ := hinner paras p inner hsplit hparas hp
    refine ⟨h.main, ⟨fun hsame => ?_, fun hall => absurd hall habove⟩, fun hall => absurd hall habove, ?_⟩
    · have hlength := congrArg List.length hsame
      simp only [List.length_append, List.length_cons] at hlength
      omega
    · intro paras' p' inner' hsplit' hparas' hp'
      obtain ⟨hpacked, ht⟩ := hinner paras' p' inner' hsplit' hparas' hp'
      exact ⟨hpacked, by rw [ht]⟩

end Typesetter

/-! ## Courses -/

section Courses

variable {strict : Prop} {l : Level} {o : Option Stop} {e e' : Engine} {base : Typesetter} {own : Mode}

open Typesetter (RestsOn)

theorem WorkStep.restsOn (h : WorkStep strict e e') (he : RestsOn base own e.typesetter) (hown : own.isBox = true) :
    RestsOn base own e'.typesetter := by
  cases h with
  | typesetter h => exact he.step hown h
  | pushText text source =>
    obtain ⟨input, heq⟩ := e.pushText_eq text source
    rw [heq]
    exact he
  | _ => exact he

/-- **The list of a box stays open until the box is finished, and the lists below it stay as they are.** -/
theorem Course.restsOn (h : Course strict l o e e') (he : RestsOn base own e.typesetter) (hown : own.isBox = true) :
    RestsOn base own e'.typesetter := by
  induction h generalizing base own with
  | refl => exact he
  | scan _ hstep ih =>
    rw [hstep.sameWork.typesetter]
    exact ih he hown
  | work _ _ hstep ih => exact hstep.restsOn (ih he hown) hown
  | exhausted _ ih => exact ih he hown
  | stop _ _ ih | restore _ _ ih | refuse _ _ _ ih | exceed _ _ _ _ ih | consult _ _ _ _ ih | answer _ _ _ ih
  | dismiss _ _ _ _ ih | say _ _ _ ih | consent _ ih | decline _ _ ih => exact ih he hown
  | forgive _ _ _ _ _ _ ih ih' => exact ih' (ih he hown) hown
  | decide _ _ _ ih ih' => exact ih' (ih he hown) hown
  | branch _ _ _ _ ih ih' => exact ih' (ih he hown) hown
  | @box l e e₁ e₂ m nodes t _ _ hm _ hclose ih ih' =>
    have hopened : RestsOn e₁.typesetter m e₂.typesetter := ih' ⟨[], .openList_base e₁.typesetter m⟩ hm
    obtain ⟨above, inner, nodes', hrests⟩ := (ih he hown).trans hopened hm
    have hinner : ∃ p ∈ inner ++ ⟨m, nodes'⟩ :: above, p.mode ≠ .horizontal :=
      ⟨⟨m, nodes'⟩, by simp, Mode.ne_horizontal_of_isBox hm⟩
    obtain ⟨paras, p, rest, hsplit, hparas, hp⟩ := Typesetter.exists_append_paragraphs hinner
    rw [hsplit] at hrests
    obtain ⟨nodes'', hnests⟩ := hrests.nests
    obtain ⟨-, rfl⟩ := Prod.mk.inj ((hrests.closeList_inner hparas hp hnests).symm.trans hclose)
    exact ⟨rest, hrests.closed_inner nodes''⟩

end Courses

/-! ## Box commands -/

/-- From the brace on, the contents of a box are executed in a list which was opened for them, and the innermost list is
packed. -/
theorem boxContents_ok {n : Nat} {mode : Mode} {f : List Node → Box} {e e' : Engine} {box : Box}
    (h : (do
      openingBrace (machine n)
      openGroup .simple
      modifyTypesetter (·.openList mode)
      executeGroup (machine n)
      return f (← closeList) : Action Box) e = .ok box e') :
    ∃ e₁ e₂ packed, e₁.typesetter = e.typesetter.openList mode ∧ 0 < e₁.context.depth ∧
      executeGroup (machine n) e₁ = .ok () e₂ ∧ e₂.typesetter.closeList = (.ok packed, e'.typesetter) ∧ box = f packed := by
  obtain ⟨u, e₀, hbrace, h⟩ := Proc.bind_eq_ok h
  have hscan := ((meets_openingBrace (R := Regime.reading.loose) (machine_sound n) e False.elim).ok hbrace).1
  let opened : Engine := (e₀.enterGroup .simple e₀.locator).modifyTypesetter (·.openList mode)
  obtain ⟨u, e₂, hexecute, h⟩ : ∃ u e₂, executeGroup (machine n) opened = .ok u e₂ ∧ _ := Proc.bind_eq_ok h
  obtain ⟨packed, e₃, hclose, h⟩ := Proc.bind_eq_ok h
  cases h
  refine ⟨opened, e₂, packed, ?_, Nat.succ_pos _, hexecute, ?_, rfl⟩
  · show e₀.typesetter.openList mode = _
    rw [(hscan.sameWork rfl).typesetter]
  · simp only [closeList, Proc.get_bind] at hclose
    generalize e₂.typesetter.closeList = closed at hclose ⊢
    obtain ⟨result, t⟩ := closed
    cases result with
    | ok nodes =>
      cases hclose
      rfl
    | error fault => cases hclose

theorem makeBox_ok {n : Nat} {kind : BoxKind} {e e' : Engine} {box : Box} (h : makeBox (machine n) kind e = .ok box e') :
    ∃ e₁ e₂ packed width, e₁.typesetter = e.typesetter.openList (contentsMode kind) ∧ 0 < e₁.context.depth ∧
      executeGroup (machine n) e₁ = .ok () e₂ ∧ e₂.typesetter.closeList = (.ok packed, e'.typesetter) ∧
      box = { Box.pack kind packed with width } := by
  have hm := machine_sound n
  unfold makeBox at h
  obtain ⟨found, e₀, hkeyword, h⟩ := Proc.bind_eq_ok h
  have hscan := ((meets_keyword (R := Regime.reading.loose) hm "to").lift e False.elim).ok hkeyword
  have htypesetter := (hscan.1.sameWork rfl).typesetter
  cases found with
  | true =>
    obtain ⟨width, ew, hwidth, h⟩ := Proc.bind_eq_ok h
    have hmeets : Meets Regime.reading.loose (some <$> (monadLift (dimension (machine n)) : Action Measure.Dimen))
        fun _ => True := (meets_dimension hm).lift.map some
    have htypesetter' := (((hmeets e₀ False.elim).ok hwidth).1.sameWork rfl).typesetter
    obtain ⟨e₁, e₂, packed, hopened, hdepth, hexecute, hclose, rfl⟩ := boxContents_ok h
    rw [htypesetter', htypesetter] at hopened
    cases width with
    | none => exact ⟨e₁, e₂, packed, (Box.pack kind packed).width, hopened, hdepth, hexecute, hclose, rfl⟩
    | some width => exact ⟨e₁, e₂, packed, width, hopened, hdepth, hexecute, hclose, rfl⟩
  | false =>
    obtain ⟨e₁, e₂, packed, hopened, hdepth, hexecute, hclose, rfl⟩ := boxContents_ok h
    rw [htypesetter] at hopened
    exact ⟨e₁, e₂, packed, (Box.pack kind packed).width, hopened, hdepth, hexecute, hclose, rfl⟩

/-- **A box closes its own list, unless something else than a paragraph is open in it.** A box which is made without an error
has its contents executed in a list of its own. All lists which were open before lie below it, and nothing is done to them
until the box is finished. If then nothing but a paragraph is open in the list of the box, this is the list which is packed,
and exactly the lists from before are open. If a formula is open in it, or the list of a box which was not closed, that is
packed in its place, and the list of the box stays open. The number `n` bounds how far the contents are followed. -/
theorem box_closes_own_list (n : Nat) (kind : BoxKind) (e e' : Engine) (box : Box)
    (h : makeBox (machine n) kind e = .ok box e') :
    ∃ e₁ e₂ above nodes packed width, e₁.typesetter = e.typesetter.openList (contentsMode kind) ∧
      executeGroup (machine n) e₁ = .ok () e₂ ∧ e₂.typesetter.main = e.typesetter.main ∧
      e₂.typesetter.nests = above ++ ⟨contentsMode kind, nodes⟩ :: e.typesetter.nests ∧
      e.typesetter.Closes ⟨contentsMode kind, nodes⟩ above packed e'.typesetter ∧
      box = { Box.pack kind packed with width } := by
  have hown := contentsMode_isBox kind
  obtain ⟨e₁, e₂, packed, width, hopened, hdepth, hexecute, hclose, hbox⟩ := makeBox_ok h
  have hmeets : MeetsAt (.command False) (executeGroup (machine n)) (fun _ => True) e₁ :=
    worksAt_executeGroup (machine_sound n) False.elim hdepth
  have hbegun : Typesetter.RestsOn e.typesetter (contentsMode kind) e₁.typesetter := by
    rw [hopened]
    exact ⟨[], .openList_base e.typesetter (contentsMode kind)⟩
  obtain ⟨above, hrests⟩ := (hmeets.ok hexecute).1.restsOn hbegun hown
  obtain ⟨nodes, hnests⟩ := hrests.nests
  exact ⟨e₁, e₂, above, nodes, packed, width, hopened, hexecute, hrests.main, hnests, hrests.closes hown hnests hclose, hbox⟩

/-- The contents of a vertical box end within a paragraph, and no list stays open. So the list of the box is packed. -/
theorem box_closes_own_list_paragraph :
    let e : Engine := (Engine.new default {}).pushText "{a}" ""
    ∃ box e' above nodes width, makeBox (machine 12) .vertical e = .ok box e' ∧ e'.typesetter.nests = e.typesetter.nests ∧
      (∀ p ∈ above, p.mode = .horizontal) ∧
      box = { Box.pack .vertical (nodes ++ Typesetter.paragraphs above) with width } := by
  intro e
  have hvalue : (valueOf (makeBox (machine 12) .vertical e)).isSome = true := by decide +kernel
  have hnests : (finalState (makeBox (machine 12) .vertical e)).typesetter.nests.isEmpty = true := by decide +kernel
  obtain ⟨box, hbox⟩ := Option.isSome_iff_exists.1 hvalue
  obtain ⟨e', h⟩ := exists_of_valueOf hbox
  rw [h] at hnests
  have hsame : e'.typesetter.nests = e.typesetter.nests := List.isEmpty_iff.1 hnests
  obtain ⟨e₁, e₂, above, nodes, packed, width, -, -, -, -, hcloses, rfl⟩ := box_closes_own_list 12 .vertical e e' box h
  have habove := hcloses.nests.1 hsame
  exact ⟨_, e', above, nodes, width, h, hsame, habove, by rw [hcloses.own habove]⟩

/-- The contents of a box end within a formula. It is packed, and the list of the box stays open behind it. -/
theorem box_closes_formula :
    let e : Engine := (Engine.new default {}).pushText "{$a}" ""
    let r := makeBox (machine 12) .horizontal e
    e.typesetter.nests = [] ∧ (valueOf r).isSome = true ∧ (finalState r).halted = false ∧ (finalState r).errorCount = 0 ∧
      (finalState r).typesetter.nests.map Nest.mode = [.restrictedHorizontal] := by
  decide +kernel

end Compositor
