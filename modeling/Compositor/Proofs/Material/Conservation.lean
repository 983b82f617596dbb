import Compositor.Material.Typesetter
import Mathlib.Data.List.Basic
import Mathlib.Data.List.Infix

/-!
# The conservation of material

Whatever is asked of a typesetter, the nodes of its lists, read from the main list to the innermost one
(`Typesetter.allNodes`), change at their end only. A request adds nodes there, hands nodes out from there, or drops the glue
at the end of a paragraph.

* `Request` lists what can be asked of a typesetter, `Request.own` the nodes which a request adds, `Request.lost` those
  which nobody gets, and `Delivery.taken` those which are handed out;
* `Conserves` is the balance of a single request, and `conserves_perform` says that every request keeps it;
* `material_conserved` is the statement about all sequences of requests, with the balance of the whole sequence.
-/

namespace Compositor

open Compositor.Measure

/-! ## Requests -/

/-- What can be asked of a typesetter. -/
inductive Request where
  | add (style : Style) (code : Nat)
  | addSpace (style : Style) (factor : Int64)
  | addGlue (g : Glue)
  | addKern (d : Dimen)
  | addPenalty (cost : Int64)
  | addBox (b : Option Box)
  | par
  /-- A formula in the text is started or ended, or a displayed one. -/
  | toggleMath (display : Bool)
  | openList (mode : Mode)
  | closeList
  | removeLastNode
  | finish

/-- What a typesetter answers. -/
inductive Delivery where
  | nothing
  | failed (fault : TypesettingFault)
  /-- The last node of the innermost list, if it had one. -/
  | removed (node : Option Node)
  /-- The nodes of the list which was closed. -/
  | closed (nodes : List Node)
  /-- The nodes of the main list, which stay there. -/
  | finished (nodes : List Node)

/-- The nodes which have left the typesetter. -/
def Delivery.taken : Delivery → List Node
  | removed node => node.toList
  | closed nodes => nodes
  | _ => []

/-- The glue at the end of a list, if there is any. -/
def trailingGlue (nodes : List Node) : List Node := (nodes.getLast?.filter Node.isGlue).toList

namespace Request

def perform (t : Typesetter) : Request → Delivery × Typesetter
  | add style code => (.nothing, t.add style code)
  | addSpace style factor => (.nothing, t.addSpace style factor)
  | addGlue g => (.nothing, t.addGlue g)
  | addKern d => (.nothing, t.addKern d)
  | addPenalty cost => (.nothing, t.addPenalty cost)
  | addBox b => (.nothing, t.addBox b)
  | par => (.nothing, t.par)
  | toggleMath display =>
    match t.toggleMath display with
    | (none, t') => (.nothing, t')
    | (some fault, t') => (.failed fault, t')
  | openList mode => (.nothing, t.openList mode)
  | closeList =>
    match t.closeList with
    | (.ok nodes, t') => (.closed nodes, t')
    | (.error fault, t') => (.failed fault, t')
  | removeLastNode => (.removed t.lastNode, t.removeLastNode)
  | finish => (.finished t.finish.main, t.finish)

def paragraphMark (t : Typesetter) : List Node := if t.mode = .horizontal then [.par] else []

def formulaMode (display : Bool) : Mode := if display then .displayMath else .math

/-- The mark at the begin or the end of a formula. There is none where a formula of the other sort is open. -/
def formulaMark (t : Typesetter) (display : Bool) : List Node :=
  if t.mode = formulaMode display then [.math false display]
  else if t.mode.isMath then [] else [.math true display]

def own (t : Typesetter) : Request → List Node
  | add style code => [.glyphOf style.font code]
  | addSpace style factor => if t.mode.isVertical then [] else [.glue (Typesetter.spaceOf style.font factor) true]
  | addGlue g => [.glue g false]
  | addKern d => [.kern d]
  | addPenalty cost => [.penalty cost]
  | addBox b => (b.map Box.toNode).toList
  | toggleMath display => formulaMark t display
  | par | closeList | finish => paragraphMark t
  | openList _ | removeLastNode => []

/-- The nodes which get lost: the glue at the end of a paragraph. -/
def lost (t : Typesetter) : Request → List Node
  | par | closeList | finish => if t.mode = .horizontal then trailingGlue t.current else []
  | _ => []

end Request

/-! ## The nodes of all lists -/

namespace Typesetter

variable {t t' : Typesetter}

/-- All lists under construction, the innermost first. The last one is the main list. -/
def lists (t : Typesetter) : List Nest := t.nests ++ [⟨.vertical, t.main⟩]

/-- The nodes of the lists around the innermost one. -/
def enclosing (t : Typesetter) : List Node :=
  match t.nests with
  | [] => []
  | _ :: rest => t.main ++ (rest.reverse.map Nest.nodes).flatten

theorem allNodes_eq (t : Typesetter) : t.allNodes = t.enclosing ++ t.current := by
  unfold allNodes enclosing current
  cases t.nests with
  | nil => simp
  | cons nest rest => simp

theorem allNodes_lists (t : Typesetter) : t.allNodes = (t.lists.reverse.map Nest.nodes).flatten := by
  simp [allNodes, lists]

theorem allNodes_modifyCurrent (t : Typesetter) (f : List Node → List Node) :
    (t.modifyCurrent f).allNodes = t.enclosing ++ f t.current := by
  unfold modifyCurrent allNodes enclosing current
  cases t.nests with
  | nil => simp
  | cons nest rest => simp

theorem allNodes_append (t : Typesetter) (nodes : List Node) : (t.append nodes).allNodes = t.allNodes ++ nodes := by
  rw [append, allNodes_modifyCurrent, allNodes_eq t, List.append_assoc]

theorem allNodes_record (t : Typesetter) (event : Event) : (t.record event).allNodes = t.allNodes := rfl

theorem allNodes_openList (t : Typesetter) (mode : Mode) : (t.openList mode).allNodes = t.allNodes := by
  simp [allNodes, openList]

theorem allNodes_startParagraph (t : Typesetter) : t.startParagraph.allNodes = t.allNodes := by
  unfold startParagraph
  split
  · exact t.allNodes_openList .horizontal
  · rfl

theorem allNodes_of_nests {nest : Nest} {rest : List Nest} (h : t.nests = nest :: rest) :
    t.allNodes = ({ t with nests := rest } : Typesetter).allNodes ++ nest.nodes := by
  simp [allNodes, h]

theorem gather_eq (main inner : List Node) (nests : List Nest) :
    gather main inner nests = main ++ (nests.reverse.map Nest.nodes).flatten ++ inner := by
  induction nests generalizing inner with
  | nil => simp [gather]
  | cons nest rest ih => simp [gather, ih]

/-! ## Paragraphs -/

theorem dropLastGlue_append (nodes : List Node) : dropLastGlue nodes ++ trailingGlue nodes = nodes := by
  unfold dropLastGlue trailingGlue
  cases h : nodes.getLast? with
  | none => simp
  | some n =>
    by_cases hn : n.isGlue = true
    · have hlast : nodes.dropLast ++ [n] = nodes := List.dropLast_append_getLast? n h
      simpa [hn, Option.filter] using hlast
    · simp [hn, Option.filter]

/-- A typesetter which gathers a paragraph has more than its main list. -/
theorem exists_nests_of_mode (h : t.mode = .horizontal) :
    ∃ nest rest, t.nests = nest :: rest ∧ nest.mode = .horizontal ∧ t.current = nest.nodes := by
  unfold mode at h
  unfold current
  cases hnests : t.nests with
  | nil =>
    rw [hnests] at h
    cases h
  | cons nest rest =>
    rw [hnests] at h
    exact ⟨nest, rest, rfl, h, rfl⟩

theorem allNodes_endParagraph (t : Typesetter) :
    ∃ kept, t.allNodes = kept ++ Request.par.lost t ∧ t.endParagraph.allNodes = kept ++ Request.par.own t := by
  by_cases hmode : t.mode = .horizontal
  · obtain ⟨nest, rest, hnests, hnest, hcurrent⟩ := exists_nests_of_mode hmode
    let outer : Typesetter := { t with nests := rest }
    have hended : t.endParagraph = outer.append (dropLastGlue nest.nodes ++ [.par]) := by
      simp only [endParagraph, hnests, hnest, if_true, outer]
    refine ⟨outer.allNodes ++ dropLastGlue nest.nodes, ?_, ?_⟩
    · rw [allNodes_of_nests hnests, Request.lost, if_pos hmode, hcurrent, List.append_assoc, dropLastGlue_append]
    · rw [hended, allNodes_append, Request.own, Request.paragraphMark, if_pos hmode, List.append_assoc]
  · have hended : t.endParagraph = t := by
      unfold mode at hmode
      unfold endParagraph
      split
      · rfl
      · rename_i hnests
        rw [hnests] at hmode
        rw [if_neg hmode]
    refine ⟨t.allNodes, ?_, ?_⟩
    · rw [Request.lost, if_neg hmode, List.append_nil]
    · rw [hended, Request.own, Request.paragraphMark, if_neg hmode, List.append_nil]

theorem main_prefix_endParagraph (t : Typesetter) : t.main <+: t.endParagraph.main := by
  unfold endParagraph append modifyCurrent
  split
  · exact List.prefix_rfl
  · split
    · dsimp only
      split
      · exact List.prefix_append _ _
      · exact List.prefix_rfl
    · exact List.prefix_rfl

theorem lists_par (t : Typesetter) : t.par.lists = t.endParagraph.lists := by
  rcases t with ⟨main, nests, events⟩
  cases nests with
  | nil => rfl
  | cons nest rest =>
    simp only [par, record, endParagraph]
    split
    · cases rest <;> rfl
    · rfl

theorem nests_of_lists {outermost : Nest} (h : t.lists = [outermost]) : t.nests = [] := by
  have hlength := congrArg List.length h
  simpa [lists] using hlength

theorem allNodes_par (t : Typesetter) : t.par.allNodes = t.endParagraph.allNodes := by
  rw [allNodes_lists, allNodes_lists, lists_par]

theorem main_prefix_append (t : Typesetter) (nodes : List Node) : t.main <+: (t.append nodes).main := by
  unfold append modifyCurrent
  split
  · exact List.prefix_append _ _
  · exact List.prefix_rfl

theorem main_startParagraph (t : Typesetter) : t.startParagraph.main = t.main := by
  unfold startParagraph
  split <;> rfl

end Typesetter

/-! ## The balance of a request -/

open Typesetter

/-- What a request and its answer have to do with the nodes of a typesetter. -/
structure Conserves (t : Typesetter) (r : Request) (d : Delivery) (t' : Typesetter) : Prop where
  /-- What is lost was at the end. What is added comes to the end, and what is handed out is taken from there. -/
  balance : ∃ kept, t.allNodes = kept ++ r.lost t ∧ kept ++ r.own t = t'.allNodes ++ d.taken
  /-- At most the glue at the end of a paragraph gets lost. -/
  lost : (r.lost t).length ≤ 1 ∧
    ∀ n ∈ r.lost t, n.isGlue = true ∧ t.mode = .horizontal ∧ t.current.getLast? = some n
  /-- Nodes leave the main list only to be handed out. -/
  outermost : t.main <+: t'.main ++ d.taken
  /-- A node is removed from the innermost list. -/
  removed : r = .removeLastNode → d = .removed t.current.getLast? ∧ t'.lists.map Nest.mode = t.lists.map Nest.mode
  /-- The list which is closed is the innermost one, after the end of a paragraph. -/
  closed : ∀ nodes, d = .closed nodes → ∃ mode, t.par.lists = ⟨mode, nodes⟩ :: t'.lists
  /-- Only the main list cannot be closed. The paragraph has been ended then, and nothing else was done. -/
  unclosed : r = .closeList → ∀ fault, d = .failed fault → t.par.nests = [] ∧ t'.lists = t.par.lists
  /-- Only within a formula of the other sort, a formula can neither be started nor be ended. Nothing was done then. -/
  untoggled : ∀ display, r = .toggleMath display → ∀ fault, d = .failed fault →
    t.mode = Request.formulaMode (!display) ∧ t'.lists = t.lists
  /-- In the end all nodes are in the main list, and no other list is open. -/
  finished : ∀ nodes, d = .finished nodes → nodes = t.par.allNodes ∧ t'.lists = [⟨.vertical, nodes⟩]

section Balance

variable {t t' : Typesetter} {r : Request}

theorem lost_glue (t : Typesetter) (r : Request) :
    (r.lost t).length ≤ 1 ∧ ∀ n ∈ r.lost t, n.isGlue = true ∧ t.mode = .horizontal ∧ t.current.getLast? = some n := by
  have hcases : r.lost t = [] ∨ t.mode = .horizontal ∧ r.lost t = trailingGlue t.current := by
    by_cases hmode : t.mode = .horizontal
    · cases r <;> simp [Request.lost, hmode]
    · cases r <;> simp [Request.lost, hmode]
  rcases hcases with hnone | ⟨hmode, hlost⟩
  · simp [hnone]
  · rw [hlost, trailingGlue]
    refine ⟨Option.length_toList_le, fun n hn => ?_⟩
    obtain ⟨hlast, hglue⟩ := Option.mem_filter_iff.1 (Option.mem_toList.1 hn)
    exact ⟨hglue, hmode, hlast⟩

theorem conserves_of_nothing (hbalance : ∃ kept, t.allNodes = kept ++ r.lost t ∧ t'.allNodes = kept ++ r.own t)
    (hmain : t.main <+: t'.main) (hr : r ≠ .removeLastNode) : Conserves t r .nothing t' where
  balance := by
    obtain ⟨kept, hlost, hown⟩ := hbalance
    exact ⟨kept, hlost, hown.symm.trans (List.append_nil _).symm⟩
  lost := lost_glue t r
  outermost := hmain.trans (List.prefix_append _ _)
  removed h := (hr h).elim
  closed := nofun
  unclosed := nofun
  untoggled := nofun
  finished := nofun

theorem conserves_of_append (hlost : r.lost t = []) (hown : t'.allNodes = t.allNodes ++ r.own t)
    (hmain : t.main <+: t'.main) (hr : r ≠ .removeLastNode) : Conserves t r .nothing t' := by
  refine conserves_of_nothing ⟨t.allNodes, ?_, hown⟩ hmain hr
  rw [hlost, List.append_nil]

theorem conserves_add (t : Typesetter) (style : Style) (code : Nat) :
    Conserves t (.add style code) .nothing (t.add style code) := by
  refine conserves_of_append rfl ?_ ?_ nofun
  · rw [Typesetter.add, allNodes_append, allNodes_startParagraph, allNodes_record, Request.own]
  · have hmain := main_prefix_append (t.record (.letter (charOfCode code))).startParagraph [.glyphOf style.font code]
    rwa [main_startParagraph] at hmain

theorem conserves_addSpace (t : Typesetter) (style : Style) (factor : Int64) :
    Conserves t (.addSpace style factor) .nothing (t.addSpace style factor) := by
  have hmode : (t.record .space).mode = t.mode := rfl
  refine conserves_of_append rfl ?_ ?_ nofun
  · simp only [Typesetter.addSpace, Request.own, hmode]
    split
    · rw [allNodes_record, List.append_nil]
    · rw [allNodes_append, allNodes_record]
  · simp only [Typesetter.addSpace, hmode]
    split
    · exact List.prefix_rfl
    · exact main_prefix_append (t.record .space) _

theorem conserves_addBox (t : Typesetter) (b : Option Box) : Conserves t (.addBox b) .nothing (t.addBox b) := by
  cases b with
  | none => exact conserves_of_append rfl (List.append_nil _).symm List.prefix_rfl nofun
  | some b => exact conserves_of_append rfl (allNodes_append _ _) (main_prefix_append (t.record .box) _) nofun

theorem conserves_par (t : Typesetter) : Conserves t .par .nothing t.par := by
  refine conserves_of_nothing ?_ ?_ nofun
  · rw [allNodes_par]
    exact allNodes_endParagraph t
  · exact main_prefix_endParagraph (t.record .par)

theorem toggle_balance {display : Bool} (h : t.toggle display = .ok t') :
    t'.allNodes = t.allNodes ++ Request.formulaMark t display ∧ t.main <+: t'.main := by
  have hmode : (if display = true then Mode.displayMath else Mode.math) = Request.formulaMode display := rfl
  have hstart : ∀ t' : Typesetter,
      (t.startParagraph.append [.math true display]).openList (Request.formulaMode display) = t' →
      t'.allNodes = t.allNodes ++ [.math true display] ∧ t.main <+: t'.main := by
    rintro t' rfl
    refine ⟨?_, ?_⟩
    · rw [allNodes_openList, allNodes_append, allNodes_startParagraph]
    · have hmain := main_prefix_append t.startParagraph [.math true display]
      rwa [main_startParagraph] at hmain
  have hvertical : Mode.vertical ≠ Request.formulaMode display := by
    cases display <;> exact nofun
  -- a formula of this kind ends, one of the other kind refuses, and anywhere else a formula starts
  unfold toggle at h
  unfold Request.formulaMark mode
  simp only [hmode] at h
  cases hnests : t.nests with
  | nil =>
    rw [hnests] at h
    obtain ⟨hnodes, hmain⟩ := hstart t' (Except.ok.inj h)
    exact ⟨by rw [hnodes, if_neg hvertical]; rfl, hmain⟩
  | cons nest rest =>
    simp only [hnests] at h
    by_cases hnest : nest.mode = Request.formulaMode display
    · rw [if_pos hnest] at h
      obtain rfl := Except.ok.inj h
      refine ⟨?_, main_prefix_append ({ t with nests := rest } : Typesetter) _⟩
      rw [allNodes_append, allNodes_of_nests hnests, if_pos hnest, List.append_assoc]
    · rw [if_neg hnest] at h
      by_cases hmath : nest.mode.isMath = true
      · rw [if_pos hmath] at h
        cases h
      · rw [if_neg hmath] at h
        obtain ⟨hnodes, hmain⟩ := hstart t' (Except.ok.inj h)
        exact ⟨by rw [hnodes, if_neg hnest, if_neg hmath], hmain⟩

theorem formulaMode_of_isMath {m : Mode} {display : Bool} (hmath : m.isMath = true)
    (hm : m ≠ Request.formulaMode display) : m = Request.formulaMode (!display) := by
  cases display <;> cases m <;> simp_all [Request.formulaMode, Mode.isMath]

/-- A formula of the other sort is open where none can be started or ended. -/
theorem mode_of_toggle {display : Bool} {fault : TypesettingFault} (h : t.toggle display = .error fault) :
    t.mode = Request.formulaMode (!display) ∧ Request.formulaMark t display = [] := by
  have hmode : (if display = true then Mode.displayMath else Mode.math) = Request.formulaMode display := rfl
  unfold toggle at h
  unfold Request.formulaMark mode
  simp only [hmode] at h
  cases hnests : t.nests with
  | nil =>
    rw [hnests] at h
    cases h
  | cons nest rest =>
    simp only [hnests] at h
    by_cases hnest : nest.mode = Request.formulaMode display
    · rw [if_pos hnest] at h
      cases h
    · rw [if_neg hnest] at h
      by_cases hmath : nest.mode.isMath = true
      · exact ⟨formulaMode_of_isMath hmath hnest, by rw [if_neg hnest, if_pos hmath]⟩
      · rw [if_neg hmath] at h
        cases h

theorem conserves_toggleMath (t : Typesetter) (display : Bool) :
    Conserves t (.toggleMath display) ((Request.toggleMath display).perform t).1
      ((Request.toggleMath display).perform t).2 := by
  simp only [Request.perform, toggleMath]
  generalize (if display = true then Event.displayMath else Event.math) = event
  cases htoggle : (t.record event).toggle display with
  | ok t' =>
    obtain ⟨hnodes, hmain⟩ := toggle_balance htoggle
    exact conserves_of_append rfl hnodes hmain nofun
  | error fault =>
    obtain ⟨hmode, hmark⟩ := mode_of_toggle htoggle
    have hown : (Request.toggleMath display).own t = [] := hmark
    refine ⟨⟨t.allNodes, (List.append_nil _).symm, ?_⟩, lost_glue t _, ?_, nofun, nofun, nofun, ?_, nofun⟩
    · rw [hown]
      rfl
    · exact List.prefix_append _ _
    · rintro display' ⟨⟩ fault' -
      exact ⟨hmode, rfl⟩

theorem conserves_closeList (t : Typesetter) :
    Conserves t .closeList (Request.closeList.perform t).1 (Request.closeList.perform t).2 := by
  obtain ⟨kept, hlost, hended⟩ := allNodes_endParagraph t
  simp only [Request.perform, closeList]
  cases hnests : t.endParagraph.nests with
  | nil =>
    refine ⟨⟨kept, hlost, ?_⟩, lost_glue t _, ?_, nofun, nofun, ?_, nofun, nofun⟩
    · exact hended.symm.trans (List.append_nil _).symm
    · exact (main_prefix_endParagraph t).trans (List.prefix_append _ _)
    · rintro - fault -
      have hlists : t.par.lists = [⟨.vertical, t.endParagraph.main⟩] := by
        rw [lists_par, lists, hnests]
        rfl
      exact ⟨nests_of_lists hlists, by rw [hlists, lists, hnests]; rfl⟩
  | cons nest rest =>
    refine ⟨⟨kept, hlost, ?_⟩, lost_glue t _, ?_, nofun, ?_, nofun, nofun, nofun⟩
    · exact hended.symm.trans (allNodes_of_nests hnests)
    · exact (main_prefix_endParagraph t).trans (List.prefix_append _ _)
    · rintro nodes ⟨⟩
      refine ⟨nest.mode, ?_⟩
      rw [lists_par, lists, hnests]
      rfl

theorem conserves_removeLastNode (t : Typesetter) :
    Conserves t .removeLastNode (.removed t.lastNode) t.removeLastNode := by
  have hlast : t.current.dropLast ++ t.lastNode.toList = t.current := by
    unfold lastNode
    cases h : t.current.getLast? with
    | none => simp [List.getLast?_eq_none_iff.1 h]
    | some n => exact List.dropLast_append_getLast? n h
  have hnodes : t.removeLastNode.allNodes ++ t.lastNode.toList = t.allNodes := by
    rw [removeLastNode, allNodes_modifyCurrent, List.append_assoc, hlast, allNodes_eq]
  refine ⟨⟨t.allNodes, (List.append_nil _).symm, ?_⟩, lost_glue t _, ?_, ?_, nofun, nofun, nofun, nofun⟩
  · exact (List.append_nil _).trans hnodes.symm
  · -- nodes are removed from the main list only where it is the innermost one
    unfold removeLastNode modifyCurrent
    unfold current at hlast
    cases hnests : t.nests with
    | nil =>
      rw [hnests] at hlast
      exact hlast.symm ▸ List.prefix_rfl
    | cons nest rest => exact List.prefix_append _ _
  · intro _
    refine ⟨rfl, ?_⟩
    unfold removeLastNode modifyCurrent lists
    cases t.nests <;> simp

theorem conserves_finish (t : Typesetter) : Conserves t .finish (.finished t.finish.main) t.finish := by
  obtain ⟨kept, hlost, hended⟩ := allNodes_endParagraph t
  have hmain : t.finish.main = t.endParagraph.allNodes := by
    simp only [finish, gather_eq, allNodes, List.append_nil]
  have hnodes : t.finish.allNodes = t.endParagraph.allNodes := by
    rw [← hmain]
    exact List.append_nil _
  refine ⟨⟨kept, hlost, ?_⟩, lost_glue t _, ?_, nofun, nofun, nofun, nofun, ?_⟩
  · exact hended.symm.trans (hnodes.symm.trans (List.append_nil _).symm)
  · have hprefix : t.endParagraph.main <+: t.endParagraph.allNodes := List.prefix_append _ _
    rw [hmain]
    exact ((main_prefix_endParagraph t).trans hprefix).trans (List.prefix_append _ _)
  · rintro nodes ⟨⟩
    exact ⟨hmain.trans (allNodes_par t).symm, rfl⟩

/-- **Every request is balanced.** -/
theorem conserves_perform (t : Typesetter) (r : Request) : Conserves t r (r.perform t).1 (r.perform t).2 := by
  have happended : ∀ (event : Event) (nodes : List Node), t.main <+: ((t.record event).append nodes).main :=
    fun event nodes => main_prefix_append (t.record event) nodes
  cases r with
  | add style code => exact conserves_add t style code
  | addSpace style factor => exact conserves_addSpace t style factor
  | addGlue | addKern | addPenalty => exact conserves_of_append rfl (allNodes_append _ _) (happended _ _) nofun
  | addBox b => exact conserves_addBox t b
  | par => exact conserves_par t
  | toggleMath display => exact conserves_toggleMath t display
  | openList mode =>
    exact conserves_of_append rfl ((allNodes_openList t mode).trans (List.append_nil _).symm) List.prefix_rfl nofun
  | closeList => exact conserves_closeList t
  | removeLastNode => exact conserves_removeLastNode t
  | finish => exact conserves_finish t

end Balance

/-! ## Sequences of requests -/

namespace Typesetter

def after (t : Typesetter) : List Request → Typesetter
  | [] => t
  | r :: rs => after (r.perform t).2 rs

/-- The nodes which a sequence of requests adds. -/
def added (t : Typesetter) : List Request → List Node
  | [] => []
  | r :: rs => r.own t ++ added (r.perform t).2 rs

/-- The nodes which leave the typesetter during a sequence of requests: those which get lost and those which are handed
out. -/
def removed (t : Typesetter) : List Request → List Node
  | [] => []
  | r :: rs => r.lost t ++ (r.perform t).1.taken ++ removed (r.perform t).2 rs

/-- No node is duplicated, and the nodes stay in their order. -/
theorem after_sublist (t : Typesetter) (rs : List Request) : (t.after rs).allNodes.Sublist (t.allNodes ++ t.added rs) := by
  induction rs generalizing t with
  | nil => exact List.sublist_append_left _ _
  | cons r rs ih =>
    obtain ⟨kept, hlost, hown⟩ := (conserves_perform t r).balance
    have hstep : (r.perform t).2.allNodes.Sublist (t.allNodes ++ r.own t) := by
      have htaken : (r.perform t).2.allNodes.Sublist (kept ++ r.own t) := hown ▸ List.sublist_append_left _ _
      have hkept : kept.Sublist t.allNodes := hlost ▸ List.sublist_append_left _ _
      exact htaken.trans (hkept.append_right _)
    have hrest := (ih (r.perform t).2).trans (hstep.append_right _)
    rwa [List.append_assoc] at hrest

open scoped List in
theorem after_perm (t : Typesetter) (rs : List Request) :
    t.allNodes ++ t.added rs ~ (t.after rs).allNodes ++ t.removed rs := by
  have hswap : ∀ a b c : List Node, a ++ b ++ c ~ a ++ c ++ b := by
    intro a b c
    rw [List.append_assoc, List.append_assoc]
    exact List.perm_append_comm.append_left a
  induction rs generalizing t with
  | nil => exact .refl _
  | cons r rs ih =>
    obtain ⟨kept, hlost, hown⟩ := (conserves_perform t r).balance
    generalize hanswer : r.perform t = answer at hown
    obtain ⟨d, t₁⟩ := answer
    have hstep : t.allNodes ++ r.own t ~ t₁.allNodes ++ (r.lost t ++ d.taken) := by
      calc t.allNodes ++ r.own t ~ kept ++ r.own t ++ r.lost t := hlost ▸ hswap kept (r.lost t) (r.own t)
        _ = t₁.allNodes ++ d.taken ++ r.lost t := by rw [hown]
        _ ~ t₁.allNodes ++ r.lost t ++ d.taken := hswap _ _ _
        _ = t₁.allNodes ++ (r.lost t ++ d.taken) := List.append_assoc _ _ _
    simp only [added, removed, after, hanswer]
    calc t.allNodes ++ (r.own t ++ t₁.added rs) = t.allNodes ++ r.own t ++ t₁.added rs := (List.append_assoc _ _ _).symm
      _ ~ t₁.allNodes ++ (r.lost t ++ d.taken) ++ t₁.added rs := hstep.append_right _
      _ ~ t₁.allNodes ++ t₁.added rs ++ (r.lost t ++ d.taken) := hswap _ _ _
      _ ~ (t₁.after rs).allNodes ++ t₁.removed rs ++ (r.lost t ++ d.taken) := (ih t₁).append_right _
      _ ~ (t₁.after rs).allNodes ++ (r.lost t ++ d.taken) ++ t₁.removed rs := hswap _ _ _
      _ = (t₁.after rs).allNodes ++ (r.lost t ++ d.taken ++ t₁.removed rs) := List.append_assoc _ _ _

end Typesetter

/-- **No material is lost, duplicated or reordered.** -/
theorem material_conserved (rs : List Request) (r : Request) :
    let t := ({} : Typesetter).after rs
    Conserves t r (r.perform t).1 (r.perform t).2 ∧
      t.allNodes = (t.lists.reverse.map Nest.nodes).flatten ∧ t.lists.getLast? = some ⟨.vertical, t.main⟩ ∧
      t.allNodes.Sublist (({} : Typesetter).added rs) ∧
      (({} : Typesetter).added rs).Perm (t.allNodes ++ ({} : Typesetter).removed rs) := by
  intro t
  refine ⟨conserves_perform t r, allNodes_lists t, ?_, after_sublist {} rs, after_perm {} rs⟩
  simp [lists]

end Compositor
