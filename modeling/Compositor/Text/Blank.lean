import Compositor.Text.Progression

/-!
# White space
-/

namespace Compositor.Text

/-- The characters of white space: the blank, tabulator and line ends, and the spaces of typography. -/
def isBlank (c : Char) : Bool :=
  inRanges [(0x09, 0x0d), (0x20, 0x20), (0x85, 0x85), (0xa0, 0xa0), (0x1680, 0x1680), (0x2000, 0x200a),
    (0x2028, 0x2029), (0x202f, 0x202f), (0x205f, 0x205f), (0x3000, 0x3000)] c.toNat

/-- The list without its longest tail of members of a class. -/
def dropTail (p : Char → Bool) (cs : List Char) : List Char :=
  (cs.reverse.dropWhile p).reverse

/-- A text without white space at its ends. -/
def trim (s : String) : String :=
  String.ofList (dropTail isBlank (s.toList.dropWhile isBlank))

theorem dropTail_append_of_pos {p : Char → Bool} {c : Char} (cs : List Char) (h : p c = true) :
    dropTail p (cs ++ [c]) = dropTail p cs := by
  simp [dropTail, h]

/-- A character outside of the class at the end keeps everything. -/
theorem dropTail_append_of_neg {p : Char → Bool} {c : Char} (cs : List Char) (h : p c = false) :
    dropTail p (cs ++ [c]) = cs ++ [c] := by
  simp [dropTail, h]

theorem dropTail_sublist (p : Char → Bool) (cs : List Char) : (dropTail p cs).Sublist cs := by
  have hdrop := (List.dropWhile_sublist p (l := cs.reverse)).reverse
  rwa [List.reverse_reverse] at hdrop

theorem dropTail_cons (p : Char → Bool) (c : Char) (cs : List Char) :
    dropTail p (c :: cs) = if dropTail p cs = [] ∧ p c then [] else c :: dropTail p cs := by
  rw [dropTail, dropTail, List.reverse_cons, List.dropWhile_append]
  cases hcs : cs.reverse.dropWhile p with
  | nil => by_cases hc : p c = true <;> simp [hc]
  | cons d ds => simp

theorem dropTail_eq_nil {p : Char → Bool} {cs : List Char} (h : ∀ c ∈ cs, p c = true) : dropTail p cs = [] := by
  induction cs with
  | nil => rfl
  | cons c cs ih =>
    rw [dropTail_cons, if_pos]
    exact ⟨ih fun d hd => h d (List.mem_cons_of_mem c hd), h c List.mem_cons_self⟩

/-- Everything is kept if there is nothing of the class at the end. -/
theorem dropTail_append_of_ne_nil {p : Char → Bool} (cs : List Char) {ds : List Char} (h : dropTail p ds ≠ []) :
    dropTail p (cs ++ ds) = cs ++ dropTail p ds := by
  induction cs with
  | nil => rfl
  | cons c cs ih =>
    rw [List.cons_append, dropTail_cons, ih, if_neg]
    · rfl
    · simp [h]

theorem dropTail_eq_self {p : Char → Bool} {cs : List Char} (h : ∀ c ∈ cs, p c = false) : dropTail p cs = cs := by
  rcases List.eq_nil_or_concat cs with rfl | ⟨init, last, rfl⟩
  · rfl
  · rw [List.concat_eq_append] at h ⊢
    exact dropTail_append_of_neg init (h last (by simp))

end Compositor.Text
