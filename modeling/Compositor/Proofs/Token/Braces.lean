import Compositor.Engine.Arguments

/-!
# Braces

`levelAfter` counts the groups which are open after a list of tokens. A list is balanced if it leaves as many groups
open as there were before it, and closes none of those. A list in braces is a single group if what is between the braces
is balanced; `stripBraces_eq` says that the braces of just these lists are dropped.
-/

namespace Compositor

/-- The number of groups which are open after some tokens, with `level` of them open before. There is none if a right
brace closes a group too many. -/
def levelAfter (level : Nat) (ts : List Token) : Option Nat := ts.foldlM Token.nest level

/-- Every group which is opened is closed, and no other one. -/
def Balanced (ts : List Token) : Prop := levelAfter 0 ts = some 0

instance (ts : List Token) : Decidable (Balanced ts) := inferInstanceAs (Decidable (_ = _))

/-- The token is neither a left nor a right brace. -/
def Token.IsNoBrace (t : Token) : Prop := t.cat ≠ .leftBrace ∧ t.cat ≠ .rightBrace

instance (t : Token) : Decidable t.IsNoBrace := inferInstanceAs (Decidable (_ ∧ _))

/-- A token which can be matched in a parameter text. -/
def Token.IsPlain (t : Token) : Prop := t.IsNoBrace ∧ t.cat ≠ .parameter

instance (t : Token) : Decidable t.IsPlain := inferInstanceAs (Decidable (_ ∧ _))

namespace Token

variable {t : Token} {level : Nat}

theorem nest_leftBrace (ht : t.cat = .leftBrace) : nest level t = some (level + 1) := by
  simp only [nest, ht]

theorem nest_rightBrace_zero (ht : t.cat = .rightBrace) : nest 0 t = Option.none := by
  simp only [nest, ht]

theorem nest_rightBrace_succ (ht : t.cat = .rightBrace) : nest (level + 1) t = some level := by
  simp only [nest, ht]

theorem nest_noBrace (ht : t.IsNoBrace) : nest level t = some level := by
  obtain ⟨hleft, hright⟩ := ht
  unfold nest
  split <;> simp_all

/-- A token opens a group, closes one or does neither. -/
theorem brace_cases (t : Token) : t.cat = .leftBrace ∨ t.cat = .rightBrace ∨ t.IsNoBrace := by
  by_cases hleft : t.cat = .leftBrace
  · exact .inl hleft
  · by_cases hright : t.cat = .rightBrace
    · exact .inr (.inl hright)
    · exact .inr (.inr ⟨hleft, hright⟩)

/-- A group too many is closed by a right brace outside of all groups. -/
theorem nest_eq_none (h : nest level t = Option.none) : t.cat = .rightBrace ∧ level = 0 := by
  rcases t.brace_cases with ht | ht | ht
  · cases (nest_leftBrace ht).symm.trans h
  · cases level with
    | zero => exact ⟨ht, rfl⟩
    | succ level => cases (nest_rightBrace_succ ht).symm.trans h
  · cases (nest_noBrace ht).symm.trans h

/-- Outer groups do not matter to a token which closes none of them. -/
theorem nest_succ {level' : Nat} (h : nest level t = some level') : nest (level + 1) t = some (level' + 1) := by
  rcases t.brace_cases with ht | ht | ht
  · rw [nest_leftBrace ht] at h ⊢
    rw [Option.some.inj h]
  · cases level with
    | zero =>
      rw [nest_rightBrace_zero ht] at h
      cases h
    | succ level =>
      rw [nest_rightBrace_succ ht] at h ⊢
      rw [Option.some.inj h]
  · rw [nest_noBrace ht] at h ⊢
    rw [Option.some.inj h]

end Token

section Levels

variable {t : Token} {ts us : List Token} {level level' : Nat}

theorem levelAfter_cons : levelAfter level (t :: ts) = (t.nest level).bind (levelAfter · ts) := by
  simp [levelAfter]

theorem levelAfter_append : levelAfter level (ts ++ us) = (levelAfter level ts).bind (levelAfter · us) := by
  simp [levelAfter]

theorem levelAfter_singleton : levelAfter level [t] = t.nest level := by
  simp [levelAfter]

theorem levelAfter_noBraces (h : ∀ t ∈ ts, t.IsNoBrace) : levelAfter level ts = some level := by
  induction ts with
  | nil => rfl
  | cons t ts ih =>
    rw [levelAfter_cons, Token.nest_noBrace (h t (by simp))]
    exact ih fun u hu => h u (by simp [hu])

theorem levelAfter_map {f : Token → Token} (hf : ∀ t, (f t).cat = t.cat) (level : Nat) (ts : List Token) :
    levelAfter level (ts.map f) = levelAfter level ts := by
  have hnest : ∀ level t, (f t).nest level = t.nest level := fun level t => by simp only [Token.nest, hf t]
  induction ts generalizing level with
  | nil => rfl
  | cons t ts ih => rw [List.map_cons, levelAfter_cons, levelAfter_cons, hnest, funext ih]

theorem levelAfter_succ (h : levelAfter level ts = some level') : levelAfter (level + 1) ts = some (level' + 1) := by
  induction ts generalizing level with
  | nil =>
    obtain rfl : level = level' := Option.some.inj h
    rfl
  | cons t ts ih =>
    rw [levelAfter_cons, Option.bind_eq_some_iff] at h
    obtain ⟨mid, ht, hts⟩ := h
    rw [levelAfter_cons, Token.nest_succ ht]
    exact ih hts

end Levels

/-! ## Single groups -/

/-- The list consists of braces around balanced tokens. -/
def IsGroup (ts inner : List Token) : Prop :=
  ∃ left right : Token, left.cat = .leftBrace ∧ right.cat = .rightBrace ∧ Balanced inner ∧
    ts = left :: (inner ++ [right])

/-- A list and what is left of it when one pair of braces around it is dropped: nothing changes unless the whole list is
a group. -/
def Unbraced (ts inner : List Token) : Prop :=
  IsGroup ts inner ∨ (∀ us, ¬ IsGroup ts us) ∧ inner = ts

theorem IsGroup.balanced {ts inner : List Token} (h : IsGroup ts inner) : Balanced ts := by
  obtain ⟨left, right, hleft, hright, hinner, rfl⟩ := h
  rw [Balanced, levelAfter_cons, Token.nest_leftBrace hleft, Option.bind_some, levelAfter_append,
    levelAfter_succ hinner, Option.bind_some, levelAfter_singleton, Token.nest_rightBrace_succ hright]

theorem exists_unbraced (ts : List Token) : ∃ inner, Unbraced ts inner := by
  by_cases h : ∃ inner, IsGroup ts inner
  · obtain ⟨inner, h⟩ := h
    exact ⟨inner, .inl h⟩
  · exact ⟨ts, .inr ⟨fun inner hinner => h ⟨inner, hinner⟩, rfl⟩⟩

/-- No group is closed before the last token: the tokens before it close no group which is open in front of them. -/
theorem closesOnlyAtEnd_eq (level : Nat) (ts : List Token) (last : Token) :
    closesOnlyAtEnd (level + 1) (ts ++ [last]) = (levelAfter level ts).isSome := by
  induction ts generalizing level with
  | nil => rfl
  | cons t ts ih =>
    obtain ⟨u, us, hus⟩ : ∃ u us, ts ++ [last] = u :: us := List.exists_cons_of_ne_nil (by simp)
    rw [List.cons_append, hus, closesOnlyAtEnd, ← hus, levelAfter_cons]
    · rcases t.brace_cases with ht | ht | ht
      · simp only [ht]
        rw [Token.nest_leftBrace ht]
        exact ih (level + 1)
      · simp only [ht]
        cases level with
        | zero =>
          rw [Token.nest_rightBrace_zero ht]
          rfl
        | succ level =>
          rw [Token.nest_rightBrace_succ ht, Option.bind_some, ← ih level]
          have heq : ((level + 1 : Nat) : Int) + 1 - 1 = level + 1 := by omega
          have hne : (level : Int) + 1 ≠ 0 := by omega
          simp only [heq, ne_eq, hne, not_false_eq_true, decide_true, Bool.true_and]
      · rw [Token.nest_noBrace ht, Option.bind_some, ← ih level]
        obtain ⟨hleft, hright⟩ := ht
        split <;> simp_all
    · simp

/-- A list in braces is found to be a single group by what is between the braces. -/
theorem isSingleGroup_eq {left right : Token} (hleft : left.cat = .leftBrace) (hright : right.cat = .rightBrace)
    (inner : List Token) : isSingleGroup (left :: (inner ++ [right])) = (levelAfter 0 inner).isSome := by
  obtain ⟨u, us, hus⟩ : ∃ u us, inner ++ [right] = u :: us := List.exists_cons_of_ne_nil (by simp)
  have hlast : (left :: u :: us).getLast? = some right := by
    rw [← hus, ← List.cons_append, List.getLast?_append]
    rfl
  have hcloses : closesOnlyAtEnd 0 (left :: u :: us) = (levelAfter 0 inner).isSome := by
    rw [closesOnlyAtEnd, hleft, ← hus]
    · exact closesOnlyAtEnd_eq 0 inner right
    · simp
  rw [hus]
  simp [isSingleGroup, hlast, hleft, hright, hcloses]

theorem exists_ends_of_isSingleGroup {ts : List Token} (h : isSingleGroup ts = true) :
    ∃ left inner right, ts = left :: (inner ++ [right]) ∧ left.cat = .leftBrace ∧ right.cat = .rightBrace := by
  unfold isSingleGroup at h
  split at h
  · rename_i left u us last hlast
    rw [List.getLast?_eq_some_iff] at hlast
    obtain ⟨init, hinit⟩ := hlast
    simp only [Bool.and_eq_true, beq_iff_eq] at h
    cases init with
    | nil => simp at hinit
    | cons first inner =>
      obtain ⟨rfl, hinit⟩ := List.cons.inj hinit
      exact ⟨left, inner, last, by rw [hinit]; rfl, h.1.1, h.1.2⟩
  · cases h

/-- **The braces around a balanced list are dropped if it is a single group, and only then.** -/
theorem stripBraces_eq {ts inner : List Token} (hbalanced : Balanced ts) (h : Unbraced ts inner) :
    stripBraces ts = inner := by
  rcases h with ⟨left, right, hleft, hright, hinner, rfl⟩ | ⟨hnone, rfl⟩
  · have hgroup : isSingleGroup (left :: (inner ++ [right])) = true := by
      rw [isSingleGroup_eq hleft hright, hinner]
      rfl
    rw [stripBraces, if_pos hgroup]
    simp
  · rw [stripBraces, if_neg]
    intro hgroup
    obtain ⟨left, inner, right, rfl, hleft, hright⟩ := exists_ends_of_isSingleGroup hgroup
    rw [isSingleGroup_eq hleft hright, Option.isSome_iff_exists] at hgroup
    obtain ⟨level, hlevel⟩ := hgroup
    rw [Balanced, levelAfter_cons, Token.nest_leftBrace hleft, Option.bind_some, levelAfter_append,
      levelAfter_succ hlevel, Option.bind_some, levelAfter_singleton, Token.nest_rightBrace_succ hright] at hbalanced
    obtain rfl : level = 0 := Option.some.inj hbalanced
    exact hnone inner ⟨left, right, hleft, hright, hlevel, rfl⟩

end Compositor
