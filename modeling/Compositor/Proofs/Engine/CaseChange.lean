import Compositor.Engine.Register
import Compositor.Proofs.Token.Braces
import Mathlib.Data.List.Forall2

/-!
# What a change of case leaves alone

A change of case looks up each character in a table, and puts the character which it finds there in its place. Control
sequences are no characters, and a zero in the table says that there is nothing to be changed.

* `Context.Recases` says what becomes of a single token. An active character which is found in the table belongs to the
  default name space from then on, even if it is found in its own place;
* `case_change_exact` is the statement about lists: they keep their length and their braces.
-/

namespace Compositor

theorem charOfWord_eq {code : Int64} {d : Char} (h : code.toInt = d.toNat) : charOfWord code = d := by
  have hrange : d.toNat < 0x110000 := by
    rcases d.valid with hlow | ⟨-, hhigh⟩
    · exact Nat.lt_of_lt_of_le hlow (by decide)
    · exact hhigh
  have hint : code.toInt32.toInt = d.toNat := by
    rw [Int64.toInt_toInt32, h, Int.bmod_eq_of_le (by omega) (by omega)]
  have hsign : ¬ code.toInt32 < 0 := by
    rw [Int32.lt_iff_toInt_lt, hint]
    exact Int.not_lt.2 (Int.natCast_nonneg _)
  have hvalid : d.toNat.isValidChar := d.valid
  rw [charOfWord, if_neg hsign, hint, Int.toNat_natCast, charOfCode, dif_pos hvalid]
  rfl

/-- What the change of case by a table makes of a token. -/
structure Context.Recases (c : Context) (table : CodeTable) (t t' : Token) : Prop where
  controlSequence : t.isControlSequence = true → t' = t
  cat : t'.cat = t.cat
  zero : c.charcode table t.char.toNat = 0 → t' = t
  /-- The character which the table has for the one of the token takes its place. -/
  entry : t.isControlSequence = false → ∀ d : Char, d.toNat ≠ 0 →
    (c.charcode table t.char.toNat).toInt = d.toNat → t'.name = d.toString
  /-- The name space is kept by those tokens only which are not found in the table. -/
  space : t'.space = t.space ↔
    t.isControlSequence = true ∨ c.charcode table t.char.toNat = 0 ∨ t.space = ""
  /-- A character which is found in its own place is the same again in the default name space. -/
  own : t.isControlSequence = false → t.name = t.char.toString →
    (c.charcode table t.char.toNat).toInt = t.char.toNat →
    t' = if t.char.toNat = 0 then t else { t with space := "" }

variable (c : Context) (table : CodeTable)

/-- The change of case for a single token. -/
def recase (t : Token) : Token :=
  if t.isControlSequence then t
  else if c.charcode table t.char.toNat = 0 then t
  else .character t.cat (charOfWord (c.charcode table t.char.toNat))

theorem changeCase_eq (ts : List Token) : changeCase c table ts = ts.map (recase c table) := rfl

/-- A token which is found in the table, with the character which is found there. -/
theorem recase_of_found {t : Token} (ht : t.isControlSequence = false) (hcode : c.charcode table t.char.toNat ≠ 0) :
    recase c table t = ⟨t.cat, (charOfWord (c.charcode table t.char.toNat)).toString, ""⟩ := by
  have hcat : t.cat ≠ .escape := by simpa [Token.isControlSequence] using ht
  simp [recase, ht, hcode, Token.character, hcat]

/-- A token keeps its name space only if it is not looked up, or if nothing is found, or if it has none to lose. -/
theorem recases_self {t : Token} (h : t.isControlSequence = true ∨ c.charcode table t.char.toNat = 0) :
    c.Recases table t t where
  controlSequence _ := rfl
  cat := rfl
  zero _ := rfl
  entry ht d hd hcode := by
    rcases h with h | h
    · simp [ht] at h
    · rw [h] at hcode
      exact absurd (by simpa using hcode.symm) hd
  space := by simpa [← or_assoc] using .inl h
  own ht hname hcode := by
    rcases h with h | h
    · simp [ht] at h
    · rw [h] at hcode
      exact (if_pos (by simpa using hcode.symm)).symm

theorem recases_recase (t : Token) : c.Recases table t (recase c table t) := by
  by_cases hkept : t.isControlSequence = true ∨ c.charcode table t.char.toNat = 0
  · have hsame : recase c table t = t := by
      rcases hkept with h | h <;> simp only [recase, h, if_true, ite_self]
    rw [hsame]
    exact recases_self c table hkept
  · obtain ⟨ht, hcode⟩ := not_or.1 hkept
    have ht' : t.isControlSequence = false := by simpa using ht
    rw [recase_of_found c table ht' hcode]
    refine ⟨fun h => absurd h ht, rfl, fun h => absurd h hcode, fun _ d _ hd => ?_, ?_, fun _ hname hown => ?_⟩
    · rw [charOfWord_eq hd]
    · exact ⟨fun h => .inr (.inr h.symm), fun h => ((h.resolve_left ht).resolve_left hcode).symm⟩
    · have hne : t.char.toNat ≠ 0 := fun h => hcode (Int64.toInt_inj.1 (by simpa [h] using hown))
      rw [if_neg hne, charOfWord_eq hown, ← hname]

/-- **A change of case** touches single tokens only: a control sequence stays, and so does every category. The list
keeps its length and its braces. Every character is replaced by the one which the table has for it, if it has one. It
loses its name space then, also if it is found in its own place. -/
theorem case_change_exact (ts : List Token) :
    (changeCase c table ts).length = ts.length ∧
      (∀ level, levelAfter level (changeCase c table ts) = levelAfter level ts) ∧
      List.Forall₂ (c.Recases table) ts (changeCase c table ts) := by
  rw [changeCase_eq]
  refine ⟨List.length_map _, fun level => ?_, ?_⟩
  · exact levelAfter_map (fun t => (recases_recase c table t).cat) level ts
  · exact List.forall₂_map_right_iff.2 (List.forall₂_same.2 fun t _ => recases_recase c table t)

/-- An active character of a name space which is found in its own place does not stay the same. -/
theorem active_character_loses_space :
    ∃ c : Context, (c.charcode .lower 126).toInt = ('~' : Char).toNat ∧
      changeCase c .lower [Token.activeChar '~' "n"] = [Token.activeChar '~' ""] ∧
      changeCase c .lower [Token.activeChar '~' "n"] ≠ [Token.activeChar '~' "n"] :=
  ⟨({} : Context).set (.charcode .lower 126) 126 false, by decide +kernel, by decide +kernel, by decide +kernel⟩

end Compositor
