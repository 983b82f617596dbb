import Compositor.Declaration.Builtin

/-!
# Declaration sheets

A sheet is a text with declarations, each of which needs a name and a class. How sheets are written is left to
their reader.
-/

namespace Compositor

/-- A reader of sheets: the declarations in a text, or what keeps it from being read. -/
abbrev SheetReader := String → Except String (List Declaration)

namespace Declaration

def isComplete (d : Declaration) : Bool := d.name != "" && d.className != ""

/-- The position of the first declaration which is not complete, counted from `n`. -/
def incomplete? (n : Nat) : List Declaration → Option Nat
  | [] => none
  | d :: ds => if d.isComplete then incomplete? (n + 1) ds else some n

/-- The declarations of a sheet, or the wording of the fault in it. -/
def ofSheet (read : SheetReader) (s : String) : Except String (List Declaration) :=
  match read s with
  | .error message => .error ("cannot parse primitive declarations: " ++ message)
  | .ok ds =>
    match incomplete? 1 ds with
    | some n => .error ("primitive declaration #" ++ toString n ++ " needs a name and a class")
    | none => .ok ds

theorem incomplete?_eq_none {n : Nat} {ds : List Declaration} :
    incomplete? n ds = none ↔ ∀ d ∈ ds, d.isComplete = true := by
  induction ds generalizing n with
  | nil => simp [incomplete?]
  | cons d ds ih =>
    cases hd : d.isComplete with
    | true => simp [incomplete?, hd, ih]
    | false => simp [incomplete?, hd]

theorem ofSheet_eq_ok_iff {read : SheetReader} {s : String} {ds : List Declaration} :
    ofSheet read s = .ok ds ↔ read s = .ok ds ∧ ∀ d ∈ ds, d.isComplete = true := by
  cases hread : read s with
  | error message => simp [ofSheet, hread]
  | ok found =>
    cases hfound : incomplete? 1 found with
    | some n =>
      simp only [ofSheet, hread, hfound, reduceCtorEq, Except.ok.injEq, false_iff, not_and]
      rintro rfl hall
      rw [incomplete?_eq_none.2 hall] at hfound
      cases hfound
    | none =>
      simp only [ofSheet, hread, hfound, Except.ok.injEq]
      exact ⟨by rintro rfl; exact ⟨rfl, incomplete?_eq_none.1 hfound⟩, And.left⟩

theorem ofSheet_builtin {read : SheetReader} {s : String} (h : read s = .ok builtin) :
    ofSheet read s = .ok builtin :=
  ofSheet_eq_ok_iff.2 ⟨h, by decide⟩

end Declaration

end Compositor
