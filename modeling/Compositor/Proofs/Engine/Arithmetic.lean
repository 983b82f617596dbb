import Compositor.Proofs.Engine.Multiples

/-!
# Arithmetic in registers

The commands for sums, products and quotients compute in words of 64 bits, and compare the result with a bound afterwards. As
long as the registers and the operands are in range, no word overflows: the result is that of the unbounded integers, and the
comparison finds out whether it can be stored. Otherwise the register stays as it is.

* `ArithmeticOp.exact` is an operation on the unbounded integers, `word_exact` says that the words compute the same;
* `Context.values` are the values of a slot in all groups, `Context.SameRegisters` says that scanners leave them alone;
* `arithmetic_exact` says what the commands do to the registers for integers and for dimensions.
-/

namespace Compositor

open Compositor.Measure

/-! ## Words and integers -/

namespace ArithmeticOp

variable {op : ArithmeticOp} {v n : Int64} {bound : Nat}

/-- The result of an operation on the unbounded integers. There is none of a division by zero. -/
def exact (op : ArithmeticOp) (v n : Int) : Option Int :=
  match op with
  | advance => some (v + n)
  | multiply => some (v * n)
  | divide => if n = 0 then none else some (v.tdiv n)

/-- The result of an operation on words, before it is compared with a bound. -/
def word (op : ArithmeticOp) (v n : Int64) : Option Int64 :=
  match op with
  | advance => some (v + n)
  | multiply => some (v * n)
  | divide => if n = 0 then none else some (v / n)

theorem apply_eq_filter (op : ArithmeticOp) (bound v n : Int64) :
    op.apply bound v n = (op.word v n).filter fun r => -bound ≤ r ∧ r ≤ bound := rfl

/-- **No word overflows**, if the operands are integers in range. -/
theorem word_exact (op : ArithmeticOp) (hv : v.toInt.natAbs ≤ 2147483647) (hn : n.toInt.natAbs ≤ 2147483647) :
    (op.word v n).map Int64.toInt = op.exact v.toInt n.toInt := by
  cases op with
  | advance =>
    have hsum : (v + n).toInt = v.toInt + n.toInt := by
      rw [Int64.toInt_add]
      exact Int.bmod_eq_of_le (by omega) (by omega)
    exact congrArg some hsum
  | multiply =>
    have hsize : (v.toInt * n.toInt).natAbs ≤ 2147483647 * 2147483647 := by
      rw [Int.natAbs_mul]
      exact Nat.mul_le_mul hv hn
    have hproduct : (v * n).toInt = v.toInt * n.toInt := by
      rw [Int64.toInt_mul]
      exact Int.bmod_eq_of_le (by omega) (by omega)
    exact congrArg some hproduct
  | divide =>
    have hzero : n = 0 ↔ n.toInt = 0 := Int64.toInt_inj.symm
    by_cases h : n = 0
    · simp only [word, exact, if_pos h, if_pos (hzero.1 h), Option.map_none]
    · have hshrinks := Int.natAbs_tdiv_le_natAbs v.toInt n.toInt
      have hquotient : (v / n).toInt = v.toInt.tdiv n.toInt := by
        rw [Int64.toInt_div]
        exact Int.bmod_eq_of_le (by omega) (by omega)
      simp only [word, exact, if_neg h, if_neg (mt hzero.2 h), Option.map_some, hquotient]

theorem within_bound (hbound : bound ≤ 2147483647) (r : Int64) :
    (-Int64.ofNat bound ≤ r ∧ r ≤ Int64.ofNat bound) ↔ r.toInt.natAbs ≤ bound := by
  have hpositive : (Int64.ofNat bound).toInt = bound := toInt_ofNat_of_fits (Nat.lt_of_le_of_lt hbound (by decide))
  have hnegative : (-Int64.ofNat bound).toInt = -(bound : Int) := by
    rw [Int64.toInt_neg, hpositive]
    exact Int.bmod_eq_of_le (by omega) (by omega)
  rw [Int64.le_iff_toInt_le, Int64.le_iff_toInt_le, hpositive, hnegative]
  omega

/-- An operation gives the exact result if that is within the bound. -/
theorem apply_of_exact {r : Int} (hbound : bound ≤ 2147483647) (hv : v.toInt.natAbs ≤ 2147483647)
    (hn : n.toInt.natAbs ≤ 2147483647) (hexact : op.exact v.toInt n.toInt = some r) (hr : r.natAbs ≤ bound) :
    op.apply (Int64.ofNat bound) v n = some (Int64.ofInt r) := by
  obtain ⟨w, hword, rfl⟩ := Option.map_eq_some_iff.1 ((op.word_exact hv hn).trans hexact)
  rw [apply_eq_filter, hword, Int64.ofInt_toInt]
  exact Option.filter_eq_some_iff.2 ⟨rfl, decide_eq_true ((within_bound hbound w).2 hr)⟩

theorem apply_of_excess (hbound : bound ≤ 2147483647) (hv : v.toInt.natAbs ≤ 2147483647)
    (hn : n.toInt.natAbs ≤ 2147483647) (hexcess : ∀ r, op.exact v.toInt n.toInt = some r → bound < r.natAbs) :
    op.apply (Int64.ofNat bound) v n = none := by
  rw [apply_eq_filter, Option.filter_eq_none_iff]
  intro w hword hwithin
  have hexact : op.exact v.toInt n.toInt = some w.toInt := by
    rw [← op.word_exact hv hn, hword]
    rfl
  exact Nat.not_le.2 (hexcess _ hexact) ((within_bound hbound w).1 (of_decide_eq_true hwithin))

end ArithmeticOp

/-! ## The values of a slot in all groups -/

def assigned {α : Type} (values : List α) (v : α) (globally : Bool) : List α :=
  if globally then values.map fun _ => v else v :: values.tail

namespace Context

variable {c c₁ c' : Context}

/-- The values of a slot in all groups, the innermost first. -/
def values (c : Context) (s : Slot) : List s.Value := c.snapshots.values s

/-- In all groups, the slots which scanners do not assign have the same values. -/
def SameRegisters (c c' : Context) : Prop := ∀ s : Slot, s.isSteady = true → c'.values s = c.values s

theorem head?_values (c : Context) (s : Slot) : (c.values s).head? = some (c.read s) := by
  rw [← c.snapshots_top]
  exact Snapshots.head?_values ..

theorem values_assign (c : Context) (s : Slot) (v : s.Value) (globally : Bool) :
    (c.assign s v globally).values s = assigned (c.values s) v globally := by
  rw [values, snapshots_assign, Snapshots.values_assign, values, assigned]

theorem values_assign_of_ne (c : Context) {s : Slot} (target : Slot) (v : target.Value) (globally : Bool) (h : s ≠ target) :
    (c.assign target v globally).values s = c.values s := by
  rw [values, snapshots_assign, Snapshots.values_assign_of_ne h, values]

theorem SameRegisters.trans (h : c.SameRegisters c₁) (h' : c₁.SameRegisters c') : c.SameRegisters c' :=
  fun s hs => (h' s hs).trans (h s hs)

theorem SameRegisters.of_snapshots (h : c'.snapshots = c.snapshots) : c.SameRegisters c' := by
  intro s _
  rw [values, h, values]

/-- An assignment to a slot leaves the slots of a class alone which it does not belong to. -/
theorem values_assign_of_class (c : Context) (p : Slot → Bool) {s : Slot} (hs : p s = false) (v : s.Value) (globally : Bool) :
    ∀ s' : Slot, p s' = true → (c.assign s v globally).values s' = c.values s' := by
  intro s' hs'
  have hne : s' ≠ s := by
    rintro rfl
    cases hs.symm.trans hs'
  exact c.values_assign_of_ne s v globally hne

theorem sameRegisters_assign (c : Context) {s : Slot} (hs : s.isSteady = false) (v : s.Value) (globally : Bool) :
    c.SameRegisters (c.assign s v globally) := c.values_assign_of_class Slot.isSteady hs v globally

end Context

section Scanning

variable {strict : Prop} {l : Level} {o : Option Stop} {e e' : Engine}

/-- **Scanners leave all registers alone**, in every group. -/
theorem Course.sameRegisters (h : Course strict l o e e') (hl : l = .scanning) : e.context.SameRegisters e'.context :=
  h.keeps_context hl
    { refl := fun _ => .of_snapshots rfl
      trans := .trans
      relax := fun c t _ _ => c.sameRegisters_assign (s := .key (.meaning t)) rfl _ false
      mode := fun c mode => c.sameRegisters_assign (s := .interaction) rfl mode true
      lock := fun _ _ => .of_snapshots rfl
      conditionals := fun _ _ => .of_snapshots rfl }

end Scanning

/-! ## Registers for words -/

/-- The kinds of registers which hold a word: integers and dimensions. -/
inductive WordKind where
  | count
  | dimen
deriving DecidableEq

namespace WordKind

def register : WordKind → RegisterKind
  | count => .count
  | dimen => .dimen

/-- The greatest absolute value in a register. -/
def bound : WordKind → Nat
  | count => 2147483647
  | dimen => 1073741823

def slot (k : WordKind) (name : String) : Slot :=
  match k with
  | count => .key (.count name)
  | dimen => .key (.dimen name)

/-- The values of a register in all groups, the innermost first. -/
def values (k : WordKind) (c : Context) (name : String) : List Int64 :=
  match k with
  | count => c.values (.key (.count name))
  | dimen => c.values (.key (.dimen name))

def value (k : WordKind) (c : Context) (name : String) : Int64 :=
  match k with
  | count => c.count name
  | dimen => c.dimen name

/-- A register gets a value. -/
def store (k : WordKind) (c : Context) (name : String) (v : Int64) (globally : Bool) : Context :=
  match k with
  | count => c.setCount name v globally
  | dimen => c.set (.dimen name) v globally

/-- The kind of the operand: a dimension is added to a dimension, all other operands are integers. -/
def operandKind : WordKind → ArithmeticOp → WordKind
  | dimen, .advance => dimen
  | _, _ => count

def scan (k : WordKind) (m : Machine) : Proc Int64 Int64 :=
  match k with
  | count => m.number
  | dimen => dimension m

theorem bound_le (k : WordKind) : k.bound ≤ 2147483647 := by cases k <;> decide

theorem steady (k : WordKind) (name : String) : (k.slot name).isSteady = true := by cases k <;> rfl

theorem slot_injective {k k' : WordKind} {name name' : String} (h : k.slot name = k'.slot name') : k = k' ∧ name = name' := by
  cases k <;> cases k' <;> cases h <;> exact ⟨rfl, rfl⟩

theorem head_values (k : WordKind) (c : Context) (name : String) : (k.values c name).head? = some (k.value c name) := by
  cases k <;> exact c.head?_values _

theorem values_store_self (k : WordKind) (c : Context) (name : String) (v : Int64) (globally : Bool) :
    k.values (k.store c name v globally) name = assigned (k.values c name) v globally := by
  cases k with
  | count => exact c.values_assign (.key (.count name)) v globally
  | dimen => exact c.values_assign (.key (.dimen name)) v globally

theorem values_store_of_ne (k : WordKind) (c : Context) (name : String) (v : Int64) (globally : Bool) {s : Slot}
    (h : s ≠ k.slot name) : (k.store c name v globally).values s = c.values s := by
  cases k with
  | count => exact c.values_assign_of_ne (.key (.count name)) v globally h
  | dimen => exact c.values_assign_of_ne (.key (.dimen name)) v globally h

theorem values_congr {c c' : Context} {k : WordKind} {name : String} (h : c'.values (k.slot name) = c.values (k.slot name)) :
    k.values c' name = k.values c name := by
  cases k <;> exact h

theorem value_congr {c c' : Context} {k : WordKind} {name : String} (h : k.values c' name = k.values c name) :
    k.value c' name = k.value c name :=
  Option.some.inj (by rw [← head_values, ← head_values, h])

theorem value_assigned {c c' : Context} {k : WordKind} {name : String} {v : Int64} {globally : Bool}
    (h : k.values c' name = assigned (k.values c name) v globally) : k.value c' name = v := by
  have hnonempty := k.head_values c name
  have hhead := k.head_values c' name
  rw [h] at hhead
  cases hvalues : k.values c name with
  | nil => cases hvalues ▸ hnonempty
  | cons w ws =>
    rw [hvalues] at hhead
    cases globally <;> exact (Option.some.inj hhead).symm

end WordKind

section Range

variable {c c' : Context}

def Context.WordsInRange (c : Context) : Prop := ∀ (k : WordKind) (name : String), (k.value c name).toInt.natAbs ≤ k.bound

theorem Context.SameRegisters.wordsInRange (h : c.SameRegisters c') (hc : c.WordsInRange) : c'.WordsInRange := by
  intro k name
  rw [WordKind.value_congr (WordKind.values_congr (h _ (k.steady name)))]
  exact hc k name

/-- Registers stay in range if one of them gets a value in range. -/
theorem Context.WordsInRange.store (hc : c.WordsInRange) (k : WordKind) (name : String) {v : Int64}
    (hv : v.toInt.natAbs ≤ k.bound) (globally : Bool) : (k.store c name v globally).WordsInRange := by
  intro k' name'
  by_cases hslot : k'.slot name' = k.slot name
  · obtain ⟨rfl, rfl⟩ := WordKind.slot_injective hslot
    rw [WordKind.value_assigned (k'.values_store_self c name' v globally)]
    exact hv
  · rw [WordKind.value_congr (WordKind.values_congr (k.values_store_of_ne c name v globally hslot))]
    exact hc k' name'

end Range

/-! ## What a command scans -/

section Operands

variable {m : Machine} {op : ArithmeticOp} {k : WordKind} {name : String} {operand : Int64} {e e' : Engine}

/-- A command scans a register, and an operand for it. The register is any one which a token stands for: a fixed one, or one
whose number follows. -/
inductive Operands (m : Machine) (op : ArithmeticOp) (k : WordKind) (name : String) (operand : Int64) (e e' : Engine) :
    Prop where
  | scanned {t : Token} {fixed : Option String} {e₁ e₂ e₃ : Engine} {found : Bool} (hregister : nonBlank m e = .ok (some t) e₁)
      (hnames : e₁.context.NamesRegister t k.register fixed) (hlocate : locate m fixed e₁ = .ok name e₂)
      (hkeyword : keyword m "by" e₂ = .ok found e₃) (hoperand : (k.operandKind op).scan m e₃ = .ok operand e')

/-- A scanner which comes to its end leaves all registers alone. -/
theorem Meets.sameRegisters {α β : Type} {p : Proc β α} {Q : α → Prop} {a : α} (hp : Meets Regime.reading.loose p Q)
    (h : p e = .ok a e') : e.context.SameRegisters e'.context :=
  ((hp e False.elim).ok h).1.sameRegisters rfl

/-- No register changes while one of them and the keyword in front of an operand are scanned. -/
theorem sameRegisters_keyword (hm : m.Sound) {t? : Option Token} {fixed : Option String} {e₁ e₂ e₃ : Engine} {found : Bool}
    (hregister : nonBlank m e = .ok t? e₁) (hlocate : locate m fixed e₁ = .ok name e₂)
    (hkeyword : keyword m "by" e₂ = .ok found e₃) : e.context.SameRegisters e₃.context :=
  (((meets_nonBlank hm).sameRegisters hregister).trans ((meets_locate hm fixed).sameRegisters hlocate)).trans
    ((meets_keyword hm "by").sameRegisters hkeyword)

/-- A command does not care whether the keyword is there. -/
theorem discard_keyword {e₃ : Engine} {found : Bool} (h : keyword m "by" e = .ok found e₃) :
    (discard (keyword m "by" : Action Bool) : Action PUnit) e = .ok ⟨⟩ e₃ := by
  have hlift : (monadLift (keyword m "by") : Action Bool) e = .ok found e₃ := Proc.lift_ok h
  exact Proc.bind_ok hlift

theorem Operands.sameRegisters (hm : m.Sound) (h : Operands m op k name operand e e') : e.context.SameRegisters e'.context := by
  cases h with
  | @scanned t fixed e₁ e₂ e₃ found hregister hnames hlocate hkeyword hoperand =>
    have hscan : Meets Regime.reading.loose ((k.operandKind op).scan m) fun _ => True := by
      cases k.operandKind op with
      | count => exact hm.number
      | dimen => exact meets_dimension hm
    exact (sameRegisters_keyword hm hregister hlocate hkeyword).trans (hscan.sameRegisters hoperand)

theorem dimenResult_eq (h : (WordKind.dimen.operandKind op).scan m e = .ok operand e') (d : Dimen) :
    dimenResult m op d e = .ok (op.apply maxDimen d operand) e' := by
  cases op <;> exact Proc.bind_ok (Proc.lift_ok h)

/-- **What a command does with its operands**: it stores the result of the operation, or it stops. -/
theorem Operands.arithmetic_eq (hm : m.Sound) (h : Operands m op k name operand e e') (command : String) (globally : Bool) :
    ∃ d : Diagnostic, d.kind = .arithmeticOverflow ∧
      arithmetic m op command globally e =
        match op.apply (Int64.ofNat k.bound) (k.value e.context name) operand with
        | some v => .ok () (e'.modifyContext (k.store · name v globally))
        | none => .error ⟨.diagnostic d, ()⟩ (e'.record (.stopped d)) := by
  cases h with
  | @scanned t fixed e₁ e₂ e₃ found hregister hnames hlocate hkeyword hoperand =>
    have hsame : e.context.SameRegisters e₃.context := sameRegisters_keyword hm hregister hlocate hkeyword
    have hvalue : k.value e₃.context name = k.value e.context name :=
      WordKind.value_congr (WordKind.values_congr (hsame _ (k.steady name)))
    refine ⟨{ kind := .arithmeticOverflow, place := e₃.locator, arguments := [] }, rfl, ?_⟩
    have hmeaning : registerOf? (e₁.context.meaning? t) = some (k.register, fixed) := hnames
    refine (Proc.bind_ok (Proc.lift_ok hregister)).trans ?_
    simp only [meaningOf_bind, hmeaning]
    refine (Proc.bind_ok (Proc.lift_ok hlocate)).trans ((Proc.bind_ok (discard_keyword hkeyword)).trans ?_)
    cases k with
    | count =>
      have hscan : (monadLift m.number : Action Int64) e₃ = .ok operand e' := Proc.lift_ok hoperand
      refine (Proc.bind_ok hscan).trans ?_
      rw [← hvalue, show Int64.ofNat WordKind.count.bound = maxInteger from rfl, WordKind.value]
      cases op.apply maxInteger (e₃.context.count name) operand <;> rfl
    | dimen =>
      refine (Proc.bind_ok (dimenResult_eq hoperand _)).trans ?_
      rw [← hvalue, show Int64.ofNat WordKind.dimen.bound = maxDimen from rfl, WordKind.value]
      cases op.apply maxDimen (e₃.context.dimen name) operand <;> rfl

end Operands

/-! ## The main statement -/

/-- **Arithmetic is exact or has no effect.** In a state in which all registers for integers and dimensions are in range, a
command has scanned one of them and an operand in range. The words do not overflow. If the result of the operation on the
unbounded integers exists and is in range, the register has this value afterwards, in the innermost group or in all of them,
and everything is still in range. If there is no result or it is out of range, the command stops with an error. No other
register changes, and in the second case none does, whatever group it belongs to. -/
theorem arithmetic_exact (n : Nat) (op : ArithmeticOp) (command : String) (modifiers : Modifiers) (e e' : Engine) (k : WordKind)
    (name : String) (operand : Int64) (hrange : e.context.WordsInRange) (hscan : Operands (machine n) op k name operand e e')
    (hoperand : operand.toInt.natAbs ≤ (k.operandKind op).bound) :
    (op.word (k.value e.context name) operand).map Int64.toInt = op.exact (k.value e.context name).toInt operand.toInt ∧
      (∀ r, op.exact (k.value e.context name).toInt operand.toInt = some r → r.natAbs ≤ k.bound →
        ∃ e'', Command.execute (machine n) command modifiers (.arithmetic op) e = .ok () e'' ∧
          (k.value e''.context name).toInt = r ∧
          k.values e''.context name = assigned (k.values e.context name) (Int64.ofInt r) modifiers.isGlobal ∧
          (∀ s : Slot, s.isSteady = true → s ≠ k.slot name → e''.context.values s = e.context.values s) ∧
          e''.context.WordsInRange) ∧
      ((∀ r, op.exact (k.value e.context name).toInt operand.toInt = some r → k.bound < r.natAbs) →
        ∃ d e'', d.kind = .arithmeticOverflow ∧
          Command.execute (machine n) command modifiers (.arithmetic op) e = .error ⟨.diagnostic d, ()⟩ e'' ∧
          ∀ s : Slot, s.isSteady = true → e''.context.values s = e.context.values s) := by
  have hsame := hscan.sameRegisters (machine_sound n)
  have hvalue : (k.value e.context name).toInt.natAbs ≤ 2147483647 := (hrange k name).trans k.bound_le
  have hword : operand.toInt.natAbs ≤ 2147483647 := hoperand.trans (k.operandKind op).bound_le
  obtain ⟨d, hkind, heq⟩ := hscan.arithmetic_eq (machine_sound n) command modifiers.isGlobal
  refine ⟨op.word_exact hvalue hword, fun r hexact hr => ?stored, fun hexcess => ?stopped⟩
  case stored =>
    rw [ArithmeticOp.apply_of_exact k.bound_le hvalue hword hexact hr] at heq
    have hint : (Int64.ofInt r).toInt = r := by
      have hbound := k.bound_le
      exact Int64.toInt_ofInt_of_le (by omega) (by omega)
    have hself : k.values (k.store e'.context name (Int64.ofInt r) modifiers.isGlobal) name =
        assigned (k.values e.context name) (Int64.ofInt r) modifiers.isGlobal := by
      rw [k.values_store_self, WordKind.values_congr (hsame _ (k.steady name))]
    refine ⟨_, heq, (congrArg Int64.toInt (WordKind.value_assigned hself)).trans hint, hself, fun s hs hne => ?_, ?_⟩
    · exact (k.values_store_of_ne _ _ _ _ hne).trans (hsame s hs)
    · exact (hsame.wordsInRange hrange).store k name (by rwa [hint]) modifiers.isGlobal
  case stopped =>
    rw [ArithmeticOp.apply_of_excess k.bound_le hvalue hword hexcess] at heq
    exact ⟨d, _, hkind, heq, hsame⟩

theorem Engine.wordsInRange_holding {d : Dimen} (hd : d.InRange) : (Engine.holding d).context.WordsInRange := by
  have hfresh : (Engine.new default {}).context.WordsInRange := by
    intro k name
    cases k <;> exact Nat.zero_le _
  have hdefined := (Engine.new default {}).context.sameRegisters_assign (s := .key (.meaning (.controlSequence "d" ""))) rfl
    (some (.primitive 1 "d" (.command (.register .dimen (some "0"))))) true
  exact (hdefined.wordsInRange hfresh).store .dimen "0" hd.natAbs_le true

/-- What a command scans in front of a state can be computed. -/
theorem Operands.of_valueOf {m : Machine} {op : ArithmeticOp} {k : WordKind} {name : String} {operand : Int64} {e : Engine}
    (t : Token) (fixed : Option String) (found : Bool) (hregister : valueOf (nonBlank m e) = some (some t)) :
    let e₁ := finalState (nonBlank m e)
    let e₂ := finalState (locate m fixed e₁)
    let e₃ := finalState (keyword m "by" e₂)
    registerOf? (e₁.context.meaning? t) = some (k.register, fixed) → valueOf (locate m fixed e₁) = some name →
      valueOf (keyword m "by" e₂) = some found → valueOf ((k.operandKind op).scan m e₃) = some operand →
        Operands m op k name operand e (finalState ((k.operandKind op).scan m e₃)) := by
  intro e₁ e₂ e₃ hnames hlocate hkeyword hoperand
  exact .scanned (eq_ok_of_valueOf hregister) hnames (eq_ok_of_valueOf hlocate) (eq_ok_of_valueOf hkeyword)
    (eq_ok_of_valueOf hoperand)

/-- A length is divided by a negative integer, and the quotient is truncated. A product is too large, and the length stays. -/
theorem arithmetic_exact_quotient :
    let e := Engine.holding 65537
    (∃ e', Command.execute (machine 12) "divide" .none (.arithmetic .divide) (e.pushText "\\d by -3 " "") = .ok () e' ∧
        (e'.context.dimen "0").toInt = -21845) ∧
      ∃ d e', d.kind = .arithmeticOverflow ∧
        Command.execute (machine 12) "multiply" .none (.arithmetic .multiply) (e.pushText "\\d 30000 " "") =
          .error ⟨.diagnostic d, ()⟩ e' ∧
        e'.context.values (.key (.dimen "0")) = e.context.values (.key (.dimen "0")) := by
  intro e
  have hsame : ∀ text, (e.pushText text "").context = e.context := fun text => e.pushText_context text ""
  have hrange : ∀ text, (e.pushText text "").context.WordsInRange := by
    intro text
    rw [hsame]
    exact Engine.wordsInRange_holding (by decide)
  have hvalue : ∀ text, WordKind.dimen.value (e.pushText text "").context "0" = 65537 := by
    intro text
    rw [hsame]
    decide +kernel
  have hquotient : Operands (machine 12) .divide .dimen "0" (-3) (e.pushText "\\d by -3 " "") _ :=
    .of_valueOf (.controlSequence "d" "") (some "0") true (by decide +kernel) (by decide +kernel) (by decide +kernel)
      (by decide +kernel) (by decide +kernel)
  have hproduct : Operands (machine 12) .multiply .dimen "0" 30000 (e.pushText "\\d 30000 " "") _ :=
    .of_valueOf (.controlSequence "d" "") (some "0") false (by decide +kernel) (by decide +kernel) (by decide +kernel)
      (by decide +kernel) (by decide +kernel)
  constructor
  · obtain ⟨-, hstored, -⟩ := arithmetic_exact 12 .divide "divide" .none _ _ .dimen "0" (-3) (hrange _) hquotient (by decide)
    obtain ⟨e', hexecute, hresult, -⟩ := hstored (-21845) (by rw [hvalue]; decide) (by decide)
    exact ⟨e', hexecute, hresult⟩
  · obtain ⟨-, -, hstopped⟩ :=
      arithmetic_exact 12 .multiply "multiply" .none _ _ .dimen "0" 30000 (hrange _) hproduct (by decide)
    obtain ⟨d, e', hkind, hexecute, hkept⟩ := hstopped (by rw [hvalue]; decide)
    exact ⟨d, e', hkind, hexecute, (hkept (.key (.dimen "0")) rfl).trans (by rw [hsame])⟩

end Compositor
