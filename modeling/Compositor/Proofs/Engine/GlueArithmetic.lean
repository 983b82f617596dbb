import Compositor.Proofs.Engine.Arithmetic

/-!
# Arithmetic with glue

Sums, products and quotients of glue are computed one component at a time, in words of 64 bits. Only the natural length is
compared with the greatest dimension afterwards. So this length is exact or the command has no effect, but stretch and shrink
are not looked at: they can leave the range of dimensions, and from there they wrap around.

* `ExactGlue` is glue of unbounded integers, `ExactGlue.wrapped` what words keep of it;
* `GlueChange.exact` is a change on unbounded integers, `word_exact` says how the words differ from it;
* `GlueHistory` is a sequence of changes of one register, `GlueHistory.replayed` says what they leave in it;
* `glue_arithmetic` says what a command does, and what any number of products comes to.
-/

namespace Compositor

open Compositor.Measure

/-! ## Exact glue -/

/-- Stretch or shrink of any size. -/
structure ExactFlex where
  value : Int
  order : Order

namespace ExactFlex

def add (a b : ExactFlex) : ExactFlex :=
  if a.order = b.order then ⟨a.value + b.value, a.order⟩
  else if b.value ≠ 0 ∧ (b.order.rank > a.order.rank ∨ a.value = 0) then b
  else a

def mapValue (f : Int → Int) (a : ExactFlex) : ExactFlex := ⟨f a.value, a.order⟩

end ExactFlex

/-- Glue of any size. -/
structure ExactGlue where
  natural : Int
  stretch : ExactFlex
  shrink : ExactFlex

namespace ExactGlue

def add (a b : ExactGlue) : ExactGlue := ⟨a.natural + b.natural, a.stretch.add b.stretch, a.shrink.add b.shrink⟩

def mapValues (f : Int → Int) (g : ExactGlue) : ExactGlue := ⟨f g.natural, g.stretch.mapValue f, g.shrink.mapValue f⟩

/-- What words of 64 bits keep of a glue: the orders, and the values up to a multiple of 2^64. -/
def wrapped (g : ExactGlue) : ExactGlue := g.mapValues (Int.bmod · (2 ^ 64))

def InRange (g : ExactGlue) : Prop :=
  g.natural.natAbs ≤ 1073741823 ∧ g.stretch.value.natAbs ≤ 1073741823 ∧ g.shrink.value.natAbs ≤ 1073741823

instance (g : ExactGlue) : Decidable g.InRange := inferInstanceAs (Decidable (_ ∧ _ ∧ _))

theorem mapValues_mapValues (f h : Int → Int) (g : ExactGlue) : (g.mapValues h).mapValues f = g.mapValues (f ∘ h) := rfl

/-- Nothing wraps around in a glue whose components are dimensions. -/
theorem InRange.wrapped_eq {g : ExactGlue} (h : g.InRange) : g.wrapped = g := by
  obtain ⟨hnatural, hstretch, hshrink⟩ := h
  have hkept : ∀ v : Int, v.natAbs ≤ 1073741823 → v.bmod (2 ^ 64) = v := fun v hv => Int.bmod_eq_of_le (by omega) (by omega)
  simp only [wrapped, mapValues, ExactFlex.mapValue, hkept _ hnatural, hkept _ hstretch, hkept _ hshrink]

theorem wrapped_product (g : ExactGlue) (n : Int) :
    (g.wrapped.mapValues (· * n)).wrapped = (g.mapValues (· * n)).wrapped := by
  have hvalue : (fun v : Int => (v.bmod (2 ^ 64) * n).bmod (2 ^ 64)) = fun v : Int => (v * n).bmod (2 ^ 64) :=
    funext fun v => Int.bmod_mul_bmod
  simp only [wrapped, mapValues_mapValues, Function.comp_def, hvalue]

end ExactGlue

/-- A component without the bound of its word. -/
def Measure.Flex.exact (f : Flex) : ExactFlex := ⟨f.value.toInt, f.order⟩

/-- A glue without the bounds of its words. -/
def Measure.Glue.exact (g : Glue) : ExactGlue := ⟨g.natural.toInt, g.stretch.exact, g.shrink.exact⟩

theorem Measure.Flex.exact_wrapped (f : Flex) : f.exact.mapValue (Int.bmod · (2 ^ 64)) = f.exact :=
  congrArg (ExactFlex.mk · f.order) f.value.toInt_bmod

theorem Measure.Glue.exact_wrapped (g : Glue) : g.exact.wrapped = g.exact := by
  have hnatural : g.natural.toInt.bmod (2 ^ 64) = g.natural.toInt := g.natural.toInt_bmod
  simp only [ExactGlue.wrapped, ExactGlue.mapValues, exact, Flex.exact_wrapped, hnatural]

/-- Words give the sum of two components up to a multiple of 2^64. The rule for different orders is not touched by this. -/
theorem Measure.Flex.exact_add (a b : Flex) : (a.add b).exact = (a.exact.add b.exact).mapValue (Int.bmod · (2 ^ 64)) := by
  have hzero : ∀ v : Int64, v = 0 ↔ v.toInt = 0 := fun v => Int64.toInt_inj.symm
  have hexact : a.exact.add b.exact =
      if a.order = b.order then ⟨a.value.toInt + b.value.toInt, a.order⟩
      else if b.value ≠ 0 ∧ (b.order.rank > a.order.rank ∨ a.value = 0) then b.exact
      else a.exact := by
    simp only [ExactFlex.add, ne_eq, hzero]
    rfl
  rw [hexact]
  by_cases horder : a.order = b.order
  · rw [add, if_pos horder, if_pos horder]
    simp only [exact, ExactFlex.mapValue, Int64.toInt_add]
  · rw [add, if_neg horder, if_neg horder]
    split
    · exact b.exact_wrapped.symm
    · exact a.exact_wrapped.symm

/-! ## Changes of a glue -/

/-- What a command does to a glue. -/
inductive GlueChange where
  | sum (other : Glue)
  | product (n : Int64)
  | quotient (n : Int64)

namespace GlueChange

def op : GlueChange → ArithmeticOp
  | sum _ => .advance
  | product _ => .multiply
  | quotient _ => .divide

/-- The changed glue on unbounded integers. There is none of a division by zero. -/
def exact (change : GlueChange) (g : ExactGlue) : Option ExactGlue :=
  match change with
  | sum other => some (g.add other.exact)
  | product n => some (g.mapValues (· * n.toInt))
  | quotient n => if n.toInt = 0 then none else some (g.mapValues (Int.tdiv · n.toInt))

/-- The changed glue in words, before it is compared with a bound. -/
def word (change : GlueChange) (g : Glue) : Option Glue :=
  match change with
  | sum other => some (g.add other)
  | product n => some (g.multiply n)
  | quotient n => g.divide? n

def Scanned (m : Machine) (change : GlueChange) (e e' : Engine) : Prop :=
  match change with
  | sum other => glueSpec m e = .ok other e'
  | product n => m.number e = .ok n e'
  | quotient n => m.number e = .ok n e'

def InRange : GlueChange → Prop
  | sum other => other.natural.toInt.natAbs ≤ 1073741823
  | product n => n.toInt.natAbs ≤ 2147483647
  | quotient n => n.toInt.natAbs ≤ 2147483647

variable {change : GlueChange} {g : Glue} {r : ExactGlue}

/-- **Words give the exact glue up to multiples of 2^64.** -/
theorem word_exact (change : GlueChange) (g : Glue) :
    (change.word g).map Glue.exact = (change.exact g.exact).map ExactGlue.wrapped := by
  cases change with
  | sum other =>
    refine congrArg some ?_
    simp only [Glue.exact, Glue.add, ExactGlue.add, ExactGlue.wrapped, ExactGlue.mapValues, Flex.exact_add, Int64.toInt_add]
  | product n =>
    refine congrArg some ?_
    simp only [Glue.exact, Glue.multiply, Glue.mapValues, Flex.exact, ExactGlue.wrapped, ExactGlue.mapValues,
      ExactFlex.mapValue, Int64.toInt_mul]
  | quotient n =>
    have hzero : n = 0 ↔ n.toInt = 0 := Int64.toInt_inj.symm
    by_cases h : n = 0
    · simp only [word, exact, Glue.divide?, if_pos h, if_pos (hzero.1 h), Option.map_none]
    · simp only [word, exact, Glue.divide?, if_neg h, if_neg (mt hzero.2 h), Option.map_some, Glue.exact, Glue.mapValues,
        Flex.exact, ExactGlue.wrapped, ExactGlue.mapValues, ExactFlex.mapValue, Int64.toInt_div]

/-- The natural length does not wrap around, if it and the operand are in range. -/
theorem natural_wrapped (hnatural : g.natural.toInt.natAbs ≤ 1073741823) (hchange : change.InRange)
    (hr : change.exact g.exact = some r) : r.wrapped.natural = r.natural := by
  have hshort : r.natural.natAbs ≤ 1073741823 * 2147483647 := by
    cases change with
    | sum other =>
      cases hr
      have hother : other.natural.toInt.natAbs ≤ 1073741823 := hchange
      show (g.natural.toInt + other.natural.toInt).natAbs ≤ _
      omega
    | product n =>
      cases hr
      show (g.natural.toInt * n.toInt).natAbs ≤ _
      rw [Int.natAbs_mul]
      exact Nat.mul_le_mul hnatural hchange
    | quotient n =>
      simp only [exact, ite_eq_iff, reduceCtorEq, and_false, false_or, Option.some.injEq] at hr
      obtain ⟨-, rfl⟩ := hr
      have hshrinks := Int.natAbs_tdiv_le_natAbs g.natural.toInt n.toInt
      show (g.natural.toInt.tdiv n.toInt).natAbs ≤ _
      omega
  exact Int.bmod_eq_of_le (by omega) (by omega)

theorem inRange_bind_word (change : GlueChange) (g : Glue) :
    (change.word g).bind ArithmeticOp.inRange = (change.word g).filter fun r => r.exact.natural.natAbs ≤ 1073741823 := by
  have hbound : 1073741823 ≤ 2147483647 := by decide
  have hnatural : ∀ r : Glue, (-maxDimen ≤ r.natural ∧ r.natural ≤ maxDimen) ↔ r.exact.natural.natAbs ≤ 1073741823 :=
    fun r => ArithmeticOp.within_bound hbound r.natural
  cases change.word g with
  | none => rfl
  | some r => simp only [Option.bind_some, Option.filter_some, ArithmeticOp.inRange, hnatural, decide_eq_true_eq]

end GlueChange

/-! ## What a command scans -/

section Operands

variable {m : Machine} {change : GlueChange} {name : String} {e e' : Engine}

/-- A command scans a register for glue, and an operand for it. -/
inductive GlueOperands (m : Machine) (name : String) (change : GlueChange) (e e' : Engine) : Prop where
  | scanned {t : Token} {fixed : Option String} {e₁ e₂ e₃ : Engine} {found : Bool}
      (hregister : nonBlank m e = .ok (some t) e₁)
      (hnames : e₁.context.NamesRegister t .glue fixed) (hlocate : locate m fixed e₁ = .ok name e₂)
      (hkeyword : keyword m "by" e₂ = .ok found e₃) (hoperand : change.Scanned m e₃ e')

theorem GlueChange.Scanned.sameRegisters (hm : m.Sound) (h : change.Scanned m e e') :
    e.context.SameRegisters e'.context := by
  cases change with
  | sum other => exact (meets_glueSpec hm).sameRegisters h
  | product n => exact hm.number.sameRegisters h
  | quotient n => exact hm.number.sameRegisters h

theorem GlueChange.Scanned.glueResult_eq (h : change.Scanned m e e') (g : Glue) :
    glueResult m change.op g e = .ok ((change.word g).bind ArithmeticOp.inRange) e' := by
  cases change with
  | sum other | product n | quotient n => exact Proc.bind_ok (Proc.lift_ok h)

theorem GlueOperands.sameRegisters (hm : m.Sound) (h : GlueOperands m name change e e') :
    e.context.SameRegisters e'.context := by
  cases h with
  | scanned hregister hnames hlocate hkeyword hoperand =>
    exact (sameRegisters_keyword hm hregister hlocate hkeyword).trans (hoperand.sameRegisters hm)

theorem Context.glue_congr {c c' : Context} (h : c'.values (.key (.glue name)) = c.values (.key (.glue name))) :
    c'.glue name = c.glue name := by
  have hhead : ∀ c : Context, (c.values (.key (.glue name))).head? = some (c.glue name) := fun c => c.head?_values _
  exact Option.some.inj (by rw [← hhead, ← hhead, h])

/-- What a command does with its operands: it stores the changed glue, or it stops. -/
theorem GlueOperands.arithmetic_eq (hm : m.Sound) (h : GlueOperands m name change e e') (command : String)
    (globally : Bool) :
    ∃ d : Diagnostic, d.kind = .arithmeticOverflow ∧
      arithmetic m change.op command globally e =
        match (change.word (e.context.glue name)).bind ArithmeticOp.inRange with
        | some g => .ok () (e'.modifyContext (·.set (.glue name) g globally))
        | none => .error ⟨.diagnostic d, ()⟩ (e'.record (.stopped d)) := by
  cases h with
  | @scanned t fixed e₁ e₂ e₃ found hregister hnames hlocate hkeyword hoperand =>
    have hsame : e.context.SameRegisters e₃.context := sameRegisters_keyword hm hregister hlocate hkeyword
    have hvalue : e₃.context.glue name = e.context.glue name := Context.glue_congr (hsame _ rfl)
    refine ⟨{ kind := .arithmeticOverflow, place := e₃.locator, arguments := [] }, rfl, ?_⟩
    have hmeaning : registerOf? (e₁.context.meaning? t) = some (.glue, fixed) := hnames
    refine (Proc.bind_ok (Proc.lift_ok hregister)).trans ?_
    simp only [meaningOf_bind, hmeaning]
    refine (Proc.bind_ok (Proc.lift_ok hlocate)).trans ((Proc.bind_ok (discard_keyword hkeyword)).trans ?_)
    refine (Proc.bind_ok (hoperand.glueResult_eq _)).trans ?_
    rw [hvalue]
    cases (change.word (e.context.glue name)).bind ArithmeticOp.inRange <;> rfl

end Operands

/-! ## Changes one after the other -/

/-- What words keep of a glue after some changes of it. -/
def GlueChange.replay (changes : List GlueChange) (g : ExactGlue) : Option ExactGlue :=
  match changes with
  | [] => some g
  | change :: changes => (change.exact g).bind fun r => replay changes r.wrapped

theorem GlueChange.replay_products (ns : List Int64) (g : ExactGlue) :
    replay (ns.map product) g.wrapped = some (g.mapValues (· * (ns.map Int64.toInt).prod)).wrapped := by
  induction ns generalizing g with
  | nil => simp only [List.map_nil, List.prod_nil, Int.mul_one, replay, ExactGlue.mapValues, ExactFlex.mapValue]
  | cons n ns ih =>
    have hstep : (product n).exact g.wrapped = some (g.wrapped.mapValues (· * n.toInt)) := rfl
    rw [List.map_cons, replay, hstep, Option.bind_some, ExactGlue.wrapped_product, ih, ExactGlue.mapValues_mapValues]
    simp only [List.map_cons, List.prod_cons, Function.comp_def, Int.mul_assoc]

section History

variable {m : Machine} {change : GlueChange} {changes : List GlueChange} {name command : String} {modifiers : Modifiers}
  {e e₀ e₁ e₂ e' : Engine}

/-- Commands change a register one after the other. In between, anything may be done which leaves it alone. -/
inductive GlueHistory (m : Machine) (name : String) : List GlueChange → Engine → Engine → Prop where
  | kept {e e' : Engine} (hkept : e'.context.glue name = e.context.glue name) : GlueHistory m name [] e e'
  | changed {change : GlueChange} {changes : List GlueChange} {e e₀ e₁ e₂ e' : Engine} {command : String}
      {modifiers : Modifiers} (hkept : e₀.context.glue name = e.context.glue name) (hscan : GlueOperands m name change e₀ e₁)
      (hexecute : Command.execute m command modifiers (.arithmetic change.op) e₀ = .ok () e₂)
      (hrest : GlueHistory m name changes e₂ e') : GlueHistory m name (change :: changes) e e'

theorem GlueOperands.stored (hm : m.Sound) (h : GlueOperands m name change e e')
    (hexecute : Command.execute m command modifiers (.arithmetic change.op) e = .ok () e₁) :
    ∃ g, change.word (e.context.glue name) = some g ∧
      e₁ = e'.modifyContext (·.set (.glue name) g modifiers.isGlobal) := by
  obtain ⟨d, -, heq⟩ := h.arithmetic_eq hm command modifiers.isGlobal
  have hok := heq.symm.trans hexecute
  rw [GlueChange.inRange_bind_word] at hok
  cases hword : (change.word (e.context.glue name)).filter fun r => r.exact.natural.natAbs ≤ 1073741823 with
  | none =>
    rw [hword] at hok
    cases hok
  | some g =>
    rw [hword] at hok
    cases hok
    exact ⟨g, (Option.filter_eq_some_iff.1 hword).1, rfl⟩

/-- **What changes leave in a register** can be computed from the glue which was in it. -/
theorem GlueHistory.replayed (hm : m.Sound) (h : GlueHistory m name changes e e') :
    GlueChange.replay changes (e.context.glue name).exact = some (e'.context.glue name).exact := by
  induction h with
  | kept hkept => rw [GlueChange.replay, hkept]
  | @changed change changes e e₀ e₁ e₂ e' command modifiers hkept hscan hexecute _ ih =>
    obtain ⟨g, hword, rfl⟩ := hscan.stored hm hexecute
    have hexact := change.word_exact (e₀.context.glue name)
    rw [hword, hkept, Option.map_some] at hexact
    obtain ⟨r, hr, hwrapped⟩ := Option.map_eq_some_iff.1 hexact.symm
    have hstored : (e₁.modifyContext (·.set (.glue name) g modifiers.isGlobal)).context.glue name = g :=
      get_set_self (.glue name) g _ _
    rw [GlueChange.replay, hr, Option.bind_some, hwrapped, ← hstored]
    exact ih

end History

/-! ## The main statement -/

/-- **Arithmetic with glue keeps the natural length exact, and nothing else.** A command has scanned a register for glue
and an operand. Let `r` be the changed glue on unbounded integers.

* If the natural length which words keep of it is a dimension, the register gets what words keep of `r`, in the innermost
  group or in all of them. This is `r` itself if all its components are dimensions;
* if there is no such glue or its natural length is no dimension, the command stops with an error, and no register changes;
* the natural length does not wrap around, if it was a dimension and the operand is in range;
* after any number of products, all components are those of the exact product up to a multiple of 2^64. -/
theorem glue_arithmetic (n : Nat) (command : String) (modifiers : Modifiers) (e e' : Engine) (name : String)
    (change : GlueChange) (hscan : GlueOperands (machine n) name change e e') :
    (∀ r, change.exact (e.context.glue name).exact = some r → r.wrapped.natural.natAbs ≤ 1073741823 →
        ∃ g e'', Command.execute (machine n) command modifiers (.arithmetic change.op) e = .ok () e'' ∧
          e''.context.values (.key (.glue name)) = assigned (e.context.values (.key (.glue name))) g modifiers.isGlobal ∧
          e''.context.glue name = g ∧ g.exact = r.wrapped ∧ (r.InRange → g.exact = r) ∧
          ∀ s : Slot, s.isSteady = true → s ≠ .key (.glue name) → e''.context.values s = e.context.values s) ∧
      ((∀ r, change.exact (e.context.glue name).exact = some r → 1073741823 < r.wrapped.natural.natAbs) →
        ∃ d e'', d.kind = .arithmeticOverflow ∧
          Command.execute (machine n) command modifiers (.arithmetic change.op) e = .error ⟨.diagnostic d, ()⟩ e'' ∧
          ∀ s : Slot, s.isSteady = true → e''.context.values s = e.context.values s) ∧
      ((e.context.glue name).natural.toInt.natAbs ≤ 1073741823 → change.InRange →
        ∀ r, change.exact (e.context.glue name).exact = some r → r.wrapped.natural = r.natural) ∧
      ∀ (ns : List Int64) (e'' : Engine), GlueHistory (machine n) name (ns.map .product) e e'' →
        (e''.context.glue name).exact = ((e.context.glue name).exact.mapValues (· * (ns.map Int64.toInt).prod)).wrapped := by
  have hsame := hscan.sameRegisters (machine_sound n)
  have hexact := change.word_exact (e.context.glue name)
  obtain ⟨d, hkind, heq⟩ := hscan.arithmetic_eq (machine_sound n) command modifiers.isGlobal
  rw [GlueChange.inRange_bind_word] at heq
  refine ⟨fun r hr hnatural => ?stored, fun hexcess => ?stopped,
    fun hnatural hchange r => GlueChange.natural_wrapped hnatural hchange,
    fun ns e'' hhistory => ?products⟩
  case stored =>
    rw [hr, Option.map_some] at hexact
    obtain ⟨g, hword, hg⟩ := Option.map_eq_some_iff.1 hexact
    have hfilter : (change.word (e.context.glue name)).filter (fun r => r.exact.natural.natAbs ≤ 1073741823) = some g :=
      Option.filter_eq_some_iff.2 ⟨hword, decide_eq_true (by rwa [hg])⟩
    rw [hfilter] at heq
    refine ⟨g, _, heq, ?_, get_set_self (.glue name) g _ _, hg, fun hrange => hg.trans hrange.wrapped_eq, fun s hs hne => ?_⟩
    · refine (Context.values_assign _ (.key (.glue name)) g _).trans ?_
      exact congrArg (assigned · g modifiers.isGlobal) (hsame _ rfl)
    · exact (Context.values_assign_of_ne _ (.key (.glue name)) g _ hne).trans (hsame s hs)
  case stopped =>
    have hfilter : (change.word (e.context.glue name)).filter (fun r => r.exact.natural.natAbs ≤ 1073741823) = none := by
      rw [Option.filter_eq_none_iff]
      intro g hword hwithin
      rw [hword, Option.map_some] at hexact
      obtain ⟨r, hr, hwrapped⟩ := Option.map_eq_some_iff.1 hexact.symm
      exact Nat.not_le.2 (hexcess r hr) (by rw [hwrapped]; exact of_decide_eq_true hwithin)
    rw [hfilter] at heq
    exact ⟨d, _, hkind, heq, hsame⟩
  case products =>
    have hreplayed := hhistory.replayed (machine_sound n)
    rw [← Glue.exact_wrapped, GlueChange.replay_products] at hreplayed
    exact (Option.some.inj hreplayed).symm

/-- A new engine whose control sequence `g` stands for a register with a glue in it. -/
def Engine.holdingGlue (g : Glue) : Engine :=
  (Engine.new default {}).modifyContext fun c =>
    (c.assign (.key (.meaning (.controlSequence "g" ""))) (some (.primitive 1 "g" (.command (.register .glue (some "0")))))
      true).set (.glue "0") g true

/-- What a command scans in front of a state can be computed. -/
theorem GlueOperands.of_valueOf {m : Machine} {name : String} {n : Int64} {e : Engine} (t : Token) (fixed : Option String)
    (found : Bool) (hregister : valueOf (nonBlank m e) = some (some t)) :
    let e₁ := finalState (nonBlank m e)
    let e₂ := finalState (locate m fixed e₁)
    let e₃ := finalState (keyword m "by" e₂)
    registerOf? (e₁.context.meaning? t) = some (.glue, fixed) → valueOf (locate m fixed e₁) = some name →
      valueOf (keyword m "by" e₂) = some found → valueOf (m.number e₃) = some n →
        GlueOperands m name (.product n) e (finalState (m.number e₃)) := by
  intro e₁ e₂ e₃ hnames hlocate hkeyword hoperand
  have hscanned : (GlueChange.product n).Scanned m e₃ (finalState (m.number e₃)) := eq_ok_of_valueOf hoperand
  exact .scanned (eq_ok_of_valueOf hregister) hnames (eq_ok_of_valueOf hlocate) (eq_ok_of_valueOf hkeyword) hscanned

/-- A stretch is multiplied by 65536, three times. The first product is out of the range of dimensions, and nothing is
left of the third one. -/
theorem glue_arithmetic_products :
    let multiply : Action Unit := Command.execute (machine 12) "multiply" .none (.arithmetic .multiply)
    let e := (Engine.holdingGlue (.finite 0 65536 0)).pushText "\\g by 65536 \\g by 65536 \\g by 65536 " ""
    let e₁ := finalState (multiply e)
    let e₂ := finalState (multiply e₁)
    let e₃ := finalState (multiply e₂)
    multiply e = .ok () e₁ ∧ (e₁.context.glue "0").exact = (Glue.finite 0 4294967296 0).exact ∧
      (e₃.context.glue "0").exact = Glue.zero.exact := by
  intro multiply e e₁ e₂ e₃
  have hscan : GlueOperands (machine 12) "0" (.product 65536) e _ :=
    .of_valueOf (.controlSequence "g" "") (some "0") true (by decide +kernel) (by decide +kernel) (by decide +kernel)
      (by decide +kernel) (by decide +kernel)
  have hscan₁ : GlueOperands (machine 12) "0" (.product 65536) e₁ _ :=
    .of_valueOf (.controlSequence "g" "") (some "0") true (by decide +kernel) (by decide +kernel) (by decide +kernel)
      (by decide +kernel) (by decide +kernel)
  have hscan₂ : GlueOperands (machine 12) "0" (.product 65536) e₂ _ :=
    .of_valueOf (.controlSequence "g" "") (some "0") true (by decide +kernel) (by decide +kernel) (by decide +kernel)
      (by decide +kernel) (by decide +kernel)
  have hexecute : multiply e = .ok () e₁ := eq_ok_of_valueOf (by decide +kernel)
  have hexecute₁ : multiply e₁ = .ok () e₂ := eq_ok_of_valueOf (by decide +kernel)
  have hexecute₂ : multiply e₂ = .ok () e₃ := eq_ok_of_valueOf (by decide +kernel)
  have hvalue : e.context.glue "0" = .finite 0 65536 0 := by decide +kernel
  have hthird : GlueHistory (machine 12) "0" [] e₃ e₃ := .kept rfl
  have hsecond : GlueHistory (machine 12) "0" [.product 65536] e₂ e₃ := .changed rfl hscan₂ hexecute₂ hthird
  have hfirst : GlueHistory (machine 12) "0" [.product 65536, .product 65536] e₁ e₃ := .changed rfl hscan₁ hexecute₁ hsecond
  have hhistory : GlueHistory (machine 12) "0" ([65536, 65536, 65536].map .product) e e₃ :=
    .changed rfl hscan hexecute hfirst
  obtain ⟨hstored, -, -, hproducts⟩ := glue_arithmetic 12 "multiply" .none e _ "0" (.product 65536) hscan
  obtain ⟨g, e', hfinal, -, hread, hexact, -⟩ := hstored _ rfl (by rw [hvalue]; decide)
  have hsame : e' = e₁ := by
    have hboth : EStateM.Result.ok () e' = EStateM.Result.ok () e₁ := hfinal.symm.trans hexecute
    cases hboth
    rfl
  have hlast := hproducts [65536, 65536, 65536] e₃ hhistory
  rw [hvalue] at hlast hexact
  rw [← hsame]
  refine ⟨hfinal, ?_, ?_⟩
  · rw [hread, hexact]
    rfl
  · rw [hlast]
    rfl

/-- Twice a stretch which is in range is out of range. The command stores it and reports nothing. -/
theorem product_out_of_range :
    let e := (Engine.holdingGlue (.finite 0 1073676288 0)).pushText "\\g by 2 " ""
    let e' := finalState (Command.execute (machine 12) "multiply" .none (.arithmetic .multiply) e)
    (e.context.glue "0").exact.InRange ∧
      valueOf (Command.execute (machine 12) "multiply" .none (.arithmetic .multiply) e) = some () ∧
      e'.context.glue "0" = .finite 0 2147352576 0 ∧ ¬ (e'.context.glue "0").exact.InRange ∧ e'.errorCount = 0 := by
  decide +kernel

end Compositor
