import Compositor.Proofs.Engine.Dimensions
import Compositor.Proofs.Engine.Magnification

/-!
# Multiples of lengths in registers

A dimension is also written as a multiple of a register for dimensions, or of one for glue, which counts by its natural
length. If the lengths in all these registers are in range, the product is computed without leaving the words of 64 bits.
A product which is too large is reported and cut. But there is no bound for products which are too small: a large multiple of
a negative length is no dimension, and nobody is told.

* `Dimen.InRange` says that a length is a dimension, `Context.LengthsInRange` that all registers hold dimensions;
* `Multiple` is a number in front of a register, with its `product` and the `value` which the scanner gives;
* `multiples_bounded` says when such a value is in range, and when the registers stay so after it has been assigned.
-/

namespace Compositor

open Compositor.Measure

variable {e e₁ e₂ : Engine} {t : Token} {ts gap : List Token} {input mid rest : Input} {u : Dimen} {whole part : Nat}

/-! ## Products -/

namespace Measure

def Dimen.InRange (d : Dimen) : Prop := -1073741823 ≤ d.toInt ∧ d.toInt ≤ 1073741823

instance (d : Dimen) : Decidable d.InRange := inferInstanceAs (Decidable (_ ∧ _))

theorem Dimen.InRange.natAbs_le (h : u.InRange) : u.toInt.natAbs ≤ 1073741823 := by
  unfold Dimen.InRange at h
  omega

/-- The product of `whole + part/65536` and a length, truncated, over the unbounded integers. -/
def exactProduct (whole part : Nat) (u : Dimen) : Int := ((whole * unity + part : Nat) * u.toInt).tdiv unity

/-- The fraction can be multiplied apart, since both products have the same sign. -/
theorem exactProduct_eq (whole part : Nat) (u : Dimen) :
    exactProduct whole part u = whole * u.toInt + (part * u.toInt).tdiv unity := by
  have hnatural : ∀ n : Nat, (((whole * unity + part : Nat) * n : Int)).tdiv unity = whole * n + (part * n : Int).tdiv unity := by
    intro n
    have hquotient : (whole * unity + part) * n / unity = whole * n + part * n / unity := by
      rw [Nat.add_mul, Nat.mul_right_comm, Nat.add_comm, Nat.add_mul_div_right _ _ (by decide), Nat.add_comm]
    exact_mod_cast congrArg Int.ofNat hquotient
  unfold exactProduct
  obtain ⟨n, hn | hn⟩ := u.toInt.eq_nat_or_neg <;> rw [hn]
  · exact hnatural n
  · rw [Int.mul_neg, Int.neg_tdiv, hnatural, Int.mul_neg, Int.mul_neg, Int.neg_tdiv, Int.neg_add]

/-- The product with an integer in range is that of the unbounded integers. -/
theorem toInt_ofNat_mul {n : Nat} (hn : n ≤ 2147483647) (hu : u.InRange) :
    (Int64.ofNat n * u).toInt = n * u.toInt ∧ (n * u.toInt).natAbs ≤ 2147483647 * 1073741823 := by
  have hsize : (n * u.toInt).natAbs ≤ 2147483647 * 1073741823 := by
    rw [Int.natAbs_mul, Int.natAbs_natCast]
    exact Nat.mul_le_mul hn hu.natAbs_le
  refine ⟨?_, hsize⟩
  rw [Int64.toInt_mul, toInt_ofNat_of_fits (Nat.lt_of_le_of_lt hn (by decide))]
  exact Int.bmod_eq_of_le (by omega) (by omega)

/-- **A multiple of a dimension is computed exactly.** -/
theorem toInt_timesUnit (hwhole : whole ≤ 2147483647) (hpart : part ≤ unity) (hu : u.InRange) :
    (timesUnit (Int64.ofNat whole) (Int64.ofNat part) u).toInt = exactProduct whole part u ∧
      (exactProduct whole part u).natAbs < 4611686018427387904 := by
  obtain ⟨hfirst, hsize⟩ := toInt_ofNat_mul hwhole hu
  obtain ⟨hsecond, hsize'⟩ := toInt_ofNat_mul (hpart.trans (by decide)) hu
  have hshrinks := Int.natAbs_tdiv_le_natAbs (part * u.toInt) unity
  have hquotient : (Int64.ofNat part * u / 65536).toInt = (part * u.toInt).tdiv unity := by
    have hunity : (65536 : Int64).toInt = unity := rfl
    rw [Int64.toInt_div, hsecond, hunity]
    exact Int.bmod_eq_of_le (by omega) (by omega)
  rw [exactProduct_eq, timesUnit]
  refine ⟨?_, by omega⟩
  rw [Int64.toInt_add, hfirst, hquotient]
  exact Int.bmod_eq_of_le (by omega) (by omega)

/-- A length which is cut, and what is reported about it. -/
theorem Dimen.cut_eq {d : Dimen} {p : Int} (hd : d.toInt = p) :
    d.cut.toInt = min p 1073741823 ∧ d.excess = if 1073741823 < p then [.dimensionTooLarge] else [] := by
  have hover : d > maxDimen ↔ 1073741823 < p := by
    rw [gt_iff_lt, Int64.lt_iff_toInt_lt, hd]
    rfl
  unfold Dimen.cut Dimen.excess
  by_cases hp : 1073741823 < p
  · rw [if_pos (hover.2 hp), if_pos (hover.2 hp), if_pos hp, min_eq_right (Int.le_of_lt hp)]
    exact ⟨rfl, rfl⟩
  · rw [if_neg fun h => hp (hover.1 h), if_neg fun h => hp (hover.1 h), if_neg hp, min_eq_left (Int.not_lt.1 hp)]
    exact ⟨hd, rfl⟩

end Measure

/-! ## Registers -/

namespace Context

/-- The length in a register. Other registers than those for dimensions and glue hold none. -/
def lengthIn? (c : Context) (kind : RegisterKind) (name : String) : Option Dimen :=
  match kind with
  | .dimen => some (c.dimen name)
  | .glue => some (c.glue name).natural
  | .count | .toks => none

def LengthsInRange (c : Context) : Prop := ∀ kind name, ∀ u ∈ c.lengthIn? kind name, u.InRange

variable {c c' : Context}

theorem SameQuantities.lengthIn? (h : c.SameQuantities c') (kind : RegisterKind) (name : String) :
    c'.lengthIn? kind name = c.lengthIn? kind name := by
  cases kind with
  | dimen => exact congrArg some (h.dimen name)
  | glue => exact congrArg (fun g : Glue => some g.natural) (h.glue name)
  | count | toks => rfl

theorem SameQuantities.lengthsInRange (h : c.SameQuantities c') (hc : c.LengthsInRange) : c'.LengthsInRange := by
  intro kind name u hu
  exact hc kind name u (h.lengthIn? kind name ▸ hu)

/-- An assignment of a dimension changes the register to which it is assigned. -/
theorem lengthIn?_set_self (c : Context) (name : String) (d : Dimen) (globally : Bool) :
    (c.set (.dimen name) d globally).lengthIn? .dimen name = some d := by
  have hread := congrFun (c.read_assign (.key (.dimen name)) d globally) (.key (.dimen name))
  rw [Function.update_self] at hread
  exact congrArg some hread

theorem lengthIn?_set_of_ne {kind : RegisterKind} {name target : String} (h : (kind, name) ≠ (.dimen, target)) (d : Dimen)
    (globally : Bool) : (c.set (.dimen target) d globally).lengthIn? kind name = c.lengthIn? kind name := by
  have hother : ∀ s : Slot, s ≠ .key (.dimen target) → (c.set (.dimen target) d globally).read s = c.read s := by
    intro s hs
    exact (congrFun (c.read_assign (.key (.dimen target)) d globally) s).trans (Function.update_of_ne hs _ _)
  cases kind with
  | dimen =>
    have hslot : Slot.key (.dimen name) ≠ .key (.dimen target) := fun hsame => h (by cases hsame; rfl)
    exact congrArg some (hother _ hslot)
  | glue =>
    have hslot : Slot.key (.glue name) ≠ .key (.dimen target) := nofun
    exact congrArg (fun g : Glue => some g.natural) (hother _ hslot)
  | count | toks => rfl

/-- **When the registers stay in range** after an assignment: if the new value is in range. -/
theorem LengthsInRange.set_iff (hc : c.LengthsInRange) (target : String) (d : Dimen) (globally : Bool) :
    (c.set (.dimen target) d globally).LengthsInRange ↔ d.InRange := by
  refine ⟨fun h => h .dimen target d (c.lengthIn?_set_self target d globally), fun hd kind name u hu => ?_⟩
  by_cases hslot : (kind, name) = (.dimen, target)
  · cases hslot
    rw [lengthIn?_set_self] at hu
    cases hu
    exact hd
  · rw [lengthIn?_set_of_ne hslot] at hu
    exact hc kind name u hu

end Context

section Registers

variable {kind : RegisterKind} {fixed : Option String} {name : String}

/-- The token stands for a register of a kind, a fixed one or one whose number follows. -/
def Context.NamesRegister (c : Context) (t : Token) (kind : RegisterKind) (fixed : Option String) : Prop :=
  registerOf? (c.meaning? t) = some (kind, fixed)

theorem registerOf?_eq_some {meaning? : Option Meaning} (h : registerOf? meaning? = some (kind, fixed)) :
    ∃ id name, meaning? = some (.primitive id name (.command (.register kind fixed))) := by
  unfold registerOf? at h
  split at h
  · cases h
    exact ⟨_, _, rfl⟩
  · cases h

theorem Context.NamesRegister.ends {c : Context} (h : c.NamesRegister t kind fixed) :
    c.EndsNumber t ∧ isDecimalPoint t = false := by
  obtain ⟨id, name, hmeaning⟩ := registerOf?_eq_some h
  have hcode : t.isCode = true := by
    by_contra hplain
    rw [c.meaning?_of_not_isCode (by simpa using hplain)] at hmeaning
    cases hmeaning
  have hcat : t.cat ≠ .space ∧ t.cat ≠ .other := by
    constructor <;> intro hcat <;> simp [Token.isCode, hcat] at hcode
  refine ⟨⟨?_, hcat.1, by simp [digitOf?, hcode]⟩, by simp [isDecimalPoint, Token.isOther, hcat.2]⟩
  rw [Unexpandable, hmeaning]
  rfl

/-- **The length in a register is found** where its name is. -/
theorem internalDimen?_runs (h : e.context.NamesRegister t kind fixed) (hlocate : Runs (locate · fixed) e name e₁)
    (hu : e₁.context.lengthIn? kind name = some u) : Runs (internalDimen? · t) e (some u) e₁ := by
  obtain ⟨id, command, hmeaning⟩ := registerOf?_eq_some h
  have hquantity : ∀ m, (quantity? m t : Proc Dimen (Option Quantity)) e = .ok (quantityOf? m (.register kind fixed)) e := by
    intro m
    rw [quantity?, meaningOf_bind, hmeaning]
    rfl
  obtain ⟨k, hk⟩ := hlocate
  refine ⟨k, fun n hn => ?_⟩
  have hvalue : ∀ {β : Type} (value : Context → String → β),
      registerValue (machine n) fixed value e = .ok (value e₁.context name) e₁ := by
    intro β value
    simp only [registerValue, hk n hn]
  refine (Proc.bind_ok (hquantity (machine n))).trans ?_
  cases kind with
  | dimen =>
    cases hu
    exact Proc.bind_ok (hvalue Context.dimen)
  | glue =>
    cases hu
    have hnatural : Proc.mapBoth (registerValue (machine n) fixed Context.glue) Glue.natural e =
        .ok (e₁.context.glue name).natural e₁ := by
      simp only [Proc.mapBoth, hvalue Context.glue]
    exact Proc.bind_ok hnatural
  | count | toks => cases hu

/-- The number of a register is scanned if it is an integer constant in range, with the space after it. -/
theorem registerName_runs (n : IntegerConstant) (hlow : 0 ≤ n.value) (hhigh : n.value ≤ 32767) {blank : Token}
    (hblank : blank.cat = .space) (hinput : e.input.Delivers e.context.lexicon (n.tokens ++ [blank]) rest) :
    Runs registerName e (Text.decimal (Int64.ofInt n.value)) (e.withInput rest) := by
  have hnumber := number_runs n hblank hinput
  have hvalue : (Int64.ofInt n.value).toInt = n.value := Int64.toInt_ofInt_of_le (by omega) (by omega)
  have hrange : ¬ (Int64.ofInt n.value < 0 ∨ Int64.ofInt n.value > maxRegister) := by
    have hmax : maxRegister.toInt = 32767 := rfl
    have hzero : (0 : Int64).toInt = 0 := rfl
    rw [gt_iff_lt, Int64.lt_iff_toInt_lt, Int64.lt_iff_toInt_lt, hvalue, hmax, hzero]
    omega
  refine Runs.giving (hnumber.lift.bind ?_) "0"
  simp only [hrange, if_false]
  exact .of_eq fun _ => rfl

end Registers

theorem Runs.sameQuantities {α β : Type} {p : Machine → Proc β α} {a : α} {Q : α → Prop} (h : Runs p e a e₁)
    (hp : ∀ m : Machine, m.Sound → Meets Regime.reading.loose (p m) Q) : e.context.SameQuantities e₁.context := by
  obtain ⟨k, hk⟩ := h
  have hcourse := ((hp _ (machine_sound k) e False.elim).ok (hk k (Nat.le_refl k))).1
  exact hcourse.sameQuantities rfl

/-! ## Multiples -/

/-- A number in front of a token which stands for a register. -/
structure Multiple where
  signs : List SignToken
  /-- The spaces after the signs. -/
  blanks : List Token
  factor : Factor
  /-- The spaces in front of the register. -/
  gap : List Token
  register : Token
  areBlanks : ∀ b ∈ blanks, b.cat = .space
  areGap : ∀ b ∈ gap, b.cat = .space
  isSpared : factor.Spares gap register

namespace Multiple

/-- The tokens of a multiple. The number of the register comes after them, unless it is a fixed one. -/
def tokens (k : Multiple) : List Token :=
  k.signs.flatMap SignToken.tokens ++ (k.blanks ++ k.factor.first :: (k.factor.others ++ (k.gap ++ [k.register])))

/-- The multiple is negated: there is an odd number of minus signs. -/
def isNegated (k : Multiple) : Bool := k.signs.countP (·.token.isOther '-') % 2 == 1

/-- The product of the number and the length in the register, before it is negated. -/
def product (k : Multiple) (u : Dimen) : Int := exactProduct k.factor.whole k.factor.part u

/-- What the scanner gives: a product which is too large is cut, but none which is too small. -/
def value (k : Multiple) (u : Dimen) : Int :=
  if k.isNegated then -min (k.product u) 1073741823 else min (k.product u) 1073741823

def problems (k : Multiple) (u : Dimen) : List Kind := if 1073741823 < k.product u then [.dimensionTooLarge] else []

variable {k : Multiple}

/-- **When the value is in range**: if the product is not too small. -/
theorem inRange_value_iff (hwhole : k.factor.whole ≤ 2147483647) (hu : u.InRange) :
    Dimen.InRange (Int64.ofInt (k.value u)) ↔ -1073741823 ≤ k.product u := by
  have hsize : (k.product u).natAbs < 4611686018427387904 := (toInt_timesUnit hwhole k.factor.part_le hu).2
  have hbounds : -4611686018427387904 < k.value u ∧ k.value u < 4611686018427387904 := by
    unfold value
    split <;> omega
  have hvalue : (Int64.ofInt (k.value u)).toInt = k.value u := Int64.toInt_ofInt_of_le (by omega) (by omega)
  rw [Dimen.InRange, hvalue, value]
  split <;> omega

/-- A multiple of a length which is not negative is never too small. -/
theorem product_nonneg (k : Multiple) (hu : 0 ≤ u.toInt) : 0 ≤ k.product u :=
  Int.tdiv_nonneg (Int.mul_nonneg (Int.natCast_nonneg _) hu) (Int.natCast_nonneg _)

end Multiple

theorem finiteUnit_register (whole part : Int64) (hgap : ∀ b ∈ gap, b.cat = .space) (ht : e.context.EndsNumber t)
    (h : Runs (internalDimen? · t) (e.withInput mid) (some u) e₁) :
    Proceeds e e₁ (finiteUnit · whole part) (gap ++ [t]) mid (timesUnit whole part u) [] [] e₁.input := by
  refine (nonBlank_parses gap hgap ht.cat_ne ht.unexpandable).lift.bind_proceeds ?_
  exact (Proceeds.of_runs h).lift.bind fun e₂ _ => (Parses.pure _).recovers _

/-- **A multiple is scanned** to its value. -/
theorem Multiple.dimension_proceeds (k : Multiple) (hwhole : k.factor.whole ≤ 2147483647) (hu : u.InRange)
    (hends : e.context.EndsNumber k.register ∧ isDecimalPoint k.register = false)
    (h : Runs (internalDimen? · k.register) (e.withInput mid) (some u) e₁) (he : e₁.Bears (k.problems u).length) :
    Proceeds e e₁ dimension k.tokens mid (Int64.ofInt (k.value u)) (k.problems u) [] e₁.input := by
  have hproduct := (toInt_timesUnit hwhole k.factor.part_le hu).1
  obtain ⟨hcut, hexcess⟩ := Dimen.cut_eq hproduct
  have hvalue : signed k.isNegated (Dimen.cut (timesUnit (Int64.ofNat k.factor.whole) (Int64.ofNat k.factor.part) u)) =
      Int64.ofInt (k.value u) := by
    rw [← Int64.ofInt_toInt (Dimen.cut _), hcut, signed_ofInt]
    rfl
  have hunit := finiteUnit_register (Int64.ofNat k.factor.whole) (Int64.ofNat k.factor.part)
    (fun b hb => k.areGap b (List.mem_of_mem_tail hb)) hends.1 h
  have hproblems : _ = k.problems u := hexcess
  rw [← hproblems] at he ⊢
  rw [← hvalue]
  exact Compositor.dimension_proceeds k.signs k.areBlanks k.factor rfl
    (lengthFrom_proceeds k.factor k.isNegated k.areGap hends.1 k.isSpared hends.2 hwhole hunit he)

/-! ## The main statement -/

/-- **Multiples of lengths in registers.** In a state in which all of these are in range, an engine which finds the register and
bears the problems of a multiple scans it to its value, reports these problems and keeps all registers in range. The product
is that of the unbounded integers. An assignment of the multiple keeps the registers in range if and only if the product is not
too small. So it is for every length which is not negative, but a large multiple of a negative one is out of range, whatever
its signs.

A register whose number has to be scanned is found if it is written as an integer constant in range with a space after it. -/
theorem multiples_bounded (k : Multiple) (e e₁ : Engine) (input mid : Input) (kind : RegisterKind) (fixed : Option String)
    (name : String) (u : Dimen) (hrange : e.context.LengthsInRange) (hwhole : k.factor.whole ≤ 2147483647)
    (hinput : input.Delivers e.context.lexicon k.tokens mid) (hregister : e.context.NamesRegister k.register kind fixed)
    (hlocate : Runs (locate · fixed) (e.withInput mid) name e₁) (hu : e.context.lengthIn? kind name = some u)
    (he : e₁.Bears (k.problems u).length) :
    (∃ e', Runs dimension (e.withInput input) (Int64.ofInt (k.value u)) (e'.withInput e₁.input) ∧
        Engine.Reported (k.problems u) e₁ e' ∧ e'.context.LengthsInRange ∧
        ∀ (target : String) (globally : Bool),
          Runs (assignValue · .dimen target globally) (e.withInput input) ()
            ((e'.withInput e₁.input).modifyContext (·.set (.dimen target) (Int64.ofInt (k.value u)) globally)) ∧
          ((e'.context.set (.dimen target) (Int64.ofInt (k.value u)) globally).LengthsInRange ↔
            -1073741823 ≤ k.product u)) ∧
      (Dimen.InRange (Int64.ofInt (k.value u)) ↔ -1073741823 ≤ k.product u) ∧
      (0 ≤ u.toInt → -1073741823 ≤ k.product u) ∧
      ∀ (n : IntegerConstant) (blank : Token) (f : Engine) (rest : Input), 0 ≤ n.value → n.value ≤ 32767 →
        blank.cat = .space → f.input.Delivers f.context.lexicon (n.tokens ++ [blank]) rest →
          Runs (locate · none) f (Text.decimal (Int64.ofInt n.value)) (f.withInput rest) := by
  have hsame := hlocate.sameQuantities fun m hm => meets_locate hm fixed
  have hinRange : u.InRange := hrange kind name u hu
  have hvalue := k.inRange_value_iff hwhole hinRange
  have hlength := internalDimen?_runs (e := e.withInput mid) hregister hlocate ((hsame.lengthIn? kind name).trans hu)
  refine ⟨?scanned, hvalue, fun hnonneg => ?_,
    fun n blank f rest hlow hhigh hblank hnumber => registerName_runs n hlow hhigh hblank hnumber⟩
  case scanned =>
    obtain ⟨e', input', hruns, hreported, rfl⟩ :=
      k.dimension_proceeds hwhole hinRange hregister.ends hlength he input hinput
    have hkept : e'.context.LengthsInRange := hreported.context ▸ hsame.lengthsInRange hrange
    exact ⟨e', hruns, hreported, hkept, fun target globally =>
      ⟨hruns.lift.bind (.of_eq fun _ => rfl), (hkept.set_iff target _ globally).trans hvalue⟩⟩
  · have hproduct := k.product_nonneg hnonneg
    omega

/-- A new engine whose control sequence `d` stands for a register with a length in it. -/
def Engine.holding (d : Dimen) : Engine :=
  (Engine.new default {}).modifyContext fun c =>
    (c.assign (.key (.meaning (.controlSequence "d" ""))) (some (.primitive 1 "d" (.command (.register .dimen (some "0")))))
      true).set (.dimen "0") d true

theorem Engine.lengthsInRange_holding {d : Dimen} (hd : d.InRange) : (Engine.holding d).context.LengthsInRange := by
  have hfresh : (Engine.new default {}).context.LengthsInRange := by
    intro kind name u hu
    cases kind with
    | dimen | glue =>
      cases hu
      have hzero : Dimen.InRange 0 := by decide
      exact hzero
    | count | toks => cases hu
  have hdefined : Context.LengthsInRange _ := (Context.SameQuantities.assign (Engine.new default {}).context
    (s := .key (.meaning (.controlSequence "d" ""))) rfl
    (some (.primitive 1 "d" (.command (.register .dimen (some "0"))))) true).lengthsInRange hfresh
  exact (hdefined.set_iff "0" d true).2 hd

/-- The register three million times, and negated. -/
def Multiple.sample : Multiple where
  signs := [⟨[], .other '-', areBlanks_nil, isSign_minus⟩]
  blanks := []
  factor := .integer ⟨.other '3', 3, rfl⟩ (List.replicate 6 ⟨.other '0', 0, rfl⟩)
  gap := []
  register := .controlSequence "d" ""
  areBlanks := areBlanks_nil
  areGap := areBlanks_nil
  isSpared := fun _ => by decide

/-- Three million points are no dimension. They are cut to the largest one before they are negated, and may be assigned. -/
theorem multiples_bounded_three_million :
    let e := Engine.holding 65536
    let tokens : List Token := .other '-' :: .other '3' :: (List.replicate 6 (.other '0') ++ [.controlSequence "d" ""])
    ∃ e', Runs dimension (e.withInput (Input.pushTokens [] tokens)) (-1073741823) (e'.withInput []) ∧
      Engine.Reported [.dimensionTooLarge] e e' ∧
      (e'.context.set (.dimen "1") (-1073741823) false).LengthsInRange := by
  intro e tokens
  have hrange : e.context.LengthsInRange := Engine.lengthsInRange_holding (by decide)
  have hproduct : Multiple.sample.product 65536 = 196608000000 := by decide
  have hvalue : Multiple.sample.value 65536 = -1073741823 := by decide
  have hproblems : Multiple.sample.problems 65536 = [.dimensionTooLarge] := by decide
  have hbears : e.Bears 1 := by
    have hgoes : e.handler.GoesOn e.context := trivial
    refine hgoes.bears ?_
    show ((0 + 1 : Nat) : Int) ≤ 100
    decide
  have hlength : e.context.lengthIn? .dimen "0" = some 65536 := by decide +kernel
  have hscan := multiples_bounded .sample e (e.withInput []) (Input.pushTokens [] tokens) [] .dimen (some "0") "0" 65536 hrange
    (by decide) (Input.delivers_pushTokens [] _) rfl (.of_eq fun _ => rfl) hlength
  rw [hvalue, hproblems, hproduct] at hscan
  obtain ⟨⟨e', hruns, hreported, -, hassign⟩, -⟩ := hscan hbears
  exact ⟨e', hruns, hreported, (hassign "1" false).2.2 (by decide)⟩

/-- A hundred times a negative length which is in range is below all dimensions. Nothing is reported, and the register to
which it is assigned is out of range. -/
theorem multiple_below_range :
    let e := (Engine.holding (-65536000)).pushText "100\\d " ""
    let e' := finalState (assignValue (machine 20) .dimen "1" false e)
    (-65536000 : Dimen).InRange ∧ e.context.lengthIn? .dimen "0" = some (-65536000) ∧
      e'.context.lengthIn? .dimen "1" = some (-6553600000) ∧ ¬ (-6553600000 : Dimen).InRange ∧ e'.errorCount = 0 := by
  decide +kernel

end Compositor
