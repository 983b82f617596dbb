import Compositor.Text.Roman
import Mathlib.Data.List.Infix
import Mathlib.Tactic.IntervalCases
import Mathlib.Tactic.Ring

/-!
# Roman numerals can be read back

Numerals are written greedily, and read letter by letter: a letter in front of a greater one is subtracted, all others are
added. Nothing in the text says which letters were written together, so reading must find the pairs `cm`, `cd`, `xc` and so on
again, and no other ones.

* `digitShape` is how a decimal digit is written with three letters. `toList_romanFrom` says that a numeral consists of
  thousands and of three such digits, whatever the number is;
* `signedSum_append` reads such parts apart: no letter of a part is greater than one of the part before it;
* `roman_faithful` is the statement about all numerals.
-/

namespace Compositor.Text

/-! ## Reading a numeral -/

/-- The number which a letter of a roman numeral stands for. -/
def letterValue? : Char → Option Nat
  | 'i' => some 1
  | 'v' => some 5
  | 'x' => some 10
  | 'l' => some 50
  | 'c' => some 100
  | 'd' => some 500
  | 'm' => some 1000
  | _ => none

/-- The sum of values, where a value in front of a greater one is subtracted. -/
def signedSum : List Nat → Int
  | [] => 0
  | [v] => v
  | v :: w :: rest => (if v < w then -(v : Int) else v) + signedSum (w :: rest)

/-- The number which a roman numeral stands for. -/
def readRoman? (letters : List Char) : Option Int := (letters.mapM letterValue?).map signedSum

/-- What a roman numeral should look like: it is read as the number, and after the thousands no letter stands more than
three times in a row, and none of those for five, fifty and five hundred more than once. -/
structure IsRomanNumeral (s : String) (n : Int) : Prop where
  isRead : readRoman? s.toList = some n
  noFourInARow : ∀ c, ¬ List.replicate 4 c <:+: s.toList.dropWhile (· = 'm')
  once : ∀ c ∈ ['v', 'l', 'd'], (s.toList.dropWhile (· = 'm')).count c ≤ 1

/-- The parts of a numeral can be read one after the other, if no letter is greater than one of an earlier part. -/
theorem signedSum_append {vs ws : List Nat} (h : ∀ v ∈ vs, ∀ w ∈ ws, w ≤ v) :
    signedSum (vs ++ ws) = signedSum vs + signedSum ws := by
  induction vs with
  | nil => simp [signedSum]
  | cons v vs ih =>
    obtain ⟨hv, hvs⟩ := List.forall_mem_cons.1 h
    have hrest := ih hvs
    cases vs with
    | cons w vs =>
      rw [List.cons_append, List.cons_append, signedSum, signedSum, ← List.cons_append, hrest]
      omega
    | nil =>
      cases ws with
      | nil => simp [signedSum]
      | cons w ws =>
        have hle : ¬ v < w := Nat.not_lt.2 (hv w (by simp))
        simp [signedSum, hle]

theorem signedSum_replicate (n v : Nat) : signedSum (List.replicate n v) = n * v := by
  induction n with
  | zero => simp [signedSum]
  | succ n ih =>
    have happend : List.replicate (n + 1) v = [v] ++ List.replicate n v := rfl
    have hle : ∀ w ∈ [v], ∀ u ∈ List.replicate n v, u ≤ w := by simp +contextual
    rw [happend, signedSum_append hle, ih, signedSum]
    push_cast
    ring

/-! ## A decimal digit -/

section Digits

variable {α β : Type}

/-- How a decimal digit is written, with letters for one, five and ten. -/
def digitShape (one five ten : α) : Nat → List α
  | 1 => [one]
  | 2 => [one, one]
  | 3 => [one, one, one]
  | 4 => [one, five]
  | 5 => [five]
  | 6 => [five, one]
  | 7 => [five, one, one]
  | 8 => [five, one, one, one]
  | 9 => [one, ten]
  | _ => []

variable {one five ten x : α} {k : Nat}

theorem mem_digitShape (h : x ∈ digitShape one five ten k) : x = one ∨ x = five ∨ x = ten := by
  unfold digitShape at h
  split at h <;> simp at h <;> tauto

theorem head?_digitShape (h : x ∈ (digitShape one five ten k).head?) : x = one ∨ x = five := by
  unfold digitShape at h
  split at h <;> simp at h <;> tauto

theorem mapM_digitShape {f : α → Option β} {one' five' ten' : β} (hone : f one = some one') (hfive : f five = some five')
    (hten : f ten = some ten') : (digitShape one five ten k).mapM f = some (digitShape one' five' ten' k) := by
  unfold digitShape
  split <;> simp [hone, hfive, hten]

theorem signedSum_digitShape {p : Nat} (hp : 0 < p) (hk : k < 10) :
    signedSum (digitShape p (5 * p) (10 * p) k) = k * p := by
  interval_cases k <;> simp [digitShape, signedSum] <;> omega

theorem not_replicate_infix_digitShape (hne : one ≠ five) : ¬ List.replicate 4 x <:+: digitShape one five ten k := by
  intro h
  have hlength := h.length_le
  unfold digitShape at h hlength
  split at h <;> simp at hlength
  -- the only digit with four letters is eight
  have heq := h.eq_of_length rfl
  simp only [List.replicate, List.cons.injEq] at heq
  exact hne (heq.2.1.symm.trans heq.1)

theorem count_digitShape_le [DecidableEq α] (hone : one ≠ five) (hten : ten ≠ five) :
    (digitShape one five ten k).count five ≤ 1 := by
  unfold digitShape
  split <;> simp [hone, hten]

end Digits

/-! ## Greedy writing -/

/-- What is left of a number after all values of a table have been taken from it as often as possible. -/
def leftover : List (Nat × String) → Nat → Nat
  | [], n => n
  | (value, _) :: rest, n => leftover rest (n % value)

/-- A table for multiples of a number. -/
def scaled (p : Nat) (table : List (Nat × String)) : List (Nat × String) :=
  table.map fun (value, letters) => (p * value, letters)

/-- The values which make up a decimal digit. -/
def digitTable (one five ten : Char) : List (Nat × String) :=
  [(9, String.ofList [one, ten]), (5, String.ofList [five]), (4, String.ofList [one, five]), (1, String.ofList [one])]

theorem romanDigits_eq : romanDigits = (1000, "m") :: (scaled 100 (digitTable 'c' 'd' 'm') ++
    (scaled 10 (digitTable 'x' 'l' 'c') ++ (scaled 1 (digitTable 'i' 'v' 'x') ++ []))) := by decide

/-- Taking multiples of `p` from a number writes its quotient by `p`, and the remainder stays. -/
theorem romanFrom_scaled (p : Nat) (table rest : List (Nat × String)) (n : Nat) :
    romanFrom (scaled p table ++ rest) n =
      romanFrom table (n / p) ++ romanFrom rest (p * leftover table (n / p) + n % p) := by
  induction table generalizing n with
  | nil => simp [scaled, romanFrom, leftover, Nat.div_add_mod]
  | cons entry table ih =>
    obtain ⟨value, letters⟩ := entry
    have hdiv : n % (p * value) / p = n / p % value := Nat.mod_mul_right_div_self n p value
    have hmod : n % (p * value) % p = n % p := Nat.mod_mul_right_mod n p value
    have hrest := ih (n % (p * value))
    rw [hdiv, hmod] at hrest
    rw [scaled, List.map_cons, List.cons_append, ← scaled, romanFrom, hrest, romanFrom, leftover,
      Nat.div_div_eq_div_mul, String.append_assoc]

theorem leftover_digitTable (one five ten : Char) (k : Nat) : leftover (digitTable one five ten) k = 0 := by
  simp only [digitTable, leftover]
  exact Nat.mod_one _

theorem toList_romanFrom_digitTable {one five ten : Char} {k : Nat} (hk : k < 10) :
    (romanFrom (digitTable one five ten) k).toList = digitShape one five ten k := by
  interval_cases k <;> simp [digitTable, romanFrom, digitShape, List.replicate]

/-- **A numeral consists of the thousands and three decimal digits.** -/
theorem toList_romanFrom (n : Nat) :
    (romanFrom romanDigits n).toList = List.replicate (n / 1000) 'm' ++ (digitShape 'c' 'd' 'm' (n / 100 % 10) ++
      (digitShape 'x' 'l' 'c' (n / 10 % 10) ++ digitShape 'i' 'v' 'x' (n % 10))) := by
  have hthousands : (String.join (List.replicate (n / 1000) "m")).toList = List.replicate (n / 1000) 'm' := by
    generalize n / 1000 = k
    induction k with
    | zero => rfl
    | succ k ih => rw [List.replicate_succ, String.join_cons, String.toList_append, ih, List.replicate_succ]; rfl
  have hhundreds : n % 1000 / 100 = n / 100 % 10 := by omega
  have htens : n % 1000 % 100 / 10 = n / 10 % 10 := by omega
  have hunits : n % 1000 % 100 % 10 = n % 10 := by omega
  rw [romanDigits_eq, romanFrom]
  simp only [romanFrom_scaled, leftover_digitTable, Nat.mul_zero, Nat.zero_add, String.toList_append, hthousands,
    hhundreds, htens, hunits, Nat.div_one]
  rw [toList_romanFrom_digitTable (by omega), toList_romanFrom_digitTable (by omega),
    toList_romanFrom_digitTable (by omega)]
  simp [romanFrom]

/-! ## All numerals -/

/-- Equal elements in a row in two lists are in a row in one of them, unless the row goes across. -/
theorem replicate_infix_append {α : Type} {n : Nat} {x : α} {xs ys : List α} (h : List.replicate n x <:+: xs ++ ys)
    (hends : ∀ y ∈ ys.head?, y ∉ xs) : List.replicate n x <:+: xs ∨ List.replicate n x <:+: ys := by
  rw [List.infix_append_iff] at h
  obtain h | h | ⟨before, after, heq, hbefore, hafter⟩ := h
  · exact .inl h
  · exact .inr h
  have hall : ∀ y ∈ before ++ after, y = x := fun y hy => List.eq_of_mem_replicate (heq ▸ hy)
  cases after with
  | nil =>
    rw [List.append_nil] at heq
    exact .inl (heq ▸ hbefore.isInfix)
  | cons y after =>
    cases before with
    | nil => exact .inr (heq ▸ hafter.isInfix)
    | cons z before =>
      obtain rfl : y = x := hall y (by simp)
      obtain rfl : z = y := hall z (by simp)
      obtain ⟨rest, rfl⟩ := hafter
      exact absurd (hbefore.subset (by simp)) (hends z rfl)

variable {h t u : Nat}

/-- The letters of a numeral after the thousands, with the digits for hundreds, tens and units. -/
def belowThousand (h t u : Nat) : List Char :=
  digitShape 'c' 'd' 'm' h ++ (digitShape 'x' 'l' 'c' t ++ digitShape 'i' 'v' 'x' u)

/-- The first letter of a numeral without hundreds is one for tens or units. -/
theorem head?_tens {x : Char} (h : x ∈ (digitShape 'x' 'l' 'c' t ++ digitShape 'i' 'v' 'x' u).head?) :
    x ∈ ['x', 'l', 'i', 'v'] := by
  rw [List.head?_append] at h
  cases htens : (digitShape 'x' 'l' 'c' t).head? with
  | none =>
    rw [htens, Option.none_or] at h
    rcases head?_digitShape h with rfl | rfl <;> simp
  | some y =>
    rw [htens] at h
    obtain rfl : y = x := Option.some.inj h
    rcases head?_digitShape htens with rfl | rfl <;> simp

/-- No letter stands four times in a row: the last letter of a digit is never the first one of the next digit. -/
theorem not_replicate_infix_belowThousand (c : Char) : ¬ List.replicate 4 c <:+: belowThousand h t u := by
  have hhundreds : ∀ y ∈ (digitShape 'x' 'l' 'c' t ++ digitShape 'i' 'v' 'x' u).head?, y ∉ digitShape 'c' 'd' 'm' h := by
    intro y hy hmem
    have hhead := head?_tens hy
    rcases mem_digitShape hmem with rfl | rfl | rfl <;> simp at hhead
  have htens : ∀ y ∈ (digitShape 'i' 'v' 'x' u).head?, y ∉ digitShape 'x' 'l' 'c' t := by
    intro y hy hmem
    have hhead := head?_digitShape hy
    rcases mem_digitShape hmem with rfl | rfl | rfl <;> simp at hhead
  intro hrow
  rcases replicate_infix_append hrow hhundreds with hrow | hrow
  · exact not_replicate_infix_digitShape (by decide) hrow
  · rcases replicate_infix_append hrow htens with hrow | hrow
    · exact not_replicate_infix_digitShape (by decide) hrow
    · exact not_replicate_infix_digitShape (by decide) hrow

/-- Each of the letters for five hundred, fifty and five belongs to a single digit. -/
theorem count_belowThousand_le {c : Char} (hc : c ∈ ['v', 'l', 'd']) : (belowThousand h t u).count c ≤ 1 := by
  have hnone {one five ten : Char} (k : Nat) (hc : c ∉ [one, five, ten]) : (digitShape one five ten k).count c = 0 := by
    refine List.count_eq_zero.2 fun hmem => hc ?_
    simpa using mem_digitShape hmem
  simp only [List.mem_cons, List.not_mem_nil, or_false] at hc
  rw [belowThousand, List.count_append, List.count_append]
  rcases hc with rfl | rfl | rfl
  · have hown : (digitShape 'i' 'v' 'x' u).count 'v' ≤ 1 := count_digitShape_le (by decide) (by decide)
    rwa [hnone h (by decide), hnone t (by decide), Nat.zero_add, Nat.zero_add]
  · have hown : (digitShape 'x' 'l' 'c' t).count 'l' ≤ 1 := count_digitShape_le (by decide) (by decide)
    rwa [hnone h (by decide), hnone u (by decide), Nat.zero_add, Nat.add_zero]
  · have hown : (digitShape 'c' 'd' 'm' h).count 'd' ≤ 1 := count_digitShape_le (by decide) (by decide)
    rwa [hnone t (by decide), hnone u (by decide), Nat.add_zero]

theorem dropWhile_romanFrom (n : Nat) : (romanFrom romanDigits n).toList.dropWhile (· = 'm') =
    belowThousand (n / 100 % 10) (n / 10 % 10) (n % 10) := by
  have hhead : ∀ x ∈ (belowThousand (n / 100 % 10) (n / 10 % 10) (n % 10)).head?, x ≠ 'm' := by
    intro x hx
    rw [belowThousand, List.head?_append] at hx
    cases hhundreds : (digitShape 'c' 'd' 'm' (n / 100 % 10)).head? with
    | none =>
      rw [hhundreds, Option.none_or] at hx
      have hmem := head?_tens hx
      rintro rfl
      simp at hmem
    | some y =>
      rw [hhundreds] at hx
      obtain rfl : y = x := Option.some.inj hx
      rcases head?_digitShape hhundreds with rfl | rfl <;> decide
  rw [toList_romanFrom, ← belowThousand, List.dropWhile_append_of_pos (by simp)]
  cases hletters : belowThousand (n / 100 % 10) (n / 10 % 10) (n % 10) with
  | nil => rfl
  | cons x xs =>
    rw [hletters] at hhead
    exact List.dropWhile_cons_of_neg (by simpa using hhead x rfl)

theorem mapM_romanFrom (n : Nat) :
    (romanFrom romanDigits n).toList.mapM letterValue? =
      some (List.replicate (n / 1000) 1000 ++ (digitShape 100 500 1000 (n / 100 % 10) ++
        (digitShape 10 50 100 (n / 10 % 10) ++ digitShape 1 5 10 (n % 10)))) := by
  have hthousands : (List.replicate (n / 1000) 'm').mapM letterValue? = some (List.replicate (n / 1000) 1000) := by
    generalize n / 1000 = k
    induction k with
    | zero => rfl
    | succ k ih => simp [List.replicate_succ, ih, letterValue?]
  have hhundreds (k : Nat) : (digitShape 'c' 'd' 'm' k).mapM letterValue? = some (digitShape 100 500 1000 k) :=
    mapM_digitShape rfl rfl rfl
  have htens (k : Nat) : (digitShape 'x' 'l' 'c' k).mapM letterValue? = some (digitShape 10 50 100 k) :=
    mapM_digitShape rfl rfl rfl
  have hunits (k : Nat) : (digitShape 'i' 'v' 'x' k).mapM letterValue? = some (digitShape 1 5 10 k) :=
    mapM_digitShape rfl rfl rfl
  rw [toList_romanFrom]
  simp only [List.mapM_append, hthousands, hhundreds, htens, hunits]
  rfl

/-- The values of three digits in a row, where those of a digit are at most ten times its unit. -/
theorem signedSum_digits {h t u : Nat} (hh : h < 10) (ht : t < 10) (hu : u < 10) :
    signedSum (digitShape 100 500 1000 h ++ (digitShape 10 50 100 t ++ digitShape 1 5 10 u)) =
      h * (100 : Nat) + (t * (10 : Nat) + u * (1 : Nat)) := by
  have hunits : ∀ v ∈ digitShape 10 50 100 t, ∀ w ∈ digitShape 1 5 10 u, w ≤ v := by
    intro v hv w hw
    rcases mem_digitShape hv with rfl | rfl | rfl <;> rcases mem_digitShape hw with rfl | rfl | rfl <;> decide
  have htens : ∀ v ∈ digitShape 100 500 1000 h, ∀ w ∈ digitShape 10 50 100 t ++ digitShape 1 5 10 u, w ≤ v := by
    intro v hv w hw
    have hv : 100 ≤ v := by rcases mem_digitShape hv with rfl | rfl | rfl <;> decide
    rcases List.mem_append.1 hw with hw | hw <;> rcases mem_digitShape hw with rfl | rfl | rfl <;> omega
  rw [signedSum_append htens, signedSum_append hunits]
  rw [signedSum_digitShape (p := 100) (by decide) hh, signedSum_digitShape (p := 10) (by decide) ht,
    signedSum_digitShape (p := 1) (by decide) hu]

/-- **A numeral is read as the number it was written for.** -/
theorem readRoman_romanFrom (n : Nat) : readRoman? (romanFrom romanDigits n).toList = some (n : Int) := by
  have hthousands : ∀ v ∈ List.replicate (n / 1000) 1000, ∀ w ∈ digitShape 100 500 1000 (n / 100 % 10) ++
      (digitShape 10 50 100 (n / 10 % 10) ++ digitShape 1 5 10 (n % 10)), w ≤ v := by
    intro v hv w hw
    obtain rfl := List.eq_of_mem_replicate hv
    rcases List.mem_append.1 hw with hw | hw
    · rcases mem_digitShape hw with rfl | rfl | rfl <;> decide
    · rcases List.mem_append.1 hw with hw | hw <;> rcases mem_digitShape hw with rfl | rfl | rfl <;> decide
  have hsum : (n : Int) = (n / 1000 : Nat) * (1000 : Nat) + ((n / 100 % 10 : Nat) * (100 : Nat) +
      ((n / 10 % 10 : Nat) * (10 : Nat) + (n % 10 : Nat) * (1 : Nat))) := by omega
  rw [readRoman?, mapM_romanFrom, Option.map_some, signedSum_append hthousands, signedSum_replicate,
    signedSum_digits (by omega) (by omega) (by omega), ← hsum]

theorem isRomanNumeral_romanFrom (n : Nat) : IsRomanNumeral (romanFrom romanDigits n) n where
  isRead := readRoman_romanFrom n
  noFourInARow c := by
    rw [dropWhile_romanFrom]
    exact not_replicate_infix_belowThousand c
  once c hc := by
    rw [dropWhile_romanFrom]
    exact count_belowThousand_le hc

theorem IsRomanNumeral.eq {s : String} {a b : Int} (ha : IsRomanNumeral s a) (hb : IsRomanNumeral s b) : a = b :=
  Option.some.inj (ha.isRead.symm.trans hb.isRead)

/-- **Roman numerals are faithful.** The numeral of a number, however great, is read as that number, has no letter more than
three times in a row after the thousands, and has each of the letters for five, fifty and five hundred there at most once. So
different numbers have different numerals. The numerals of words are of this sort if they are positive; the other ones are
empty. -/
theorem roman_faithful :
    (∀ n : Nat, IsRomanNumeral (romanFrom romanDigits n) n) ∧
    (∀ a b : Nat, romanFrom romanDigits a = romanFrom romanDigits b → a = b) ∧
    (∀ n : Int64, 1 ≤ n → IsRomanNumeral (roman n) n.toInt) ∧
    (∀ a b : Int64, 1 ≤ a → 1 ≤ b → roman a = roman b → a = b) ∧ ∀ n : Int64, n ≤ 0 → roman n = "" := by
  have hword : ∀ n : Int64, 1 ≤ n → IsRomanNumeral (roman n) n.toInt := by
    intro n hn
    have hnonneg : (n.toInt.toNat : Int) = n.toInt := Int.toNat_of_nonneg (by
      have hle : (1 : Int64).toInt ≤ n.toInt := Int64.le_iff_toInt_le.1 hn
      have hone : (1 : Int64).toInt = 1 := rfl
      omega)
    exact hnonneg ▸ isRomanNumeral_romanFrom n.toInt.toNat
  refine ⟨isRomanNumeral_romanFrom, fun a b h => ?_, hword, fun a b ha hb h => ?_, fun n hn => ?_⟩
  · have heq := (isRomanNumeral_romanFrom a).eq (h ▸ isRomanNumeral_romanFrom b)
    exact Int.ofNat.inj heq
  · exact Int64.toInt_inj.1 ((hword a ha).eq (h ▸ hword b hb))
  · have hle : n.toInt ≤ (0 : Int64).toInt := Int64.le_iff_toInt_le.1 hn
    rw [roman, Int.toNat_of_nonpos hle]
    rfl

/-- A numeral with three subtracted letters, one with none, and one which is empty. -/
theorem roman_faithful_1999 :
    IsRomanNumeral (roman 1999) 1999 ∧ roman 1999 ≠ roman 2021 ∧ roman (-7) = "" := by
  obtain ⟨-, -, hnumeral, hinjective, hempty⟩ := roman_faithful
  refine ⟨hnumeral 1999 (by decide), fun h => ?_, hempty (-7) (by decide)⟩
  exact absurd (hinjective 1999 2021 (by decide) (by decide) h) (by decide)

end Compositor.Text
