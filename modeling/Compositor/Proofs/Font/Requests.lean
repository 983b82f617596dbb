import Compositor.Font.Registry
import Compositor.Proofs.Measure.Decimals
import Mathlib.Data.List.Induction

/-!
# What a registry answers after other requests

A registry keeps the faces it has loaded under the normalised names of the fonts, and the fonts at a size under keys
made of such a name and the size. So a request may be served with what an earlier one has left. `answer_after_requests`
says what the answer has in common with that of a registry which has never been asked.

* Keys are texts. `keyAt_eq`: two of them are alike for the same name and size only, but for a sign which reads as a
  hyphen. `ToldApart` leaves these clashes out, and names which are those of the replacement for missing fonts;
* `Kept` says what a registry has kept of a list of requests. It is the invariant: `Kept.request` is the step, together
  with the answer, and `kept_serve` the induction over all requests.
-/

namespace Compositor.Registry

open Compositor.Measure

/-! ## Keys -/

section Keys

variable {a b : String} {s t : Dimen}

/-- The key of `a` at a negative size is that of `b` at the opposite size, the sign being read as the end of a name. -/
def Clash (a : String) (s : Dimen) (b : String) (t : Dimen) : Prop := s < 0 ∧ 0 < t ∧ t = -s ∧ b = a ++ "-"

/-- A list is cut in one way only at the last occurrence of an element. -/
theorem append_cons_inj_of_last {x : Char} {u v w z : List Char} (hv : x ∉ v) (hz : x ∉ z)
    (h : u ++ x :: v = w ++ x :: z) : u = w ∧ v = z := by
  obtain ⟨c, rfl, hc⟩ | ⟨c, rfl, hc⟩ := List.append_eq_append_iff.1 h
  · cases c with
    | nil => simp_all
    | cons d c => simp_all
  · cases c with
    | nil => simp_all
    | cons d c => simp_all

theorem signs_append_hyphen (s : Dimen) : signs s ++ ['-'] = '-' :: signs s := by
  unfold signs
  split
  · rfl
  · split <;> rfl

theorem toList_keyAt (a : String) (s : Dimen) :
    (keyAt a s).toList = (a.toList ++ signs s) ++ '-' :: numeral s.toInt.natAbs := by
  have hsigns : '-' :: (signs s ++ numeral s.toInt.natAbs) = signs s ++ '-' :: numeral s.toInt.natAbs := by
    rw [← List.cons_append, ← signs_append_hyphen, List.append_assoc, List.singleton_append]
  rw [keyAt, String.toList_append, String.toList_append, toList_formatScaled_eq, List.append_assoc, List.append_assoc,
    ← hsigns]
  rfl

theorem eq_neg_of_toInt (h : t.toInt = -s.toInt) : t = -s := by
  have hlow := t.le_toInt
  have hhigh := t.toInt_lt
  rw [← Int64.toInt_inj, Int64.toInt_neg, ← h, Int.bmod_eq_of_le] <;> omega

theorem clash_of_opposite (hs : s.toInt < 0) (hopposite : t.toInt = -s.toInt)
    (hname : a.toList ++ signs s = b.toList ++ signs t) : Clash a s b t := by
  have hhigh := t.toInt_lt
  have hmin : s ≠ Int64.minValue := by
    rintro rfl
    have hmin : Int64.minValue.toInt = -9223372036854775808 := rfl
    omega
  have htmin : t ≠ Int64.minValue := by
    rintro rfl
    have hmin : Int64.minValue.toInt = -9223372036854775808 := rfl
    omega
  have hneg : s < 0 := Int64.lt_iff_toInt_lt.2 hs
  have hpos : 0 < t := Int64.lt_iff_toInt_lt.2 (show 0 < t.toInt by omega)
  rw [signs, if_neg hmin, if_pos hneg, signs, if_neg htmin, if_neg (Int64.not_lt.2 (Int64.le_of_lt hpos)),
    List.append_nil] at hname
  refine ⟨hneg, hpos, eq_neg_of_toInt hopposite, String.toList_inj.1 ?_⟩
  rw [← hname, String.toList_append]
  rfl

/-- **The keys tell names and sizes apart**, but for the sign of a size. -/
theorem keyAt_eq (h : keyAt a s = keyAt b t) : (a = b ∧ s = t) ∨ Clash a s b t ∨ Clash b t a s := by
  have hlists := congrArg String.toList h
  rw [toList_keyAt, toList_keyAt] at hlists
  obtain ⟨hname, hnumeral⟩ := append_cons_inj_of_last hyphen_not_mem_numeral hyphen_not_mem_numeral hlists
  have hmagnitude : s.toInt.natAbs = t.toInt.natAbs := numeral_inj hnumeral
  rcases Int.lt_trichotomy s.toInt t.toInt with hlt | heq | hgt
  · exact .inr (.inl (clash_of_opposite (by omega) (by omega) hname))
  · obtain rfl : s = t := Int64.toInt_inj.1 heq
    exact .inl ⟨String.toList_inj.1 (List.append_cancel_right hname), rfl⟩
  · exact .inr (.inr (clash_of_opposite (by omega) (by omega) hname.symm))

end Keys

/-! ## Histories -/

section Histories

variable {shelf : FontShelf} {asked asked' : List (String × Dimen)} {p q : String × Dimen} {key : String}

/-- The registry which has never been asked. -/
def fresh (shelf : FontShelf) : Registry := { shelf }

def serve (r : Registry) (asked : List (String × Dimen)) : Registry :=
  asked.foldl (fun r q => (r.request q.1 q.2).2) r

/-- The requests a registry has to look up: all but those for the null font. -/
def wanted (asked : List (String × Dimen)) : List (String × Dimen) := asked.filter fun q => !isNullName q.1

/-- The names and sizes of which the keys are made while requests are served. -/
def slots (asked : List (String × Dimen)) : List (String × Dimen) :=
  (wanted asked).flatMap fun q => [(faceKey q.1, q.2), (fallbackKey, q.2)]

/-- No two fonts which requests ask for get in each other's way. -/
structure ToldApart (asked : List (String × Dimen)) : Prop where
  /-- No font has the name of the replacement. -/
  named : ∀ q ∈ wanted asked, faceKey q.1 ≠ fallbackKey
  /-- No sign is taken for a hyphen. -/
  sized : ∀ p ∈ slots asked, ∀ q ∈ slots asked, ¬ Clash p.1 p.2 q.1 q.2

theorem mem_wanted : q ∈ wanted asked ↔ q ∈ asked ∧ isNullName q.1 = false := by simp [wanted]

theorem mem_wanted_append (hq : q ∈ wanted asked) : q ∈ wanted (asked ++ asked') := by
  rw [mem_wanted] at hq ⊢
  exact ⟨List.mem_append_left _ hq.1, hq.2⟩

theorem mem_wanted_last (hq : isNullName q.1 = false) : q ∈ wanted (asked ++ [q]) :=
  mem_wanted.2 ⟨List.mem_append_right _ (List.mem_singleton_self q), hq⟩

theorem mem_slots_face (hq : q ∈ wanted asked) : (faceKey q.1, q.2) ∈ slots asked :=
  List.mem_flatMap.2 ⟨q, hq, by simp⟩

theorem mem_slots_fallback (hq : q ∈ wanted asked) : (fallbackKey, q.2) ∈ slots asked :=
  List.mem_flatMap.2 ⟨q, hq, by simp⟩

theorem ToldApart.mono (h : ToldApart asked')
    (hsub : ∀ q ∈ wanted asked, ∃ p ∈ wanted asked', faceKey q.1 = faceKey p.1 ∧ q.2 = p.2) : ToldApart asked := by
  have hslots : ∀ s ∈ slots asked, s ∈ slots asked' := by
    intro s hs
    obtain ⟨q, hq, hs⟩ := List.mem_flatMap.1 hs
    obtain ⟨p, hp, hkey, hsize⟩ := hsub q hq
    rw [hkey, hsize] at hs
    exact List.mem_flatMap.2 ⟨p, hp, hs⟩
  refine ⟨fun q hq => ?_, fun p hp q hq => h.sized p (hslots p hp) q (hslots q hq)⟩
  obtain ⟨p, hp, hkey, -⟩ := hsub q hq
  rw [hkey]
  exact h.named p hp

theorem ToldApart.slot_eq (h : ToldApart asked) (hp : p ∈ slots asked) (hq : q ∈ slots asked)
    (heq : keyAt p.1 p.2 = keyAt q.1 q.2) : p = q := by
  rcases keyAt_eq heq with ⟨hname, hsize⟩ | hclash | hclash
  · exact Prod.ext hname hsize
  · exact absurd hclash (h.sized p hp q hq)
  · exact absurd hclash (h.sized q hq p hp)

theorem ToldApart.of_nonneg (hnamed : ∀ q ∈ wanted asked, faceKey q.1 ≠ fallbackKey) (hsizes : ∀ q ∈ asked, 0 ≤ q.2) :
    ToldApart asked where
  named := hnamed
  sized s hs t _ hclash := by
    obtain ⟨q, hq, hs⟩ := List.mem_flatMap.1 hs
    have hsize : 0 ≤ s.2 := by
      have hnonneg := hsizes q (mem_wanted.1 hq).1
      rcases List.mem_pair.1 hs with rfl | rfl <;> exact hnonneg
    exact Int64.not_lt.2 hsize hclash.1

/-- The names under which a face has been asked for. -/
def spellings (asked : List (String × Dimen)) (key : String) : List String :=
  ((wanted asked).filter fun q => faceKey q.1 == key).map Prod.fst

/-- The face under a key: that of the first name asked for which there is one for. -/
def found (shelf : FontShelf) (asked : List (String × Dimen)) (key : String) : Option Typeface :=
  (spellings asked key).findSome? shelf.load

def faceFor (shelf : FontShelf) (asked : List (String × Dimen)) (name : String) (size : Dimen) : Option Face :=
  (found shelf asked (faceKey name)).bind (shelf.set? · (servedSize size))

theorem found_append (asked asked' : List (String × Dimen)) (key : String) :
    found shelf (asked ++ asked') key = (found shelf asked key).or (found shelf asked' key) := by
  simp only [found, spellings, wanted, List.filter_append, List.map_append, List.findSome?_append]

theorem found_singleton (hq : isNullName q.1 = false) :
    found shelf [q] key = if faceKey q.1 = key then shelf.load q.1 else none := by
  by_cases hkey : faceKey q.1 = key <;> simp [found, spellings, wanted, hq, hkey]

/-- A face which has been set at a size is used again. -/
theorem faceFor_append {name : String} {size : Dimen} {face : Face} (h : faceFor shelf asked name size = some face) :
    faceFor shelf (asked ++ asked') name size = some face := by
  unfold faceFor at h ⊢
  rw [found_append]
  cases hfound : found shelf asked (faceKey name) with
  | none => simp [hfound] at h
  | some typeface => simpa [hfound] using h

end Histories

/-! ## What is kept -/

section Keeping

variable {shelf : FontShelf} {r : Registry} {asked : List (String × Dimen)} {name : String} {size : Dimen}

def replacement (shelf : FontShelf) (size : Dimen) : Font :=
  .typecase (keyAt fallbackKey size) fallbackName (servedSize size) (shelf.builtIn (servedSize size))

/-- What a registry has kept of some requests. -/
structure Kept (shelf : FontShelf) (asked : List (String × Dimen)) (r : Registry) : Prop where
  sameShelf : r.shelf = shelf
  face? : ∀ key, key ≠ fallbackKey → r.face? key = found shelf asked key
  /-- A font at a size is that of an earlier request, or a replacement. -/
  typecase? : ∀ key f, r.typecase? key = some f →
    (∃ q ∈ wanted asked, key = keyAt (faceKey q.1) q.2 ∧ ∃ face, faceFor shelf asked q.1 q.2 = some face ∧
      f = .typecase key q.1 (servedSize q.2) face) ∨
    ∃ q ∈ wanted asked, key = keyAt fallbackKey q.2 ∧ f = replacement shelf q.2

theorem kept_fresh (shelf : FontShelf) : Kept shelf [] (fresh shelf) where
  sameShelf := rfl
  face? key hkey := rfl
  typecase? key f h := by simp [Registry.typecase?, fresh] at h

@[simp] theorem face?_keepFace (key other : String) (face : Typeface) :
    (r.keepFace key face).face? other = if other = key then some face else r.face? other := by
  unfold keepFace Registry.face?
  by_cases h : other = key <;> simp [List.lookup_cons, h, beq_eq_false_iff_ne.2]

@[simp] theorem typecase?_keepFace (key other : String) (face : Typeface) :
    (r.keepFace key face).typecase? other = r.typecase? other := rfl

@[simp] theorem face?_keepTypecase (key other : String) (f : Font) :
    (r.keepTypecase key f).face? other = r.face? other := rfl

@[simp] theorem typecase?_keepTypecase (key other : String) (f : Font) :
    (r.keepTypecase key f).typecase? other = if other = key then some f else r.typecase? other := by
  unfold keepTypecase Registry.typecase?
  by_cases h : other = key <;> simp [List.lookup_cons, h, beq_eq_false_iff_ne.2]

/-- A registry has kept as much of one more request if it has the same fonts, and the faces which it should have. -/
theorem Kept.concat {r' : Registry} (h : Kept shelf asked r) (q : String × Dimen) (hshelf : r'.shelf = r.shelf)
    (hfaces : ∀ key, key ≠ fallbackKey → r'.face? key = found shelf (asked ++ [q]) key)
    (htypecases : r'.typecases = r.typecases) : Kept shelf (asked ++ [q]) r' where
  sameShelf := hshelf.trans h.sameShelf
  face? := hfaces
  typecase? key f hf := by
    have hf : r.typecase? key = some f := by rwa [Registry.typecase?, htypecases] at hf
    rcases h.typecase? key f hf with ⟨p, hp, hkey, face, hface, hf⟩ | ⟨p, hp, hkey, hf⟩
    · exact .inl ⟨p, mem_wanted_append hp, hkey, face, faceFor_append hface, hf⟩
    · exact .inr ⟨p, mem_wanted_append hp, hkey, hf⟩

theorem Kept.keepTypecase {face : Face} (h : Kept shelf asked r) (hq : (name, size) ∈ wanted asked)
    (hface : faceFor shelf asked name size = some face) :
    Kept shelf asked
      (r.keepTypecase (keyAt (faceKey name) size)
        (.typecase (keyAt (faceKey name) size) name (servedSize size) face)) where
  sameShelf := h.sameShelf
  face? := h.face?
  typecase? key f hf := by
    rw [typecase?_keepTypecase] at hf
    split at hf
    · cases hf
      subst key
      exact .inl ⟨(name, size), hq, rfl, face, hface, rfl⟩
    · exact h.typecase? key f hf

/-- The font under the key of the replacement, if any, is the replacement at that size. -/
theorem Kept.eq_replacement {f : Font} (h : Kept shelf asked r) (happart : ToldApart asked)
    (hq : (name, size) ∈ wanted asked) (hf : r.typecase? (keyAt fallbackKey size) = some f) :
    f = replacement shelf size := by
  rcases h.typecase? _ f hf with ⟨p, hp, hkey, face, -, rfl⟩ | ⟨p, hp, hkey, rfl⟩
  · have hslot := happart.slot_eq (mem_slots_fallback hq) (mem_slots_face hp) hkey
    exact absurd (congrArg Prod.fst hslot).symm (happart.named p hp)
  · have hslot := happart.slot_eq (mem_slots_fallback hq) (mem_slots_fallback hp) hkey
    rw [show size = p.2 from congrArg Prod.snd hslot]

theorem Kept.fallback (h : Kept shelf asked r) (happart : ToldApart asked) (hq : (name, size) ∈ wanted asked) :
    (r.fallback name size).1 = ⟨some (replacement shelf size), some (missingFault name)⟩ ∧
      Kept shelf asked (r.fallback name size).2 := by
  cases hf : r.typecase? (keyAt fallbackKey size) with
  | some f =>
    simp only [Registry.fallback, hf]
    exact ⟨by rw [h.eq_replacement happart hq hf], h⟩
  | none =>
    simp only [Registry.fallback, hf, h.sameShelf]
    refine ⟨rfl, h.sameShelf, fun key hkey => ?_, fun key f hf => ?_⟩
    · simp only [face?_keepTypecase, face?_keepFace, if_neg hkey]
      exact h.face? key hkey
    · simp only [typecase?_keepTypecase, typecase?_keepFace] at hf
      split at hf
      · cases hf
        subst key
        exact .inr ⟨(name, size), hq, rfl, rfl⟩
      · exact h.typecase? key f hf

/-- The answer to the last of some requests. -/
structure Answers (shelf : FontShelf) (asked : List (String × Dimen)) (name : String) (size : Dimen)
    (answer : FontAnswer) : Prop where
  /-- The font may have been kept under another spelling of the name. -/
  fits : ∀ face, faceFor shelf asked name size = some face → ∃ spelling, (spelling, size) ∈ wanted asked ∧
    faceKey spelling = faceKey name ∧
    answer = ⟨some (.typecase (keyAt (faceKey name) size) spelling (servedSize size) face), none⟩
  replaces : faceFor shelf asked name size = none →
    answer = ⟨some (replacement shelf size), some (missingFault name)⟩

theorem Answers.of_set {spelling : String} {face : Face} (hq : (spelling, size) ∈ wanted asked)
    (hkey : faceKey spelling = faceKey name) (hset : faceFor shelf asked name size = some face) :
    Answers shelf asked name size
      ⟨some (.typecase (keyAt (faceKey name) size) spelling (servedSize size) face), none⟩ where
  fits other hother := by
    obtain rfl : face = other := Option.some.inj (hset.symm.trans hother)
    exact ⟨spelling, hq, hkey, rfl⟩
  replaces hnone := by simp [hset] at hnone

theorem Answers.of_unset (hunset : faceFor shelf asked name size = none) :
    Answers shelf asked name size ⟨some (replacement shelf size), some (missingFault name)⟩ where
  fits face hface := by simp [hunset] at hface
  replaces _ := rfl

theorem Kept.answers_kept {f : Font} (h : Kept shelf asked r) (hname : isNullName name = false)
    (happart : ToldApart (asked ++ [(name, size)])) (hf : r.typecase? (keyAt (faceKey name) size) = some f) :
    (faceFor shelf asked name size).isSome = true ∧
      Answers shelf (asked ++ [(name, size)]) name size ⟨some f, none⟩ := by
  have hlast : (name, size) ∈ wanted (asked ++ [(name, size)]) := mem_wanted_last hname
  rcases h.typecase? _ f hf with ⟨p, hp, hkey, face, hface, rfl⟩ | ⟨p, hp, hkey, rfl⟩
  · have hslot := happart.slot_eq (mem_slots_face hlast) (mem_slots_face (mem_wanted_append hp)) hkey
    have hsame : faceKey name = faceKey p.1 := congrArg Prod.fst hslot
    obtain rfl : size = p.2 := congrArg Prod.snd hslot
    have hface : faceFor shelf asked name p.2 = some face := by rwa [faceFor, hsame]
    have hlater : faceFor shelf (asked ++ [(name, p.2)]) name p.2 = some face := faceFor_append hface
    exact ⟨by rw [hface]; rfl, .of_set (mem_wanted_append hp) hsame.symm hlater⟩
  · have hslot := happart.slot_eq (mem_slots_face hlast) (mem_slots_fallback (mem_wanted_append hp)) hkey
    exact absurd (congrArg Prod.fst hslot) (happart.named (name, size) hlast)

theorem found_concat (asked : List (String × Dimen)) (hname : isNullName name = false) (key : String) :
    found shelf (asked ++ [(name, size)]) key =
      if key = faceKey name then (found shelf asked key).or (shelf.load name) else found shelf asked key := by
  rw [found_append, found_singleton hname]
  by_cases hkey : key = faceKey name
  · simp [hkey]
  · simp [hkey, Ne.symm hkey]

theorem request_null (hname : isNullName name = true) : r.request name size = (⟨some .null, none⟩, r) := by
  simp [Registry.request, hname]

theorem request_kept {f : Font} (hname : isNullName name = false)
    (hf : r.typecase? (keyAt (faceKey name) size) = some f) : r.request name size = (⟨some f, none⟩, r) := by
  simp [Registry.request, hname, hf]

theorem request_new (hname : isNullName name = false) (hf : r.typecase? (keyAt (faceKey name) size) = none) :
    r.request name size = r.derive name size := by
  simp [Registry.request, hname, hf]

theorem derive_none (h : (r.face? (faceKey name) <|> r.shelf.load name) = none) :
    r.derive name size = r.fallback name size := by
  simp only [Registry.derive, h]

theorem derive_unset {typeface : Typeface} (h : (r.face? (faceKey name) <|> r.shelf.load name) = some typeface)
    (hset : r.shelf.set? typeface (servedSize size) = none) :
    r.derive name size = (r.keepFace (faceKey name) typeface).fallback name size := by
  have hset : (r.keepFace (faceKey name) typeface).shelf.set? typeface (servedSize size) = none := hset
  simp only [Registry.derive, h, hset]

theorem derive_set {typeface : Typeface} {face : Face}
    (h : (r.face? (faceKey name) <|> r.shelf.load name) = some typeface)
    (hset : r.shelf.set? typeface (servedSize size) = some face) :
    r.derive name size =
      (⟨some (.typecase (keyAt (faceKey name) size) name (servedSize size) face), none⟩,
        (r.keepFace (faceKey name) typeface).keepTypecase (keyAt (faceKey name) size)
          (.typecase (keyAt (faceKey name) size) name (servedSize size) face)) := by
  have hset : (r.keepFace (faceKey name) typeface).shelf.set? typeface (servedSize size) = some face := hset
  simp only [Registry.derive, h, hset]

/-- Nothing is kept of a name for which there is no face. -/
theorem Kept.unfound (h : Kept shelf asked r) (hname : isNullName name = false)
    (hfound : found shelf (asked ++ [(name, size)]) (faceKey name) = none) : Kept shelf (asked ++ [(name, size)]) r := by
  refine h.concat (name, size) rfl (fun key hkey => ?_) rfl
  rw [h.face? key hkey, found_concat asked hname]
  split
  · subst key
    rw [found_concat asked hname, if_pos rfl] at hfound
    rw [hfound]
    exact (Option.or_eq_none_iff.1 hfound).1
  · rfl

theorem Kept.keepFace {typeface : Typeface} (h : Kept shelf asked r) (hname : isNullName name = false)
    (hfound : found shelf (asked ++ [(name, size)]) (faceKey name) = some typeface) :
    Kept shelf (asked ++ [(name, size)]) (r.keepFace (faceKey name) typeface) := by
  refine h.concat (name, size) rfl (fun key hkey => ?_) rfl
  rw [face?_keepFace]
  split
  · subst key
    exact hfound.symm
  · rename_i hother
    rw [h.face? key hkey, found_concat asked hname, if_neg hother]

/-- Without a font at the size, one is derived from the face which has been found by now, if any. -/
theorem Kept.derive (h : Kept shelf asked r) (hname : isNullName name = false)
    (happart : ToldApart (asked ++ [(name, size)])) :
    Answers shelf (asked ++ [(name, size)]) name size (r.derive name size).1 ∧
      Kept shelf (asked ++ [(name, size)]) (r.derive name size).2 := by
  have hlast : (name, size) ∈ wanted (asked ++ [(name, size)]) := mem_wanted_last hname
  have hnamed : faceKey name ≠ fallbackKey := happart.named (name, size) hlast
  have hface : (r.face? (faceKey name) <|> r.shelf.load name) =
      found shelf (asked ++ [(name, size)]) (faceKey name) := by
    rw [found_concat asked hname, if_pos rfl, h.face? _ hnamed, h.sameShelf]
    cases found shelf asked (faceKey name) <;> rfl
  have hfor : faceFor shelf (asked ++ [(name, size)]) name size =
      (found shelf (asked ++ [(name, size)]) (faceKey name)).bind (shelf.set? · (servedSize size)) := rfl
  cases hfound : found shelf (asked ++ [(name, size)]) (faceKey name) with
  | none =>
    rw [hfound] at hface hfor
    rw [derive_none hface]
    obtain ⟨hanswer, hkept⟩ := (h.unfound hname hfound).fallback happart hlast
    exact ⟨hanswer ▸ .of_unset hfor, hkept⟩
  | some typeface =>
    rw [hfound, Option.bind_some] at hfor
    rw [hfound] at hface
    have hkept := h.keepFace hname hfound
    -- the face is kept in any case, also if it cannot be set at this size
    cases hset : shelf.set? typeface (servedSize size) with
    | some face =>
      rw [hset] at hfor
      rw [derive_set hface (by rwa [h.sameShelf])]
      exact ⟨.of_set hlast rfl hfor, hkept.keepTypecase hlast hfor⟩
    | none =>
      rw [hset] at hfor
      rw [derive_unset hface (by rwa [h.sameShelf])]
      obtain ⟨hanswer, hkept⟩ := hkept.fallback happart hlast
      exact ⟨hanswer ▸ .of_unset hfor, hkept⟩

/-- **A registry keeps what it should, and answers with it.** -/
theorem Kept.request (h : Kept shelf asked r) (hname : isNullName name = false)
    (happart : ToldApart (asked ++ [(name, size)])) :
    Answers shelf (asked ++ [(name, size)]) name size (r.request name size).1 ∧
      Kept shelf (asked ++ [(name, size)]) (r.request name size).2 := by
  cases hf : r.typecase? (keyAt (faceKey name) size) with
  | none =>
    rw [request_new hname hf]
    exact h.derive hname happart
  | some f =>
    obtain ⟨hserved, hanswers⟩ := h.answers_kept hname happart hf
    rw [request_kept hname hf]
    refine ⟨hanswers, h.concat (name, size) rfl (fun key hkey => ?_) rfl⟩
    rw [h.face? key hkey, found_concat asked hname]
    split
    · subst key
      unfold faceFor at hserved
      cases hfound : found shelf asked (faceKey name) with
      | none => simp [hfound] at hserved
      | some typeface => rfl
    · rfl

theorem serve_concat (r : Registry) (asked : List (String × Dimen)) (q : String × Dimen) :
    r.serve (asked ++ [q]) = ((r.serve asked).request q.1 q.2).2 := by
  rw [serve, List.foldl_append]
  rfl

theorem wanted_concat_null (asked : List (String × Dimen)) (size : Dimen) (hname : isNullName name = true) :
    wanted (asked ++ [(name, size)]) = wanted asked := by
  simp [wanted, hname]

/-- What holds of a list of requests does not depend on requests for the null font. -/
theorem Kept.concat_null (h : Kept shelf asked r) (hname : isNullName name = true) :
    Kept shelf (asked ++ [(name, size)]) r := by
  have hwanted := wanted_concat_null asked size hname
  refine h.concat (name, size) rfl (fun key hkey => ?_) rfl
  rw [h.face? key hkey, found, found, spellings, spellings, hwanted]

/-- **Whatever has been asked for, the registry has kept of it what it should.** -/
theorem kept_serve (shelf : FontShelf) (asked : List (String × Dimen)) (happart : ToldApart asked) :
    Kept shelf asked ((fresh shelf).serve asked) := by
  induction asked using List.reverseRecOn with
  | nil => exact kept_fresh shelf
  | append_singleton asked q ih =>
    have hbefore : ToldApart asked := happart.mono fun p hp => ⟨p, mem_wanted_append hp, rfl, rfl⟩
    rw [serve_concat]
    cases hname : isNullName q.1 with
    | true =>
      rw [request_null hname]
      exact (ih hbefore).concat_null hname
    | false => exact ((ih hbefore).request hname happart).2

end Keeping

/-! ## Answers -/

section Answering

variable {shelf : FontShelf} {asked : List (String × Dimen)} {name : String} {size : Dimen} {answer : FontAnswer}

def answerAfter (shelf : FontShelf) (asked : List (String × Dimen)) (name : String) (size : Dimen) : FontAnswer :=
  (((fresh shelf).serve asked).request name size).1

/-- The spelling of a name whose face is used: the first one asked for which there is a face for. -/
def pioneer (shelf : FontShelf) (asked : List (String × Dimen)) (name : String) : String :=
  if isNullName name then name
  else ((spellings asked (faceKey name) ++ [name]).find? fun spelling => (shelf.load spelling).isSome).getD name

theorem answerAfter_null (shelf : FontShelf) (asked : List (String × Dimen)) (size : Dimen)
    (hname : isNullName name = true) : answerAfter shelf asked name size = ⟨some .null, none⟩ := by
  rw [answerAfter, request_null hname]

theorem answers_after (shelf : FontShelf) (hname : isNullName name = false) (happart : ToldApart (asked ++ [(name, size)])) :
    Answers shelf (asked ++ [(name, size)]) name size (answerAfter shelf asked name size) := by
  have hbefore : ToldApart asked := happart.mono fun p hp => ⟨p, mem_wanted_append hp, rfl, rfl⟩
  exact ((kept_serve shelf asked hbefore).request hname happart).1

theorem Answers.font_size (h : Answers shelf asked name size answer) :
    answer.font.map Font.size = some (servedSize size) := by
  cases hface : faceFor shelf asked name size with
  | some face =>
    obtain ⟨spelling, -, -, rfl⟩ := h.fits face hface
    rfl
  | none =>
    rw [h.replaces hface]
    rfl

theorem Answers.fault_isSome (h : Answers shelf asked name size answer) :
    answer.fault.isSome = !(faceFor shelf asked name size).isSome := by
  cases hface : faceFor shelf asked name size with
  | some face =>
    obtain ⟨spelling, -, -, rfl⟩ := h.fits face hface
    rfl
  | none =>
    rw [h.replaces hface]
    rfl

/-- If a name has only been spelled in one way, there is but one answer. -/
theorem Answers.eq_of_spelled (h : Answers shelf asked name size answer)
    (hspelled : ∀ q ∈ wanted asked, faceKey q.1 = faceKey name → q.1 = name) :
    answer =
      match faceFor shelf asked name size with
      | some face => ⟨some (.typecase (keyAt (faceKey name) size) name (servedSize size) face), none⟩
      | none => ⟨some (replacement shelf size), some (missingFault name)⟩ := by
  cases hface : faceFor shelf asked name size with
  | some face =>
    obtain ⟨spelling, hmem, hkey, rfl⟩ := h.fits face hface
    obtain rfl : spelling = name := hspelled (spelling, size) hmem hkey
    rfl
  | none => exact h.replaces hface

theorem findSome?_eq_bind_find? {α β : Type} (f : α → Option β) (l : List α) :
    l.findSome? f = (l.find? fun x => (f x).isSome).bind f := by
  induction l with
  | nil => rfl
  | cons x l ih => cases hx : f x <;> simp [hx, ih]

theorem mem_spellings {spelling key : String} :
    spelling ∈ spellings asked key ↔ (∃ size, (spelling, size) ∈ wanted asked) ∧ faceKey spelling = key := by
  simp [spellings]

/-- The name under which a face has been found first is a spelling of the name asked for. -/
theorem pioneer_spells (shelf : FontShelf) (asked : List (String × Dimen)) (hname : isNullName name = false) :
    isNullName (pioneer shelf asked name) = false ∧ faceKey (pioneer shelf asked name) = faceKey name := by
  simp only [pioneer, hname]
  cases hfind : (spellings asked (faceKey name) ++ [name]).find? fun spelling => (shelf.load spelling).isSome with
  | none => exact ⟨hname, rfl⟩
  | some spelling =>
    rcases List.mem_append.1 (List.mem_of_find?_eq_some hfind) with hmem | hmem
    · obtain ⟨⟨size, hwanted⟩, hkey⟩ := mem_spellings.1 hmem
      exact ⟨(mem_wanted.1 hwanted).2, hkey⟩
    · obtain rfl := List.mem_singleton.1 hmem
      exact ⟨hname, rfl⟩

theorem pioneer_eq (shelf : FontShelf) (hspelled : ∀ q ∈ wanted asked, faceKey q.1 = faceKey name → q.1 = name) :
    pioneer shelf asked name = name := by
  unfold pioneer
  split
  · rfl
  · cases hfind : (spellings asked (faceKey name) ++ [name]).find? fun spelling => (shelf.load spelling).isSome with
    | none => rfl
    | some spelling =>
      rcases List.mem_append.1 (List.mem_of_find?_eq_some hfind) with hmem | hmem
      · obtain ⟨⟨size, hwanted⟩, hkey⟩ := mem_spellings.1 hmem
        exact hspelled _ hwanted hkey
      · exact List.mem_singleton.1 hmem

theorem found_pioneer (shelf : FontShelf) (asked : List (String × Dimen)) (hname : isNullName name = false) :
    found shelf (asked ++ [(name, size)]) (faceKey name) = shelf.load (pioneer shelf asked name) := by
  have hspellings : spellings (asked ++ [(name, size)]) (faceKey name) = spellings asked (faceKey name) ++ [name] := by
    simp [spellings, wanted, hname]
  simp only [pioneer, hname]
  rw [found, hspellings, findSome?_eq_bind_find?]
  cases hfind : (spellings asked (faceKey name) ++ [name]).find? fun spelling => (shelf.load spelling).isSome with
  | some spelling => rfl
  | none =>
    have hnone := List.find?_eq_none.1 hfind name (by simp)
    exact (Option.not_isSome_iff_eq_none.1 hnone).symm

/-- The face for a request is the one which a fresh registry has for the first spelling. -/
theorem faceFor_pioneer (shelf : FontShelf) (asked : List (String × Dimen)) (size : Dimen)
    (hname : isNullName name = false) :
    faceFor shelf [(pioneer shelf asked name, size)] (pioneer shelf asked name) size =
      faceFor shelf (asked ++ [(name, size)]) name size := by
  obtain ⟨hnull, -⟩ := pioneer_spells shelf asked hname
  unfold faceFor
  rw [found_pioneer shelf asked hname, found_singleton hnull, if_pos rfl]

/-- A single request for the same face at the same size is told apart as well. -/
theorem ToldApart.alone {other : String} (h : ToldApart (asked ++ [(name, size)])) (hname : isNullName name = false)
    (hkey : faceKey other = faceKey name) : ToldApart ([] ++ [(other, size)]) := by
  refine h.mono fun p hp => ⟨(name, size), mem_wanted_last hname, ?_⟩
  obtain rfl : p = (other, size) := by simpa using (mem_wanted.1 hp).1
  exact ⟨hkey, rfl⟩

/-- **What earlier requests have to do with an answer.** Suppose that the requests are told apart. Then a registry which
has been asked for some fonts answers a request with a font of the same size as a fresh registry. There is a fault if and
only if a fresh registry has one for the first spelling of the name under which there is a face. With a fault comes the
replacement, and without it a font which is called by a spelling of the name that was asked for at the same size, and has
the face of the first spelling. If the name has been spelled in one way only, the answer is that of a fresh registry. -/
theorem answer_after_requests (shelf : FontShelf) (asked : List (String × Dimen)) (name : String) (size : Dimen)
    (happart : ToldApart (asked ++ [(name, size)])) :
    (answerAfter shelf asked name size).font.map Font.size = (answerAfter shelf [] name size).font.map Font.size ∧
      (answerAfter shelf asked name size).fault.isSome =
        (answerAfter shelf [] (pioneer shelf asked name) size).fault.isSome ∧
      ((answerAfter shelf asked name size).fault.isSome = true →
        (answerAfter shelf asked name size).font.map Font.name = some fallbackName ∧
          (answerAfter shelf asked name size).font.bind Font.face? = some (shelf.builtIn (servedSize size))) ∧
      (isNullName name = false → (answerAfter shelf asked name size).fault = none →
        ∃ spelling, (spelling, size) ∈ asked ++ [(name, size)] ∧ faceKey spelling = faceKey name ∧
          (answerAfter shelf asked name size).font.map Font.name = some spelling ∧
          (answerAfter shelf asked name size).font.bind Font.face? =
            (shelf.load (pioneer shelf asked name)).bind (shelf.set? · (servedSize size))) ∧
      ((∀ q ∈ wanted asked, faceKey q.1 = faceKey name → q.1 = name) →
        answerAfter shelf asked name size = answerAfter shelf [] name size) := by
  cases hname : isNullName name with
  | true =>
    have hpioneer : pioneer shelf asked name = name := by simp [pioneer, hname]
    rw [hpioneer, answerAfter_null shelf asked size hname, answerAfter_null shelf [] size hname]
    simp
  | false =>
    have hlast : (name, size) ∈ wanted (asked ++ [(name, size)]) := mem_wanted_last hname
    have hanswers := answers_after shelf hname happart
    have hplain := answers_after shelf hname (happart.alone hname rfl)
    obtain ⟨hnull, hkey⟩ := pioneer_spells shelf asked hname
    have hfirst := answers_after shelf hnull (happart.alone hname hkey)
    refine ⟨?_, ?_, fun hfault => ?_, fun _ hfault => ?_, fun hspelled => ?_⟩
    · rw [hanswers.font_size, hplain.font_size]
    · rw [hanswers.fault_isSome, hfirst.fault_isSome, List.nil_append, faceFor_pioneer shelf asked size hname]
    · rw [hanswers.fault_isSome, Bool.not_eq_true', Option.isSome_eq_false_iff, Option.isNone_iff_eq_none] at hfault
      rw [hanswers.replaces hfault]
      exact ⟨rfl, rfl⟩
    · have hserved : (faceFor shelf (asked ++ [(name, size)]) name size).isSome = true := by
        simpa [hfault] using hanswers.fault_isSome
      obtain ⟨face, hface⟩ := Option.isSome_iff_exists.1 hserved
      obtain ⟨spelling, hmem, hkey, hanswer⟩ := hanswers.fits face hface
      refine ⟨spelling, (mem_wanted.1 hmem).1, hkey, by rw [hanswer]; rfl, ?_⟩
      have hfound : found shelf (asked ++ [(name, size)]) (faceKey name) = shelf.load (pioneer shelf asked name) :=
        found_pioneer shelf asked hname
      rw [hanswer, ← hfound]
      exact hface.symm
    · have hserved := faceFor_pioneer shelf asked size hname
      rw [pioneer_eq shelf hspelled] at hserved
      have hlast : ∀ q ∈ wanted (asked ++ [(name, size)]), faceKey q.1 = faceKey name → q.1 = name := by
        intro q hq hkey
        obtain ⟨hmem, hnull⟩ := mem_wanted.1 hq
        rcases List.mem_append.1 hmem with hmem | hmem
        · exact hspelled q (mem_wanted.2 ⟨hmem, hnull⟩) hkey
        · rw [List.mem_singleton.1 hmem]
      have honly : ∀ q ∈ wanted ([] ++ [(name, size)]), faceKey q.1 = faceKey name → q.1 = name := by
        intro q hq _
        rw [List.mem_singleton.1 (mem_wanted.1 hq).1]
      rw [hanswers.eq_of_spelled hlast, hplain.eq_of_spelled honly, List.nil_append, hserved]

/-- A shelf with one font file, whose face has the blank of Go Regular at 10pt, and a box for all else. -/
def smallShelf : FontShelf :=
  .single "gofont.ttf" "Go Regular" fun _ =>
    { listed := [(0x20, ⟨some 178, some ⟨178, 0, 0, 0⟩⟩)], unlisted := ⟨some 482, some ⟨482, 401, -401, 0⟩⟩ }

/-- After a request which has been served, and one which has not, another spelling is served at another size. -/
theorem answer_to_other_spelling :
    (answerAfter smallShelf [("gofont", 655360), ("zzqq", 655360)] "GOFONT" 786432).fault.isSome =
      (answerAfter smallShelf []
        (pioneer smallShelf [("gofont", 655360), ("zzqq", 655360)] "GOFONT") 786432).fault.isSome := by
  have happart : ToldApart ([("gofont", 655360), ("zzqq", 655360)] ++ [("GOFONT", 786432)]) :=
    .of_nonneg (by decide +kernel) (by decide)
  exact (answer_after_requests smallShelf _ _ _ happart).2.1

/-- A font which has been found under one spelling of its name is there under all others. -/
theorem answerAfter_respelled {other : String} {typeface : Typeface} {face : Face} (hname : isNullName name = false)
    (hother : isNullName other = false) (hkey : faceKey other = faceKey name) (hload : shelf.load name = some typeface)
    (hset : shelf.set? typeface (servedSize size) = some face) :
    answerAfter shelf [(name, size)] other size =
      ⟨some (.typecase (keyAt (faceKey name) size) name (servedSize size) face), none⟩ := by
  have hserve : (fresh shelf).serve [(name, size)] =
      ((fresh shelf).keepFace (faceKey name) typeface).keepTypecase (keyAt (faceKey name) size)
        (.typecase (keyAt (faceKey name) size) name (servedSize size) face) := by
    have hface : ((fresh shelf).face? (faceKey name) <|> (fresh shelf).shelf.load name) = some typeface := hload
    show ((fresh shelf).request name size).2 = _
    rw [request_new hname rfl, derive_set hface hset]
  rw [answerAfter, hserve, request_kept hother]
  rw [hkey, typecase?_keepTypecase, if_pos rfl]

/-- Capital letters share the font of small ones, which a fresh registry would not have found. -/
theorem respelled_font_is_shared :
    (answerAfter smallShelf [("gofont", 655360)] "GOFONT" 655360).font.map Font.name = some "gofont" ∧
      (answerAfter smallShelf [("gofont", 655360)] "GOFONT" 655360).fault = none ∧
      (answerAfter smallShelf [] "GOFONT" 655360).font.map Font.name = some "Go Sans" ∧
      (answerAfter smallShelf [] "GOFONT" 655360).fault.isSome = true := by
  have hsmall : faceKey "gofont" = "gofont" := by decide +kernel
  have hcapital : faceKey "GOFONT" = "gofont" := by decide +kernel
  have hload : smallShelf.load "gofont" = some (.file "gofont.ttf") := by decide +kernel
  have hshared : answerAfter smallShelf [("gofont", 655360)] "GOFONT" 655360 = _ :=
    answerAfter_respelled (by decide +kernel) (by decide +kernel) (hcapital.trans hsmall.symm) hload rfl
  rw [hshared]
  exact ⟨rfl, rfl, by decide +kernel, by decide +kernel⟩

end Answering

end Compositor.Registry
