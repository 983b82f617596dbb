import Compositor.Proofs.Engine.Selectors

/-!
# What box registers deliver

A box register keeps the box which has been stored in it until it delivers it, unless it delivers copies only. But to make
the register void is a local assignment, and the groups around still show the box if it was stored outside of the innermost
group. The end of the group brings it back.

* `shownAfter` is the history of a register, as the trace tells it: which stored box it shows in each of the open groups;
* `shownAfter_append` says what becomes of it later, in the groups opened since and in those around them, and
  `notMem_shownAfter` that a box which no group shows never comes back;
* `Engine.KnowsBoxes` is what all steps keep: the registers are what the history says, and so is everything which they have
  delivered;
* `register_delivers_shown_box` is the statement about all runs with the built-in primitives.
-/

namespace Compositor

/-! ## The history of a register -/

/-- A box which has been stored in a register, with the number of entries which the trace had before. -/
structure StoredBox where
  number : Nat
  box : Box
deriving DecidableEq, Repr

namespace TraceEntry

/-- What a register shows in the open groups, the innermost first, after what the entry with this number tells. -/
def noteBox (name : String) (number : Nat) (shown : List (Option StoredBox)) : TraceEntry → List (Option StoredBox)
  | groupOpened => shown.head?.toList ++ shown
  | groupClosed => shown.tail
  | boxStored stored box globally =>
    if stored = name then assigned shown (box.map fun box => ⟨number, box⟩) globally else shown
  | boxTaken taken _ keeps => if taken = name ∧ keeps = false then assigned shown none false else shown
  | _ => shown

/-- The register is assigned in all groups. -/
def storesGlobally (name : String) : TraceEntry → Bool
  | boxStored stored _ globally => stored == name && globally
  | _ => false

/-- A box is stored or delivered. -/
def isOfBox : TraceEntry → Bool
  | boxStored _ _ _ | boxTaken _ _ _ => true
  | _ => false

/-- Something is delivered from a register. -/
def isDelivery : TraceEntry → Bool
  | boxTaken _ _ _ => true
  | _ => false

variable {name : String} {number : Nat} {shown : List (Option StoredBox)} {entry : TraceEntry}

theorem noteBox_of_isQuiet (h : entry.isQuiet = true) : entry.noteBox name number shown = shown := by
  cases entry <;> first | rfl | cases h

theorem isDelivery_of_isQuiet (h : entry.isQuiet = true) : entry.isDelivery = false := by
  cases entry <;> first | rfl | cases h

end TraceEntry

/-- What a register shows in the open groups, the innermost first, after all that a trace tells. -/
def shownAfter (name : String) : List TraceEntry → List (Option StoredBox)
  | [] => [none]
  | entry :: earlier => entry.noteBox name earlier.length (shownAfter name earlier)

def shown? (name : String) (trace : List TraceEntry) : Option StoredBox := (shownAfter name trace).head?.join

/-- A box has been stored when the trace had so many entries, or later. -/
def SinceEntry (number : Nat) (v : Option StoredBox) : Prop := ∀ b ∈ v, number ≤ b.number

section History

variable {name : String} {trace earlier later : List TraceEntry} {b : StoredBox} {v first : Option StoredBox}
  {outer : List (Option StoredBox)}

theorem shownAfter_cons (name : String) (entry : TraceEntry) (earlier : List TraceEntry) :
    shownAfter name (entry :: earlier) = entry.noteBox name earlier.length (shownAfter name earlier) := rfl

theorem map_assigned {α β : Type} (f : α → β) (values : List α) (v : α) (globally : Bool) :
    (assigned values v globally).map f = assigned (values.map f) (f v) globally := by
  cases globally with
  | true => simp [assigned, Function.comp_def]
  | false => simp [assigned]

theorem mem_of_shown? (h : shown? name trace = some b) : some b ∈ shownAfter name trace :=
  List.mem_of_mem_head? (Option.mem_def.2 (Option.join_eq_some_iff.1 h))

theorem shownAfter_quiet {new : List TraceEntry} (h : ∀ entry ∈ new, entry.isQuiet = true) :
    shownAfter name (new ++ earlier) = shownAfter name earlier := by
  induction new with
  | nil => rfl
  | cons entry new ih =>
    rw [List.cons_append, shownAfter_cons, ih fun entry hentry => h entry (by simp [hentry])]
    exact TraceEntry.noteBox_of_isQuiet (h entry (by simp))

/-- What a register shows after an entry is what it has shown before in some group, or nothing, or a box which the entry
stores. -/
theorem mem_noteBox {entry : TraceEntry} {number : Nat} {shown : List (Option StoredBox)}
    (h : v ∈ entry.noteBox name number shown) :
    v ∈ shown ∨ v = none ∨
      ∃ box globally, v = some ⟨number, box⟩ ∧ entry = .boxStored name (some box) globally := by
  have hassigned : ∀ {w : Option StoredBox} {globally : Bool}, v ∈ assigned shown w globally → v = w ∨ v ∈ shown := by
    intro w globally hv
    rw [assigned] at hv
    split at hv
    · obtain ⟨_, -, rfl⟩ := List.mem_map.1 hv
      exact .inl rfl
    · exact (List.mem_cons.1 hv).imp_right List.mem_of_mem_tail
  cases entry with
  | groupOpened =>
    rcases List.mem_append.1 h with hv | hv
    · exact .inl (List.mem_of_mem_head? (Option.mem_toList.1 hv))
    · exact .inl hv
  | groupClosed => exact .inl (List.mem_of_mem_tail h)
  | boxStored stored box globally =>
    rw [TraceEntry.noteBox] at h
    split at h
    · next heq =>
      subst heq
      rcases hassigned h with rfl | hv
      · cases box with
        | none => exact .inr (.inl rfl)
        | some box => exact .inr (.inr ⟨box, globally, rfl, rfl⟩)
      · exact .inl hv
    · exact .inl h
  | boxTaken taken box keeps =>
    rw [TraceEntry.noteBox] at h
    split at h
    · exact (hassigned h).elim (fun hv => .inr (.inl hv)) .inl
    · exact .inl h
  | _ => exact .inl h

theorem exists_stored (h : some b ∈ shownAfter name trace) :
    ∃ newer globally older, trace = newer ++ .boxStored name (some b.box) globally :: older ∧ older.length = b.number := by
  induction trace with
  | nil => cases List.mem_singleton.1 h
  | cons entry trace ih =>
    rcases mem_noteBox h with h | h | ⟨box, globally, heq, rfl⟩
    · obtain ⟨newer, globally, older, rfl, hnumber⟩ := ih h
      exact ⟨entry :: newer, globally, older, rfl, hnumber⟩
    · cases h
    · cases heq
      exact ⟨[], globally, trace, rfl, rfl⟩

theorem number_lt (h : some b ∈ shownAfter name trace) : b.number < trace.length := by
  obtain ⟨newer, globally, older, rfl, hnumber⟩ := exists_stored h
  rw [List.length_append, List.length_cons]
  omega

/-- Later the register shows in some group what it has shown, or nothing, or a box which has been stored since. -/
theorem mem_shownAfter_append (h : v ∈ shownAfter name (later ++ earlier)) :
    v ∈ shownAfter name earlier ∨ SinceEntry earlier.length v := by
  induction later with
  | nil => exact .inl h
  | cons entry later ih =>
    rcases mem_noteBox h with h | rfl | ⟨box, globally, rfl, -⟩
    · exact ih h
    · exact .inr (by simp [SinceEntry])
    · refine .inr fun b hb => ?_
      obtain rfl := Option.some.inj hb
      simp

/-- **A box which no group shows never comes back.** -/
theorem notMem_shownAfter (hnumber : b.number < earlier.length) (h : some b ∉ shownAfter name earlier) :
    some b ∉ shownAfter name (later ++ earlier) := by
  intro hlater
  rcases mem_shownAfter_append hlater with hearlier | hsince
  · exact h hearlier
  · exact Nat.not_le.2 hnumber (hsince b rfl)

/-- In as many groups a register shows what it has shown in some of them, or nothing, or a box which has been stored
since. -/
structure Renews (number : Nat) (shown shown' : List (Option StoredBox)) : Prop where
  length : shown'.length = shown.length
  mem : ∀ v ∈ shown', v ∈ shown ∨ SinceEntry number v

theorem Renews.refl (number : Nat) (shown : List (Option StoredBox)) : Renews number shown shown := ⟨rfl, fun _ => .inl⟩

theorem renews_map {number : Nat} (hv : SinceEntry number v) (shown : List (Option StoredBox)) :
    Renews number shown (shown.map fun _ => v) := by
  refine ⟨List.length_map .., fun w hw => ?_⟩
  obtain ⟨_, -, rfl⟩ := List.mem_map.1 hw
  exact .inr hv

/-- An assignment leaves the groups around some inner ones alone, unless it is global. -/
theorem assigned_append {number : Nat} {inner : List (Option StoredBox)} (hv : SinceEntry number v) (hinner : inner ≠ [])
    (outer : List (Option StoredBox)) (globally : Bool) :
    ∃ inner' outer', assigned (inner ++ outer) v globally = inner' ++ outer' ∧ Renews number inner inner' ∧
      Renews number outer outer' ∧ (globally = false → outer' = outer) := by
  cases globally with
  | true => exact ⟨_, _, List.map_append, renews_map hv inner, renews_map hv outer, nofun⟩
  | false =>
    obtain ⟨w, inner, rfl⟩ := List.exists_cons_of_ne_nil hinner
    refine ⟨v :: inner, outer, rfl, ⟨rfl, fun u hu => ?_⟩, .refl number outer, fun _ => rfl⟩
    rcases List.mem_cons.1 hu with rfl | hu
    · exact .inr hv
    · exact .inl (List.mem_cons_of_mem w hu)

theorem noteBox_append {entry : TraceEntry} {number : Nat} {inner : List (Option StoredBox)} (hopened : entry ≠ .groupOpened)
    (hclosed : entry ≠ .groupClosed) (hinner : inner ≠ []) (outer : List (Option StoredBox)) :
    ∃ inner' outer', entry.noteBox name number (inner ++ outer) = inner' ++ outer' ∧ Renews number inner inner' ∧
      Renews number outer outer' ∧ (entry.storesGlobally name = false → outer' = outer) := by
  have hsame : ∃ inner' outer', inner ++ outer = inner' ++ outer' ∧ Renews number inner inner' ∧
      Renews number outer outer' ∧ (entry.storesGlobally name = false → outer' = outer) :=
    ⟨inner, outer, rfl, .refl number inner, .refl number outer, fun _ => rfl⟩
  cases entry with
  | groupOpened => exact absurd rfl hopened
  | groupClosed => exact absurd rfl hclosed
  | boxStored stored box globally =>
    rw [TraceEntry.noteBox]
    split
    · next heq =>
      have hsince : SinceEntry number (box.map fun box => ⟨number, box⟩) := by
        intro b hb
        obtain ⟨box, -, rfl⟩ := Option.map_eq_some_iff.1 hb
        exact Nat.le_refl number
      obtain ⟨inner', outer', hassigned, hinner', houter', hkept⟩ := assigned_append hsince hinner outer globally
      refine ⟨inner', outer', hassigned, hinner', houter', fun hlocal => hkept ?_⟩
      simpa [TraceEntry.storesGlobally, heq] using hlocal
    · exact hsame
  | boxTaken taken box keeps =>
    rw [TraceEntry.noteBox]
    split
    · obtain ⟨inner', outer', hassigned, hinner', houter', hkept⟩ :=
        assigned_append (v := none) (by simp [SinceEntry]) hinner outer false
      exact ⟨inner', outer', hassigned, hinner', houter', fun _ => hkept rfl⟩
    · exact hsame
  | _ => exact hsame

/-- **What becomes of a register.** As long as a group is open, the register shows in it and in those within it what it has
shown at the beginning, or nothing, or a box which has been stored since. Nothing changes in the groups around it, unless
the register is assigned globally. -/
theorem shownAfter_append (h : shownAfter name earlier = first :: outer) (hopen : StaysOpen later) :
    ∃ inner outer', shownAfter name (later ++ earlier) = inner ++ outer' ∧
      inner.length = later.count .groupOpened - later.count .groupClosed + 1 ∧
      (∀ v ∈ inner, v = first ∨ SinceEntry earlier.length v) ∧
      (∀ v ∈ outer', v ∈ outer ∨ SinceEntry earlier.length v) ∧
      ((∀ entry ∈ later, entry.storesGlobally name = false) → outer' = outer) := by
  induction later with
  | nil => exact ⟨[first], outer, h, rfl, by simp, fun v hv => .inl hv, fun _ => rfl⟩
  | cons entry later ih =>
    have hcounts := hopen later (List.suffix_cons _ _)
    have hcounts' := hopen (entry :: later) List.suffix_rfl
    obtain ⟨inner, outer', hshown, hlength, hinner, houter, hkept⟩ :=
      ih fun newer hnewer => hopen newer (hnewer.trans (List.suffix_cons _ _))
    have hkept' : (∀ x ∈ entry :: later, x.storesGlobally name = false) → outer' = outer :=
      fun hlocal => hkept fun x hx => hlocal x (List.mem_cons_of_mem _ hx)
    -- the groups which have been opened since are the first ones, and there is at least one
    obtain ⟨v, inner, rfl⟩ := List.exists_cons_of_length_eq_add_one hlength
    rw [List.cons_append, shownAfter_cons, hshown]
    by_cases hopened : entry = .groupOpened
    · subst hopened
      refine ⟨v :: v :: inner, outer', rfl, ?_, fun w hw => hinner w (by simpa using hw), houter, hkept'⟩
      rw [List.count_cons_self, List.count_cons_of_ne (by simp), List.length_cons, hlength]
      omega
    · by_cases hclosed : entry = .groupClosed
      · subst hclosed
        refine ⟨inner, outer', rfl, ?_, fun w hw => hinner w (List.mem_cons_of_mem v hw), houter, hkept'⟩
        rw [List.count_cons_self, List.count_cons_of_ne (by simp)] at hcounts' ⊢
        rw [List.length_cons] at hlength
        omega
      · obtain ⟨inner', outer'', hnoted, hinner', houter', hlocal⟩ :=
          noteBox_append hopened hclosed (List.cons_ne_nil v inner) outer'
        have hsince : ∀ w, SinceEntry (later ++ earlier).length w → SinceEntry earlier.length w := fun w hw b hb =>
          Nat.le_trans (by simp) (hw b hb)
        refine ⟨inner', outer'', hnoted, ?_, fun w hw => ?_, fun w hw => ?_, fun hall => ?_⟩
        · rw [List.count_cons_of_ne hopened, List.count_cons_of_ne hclosed, hinner'.length, hlength]
        · exact (hinner'.mem w hw).elim (hinner w) fun hw => .inr (hsince w hw)
        · exact (houter'.mem w hw).elim (houter w) fun hw => .inr (hsince w hw)
        · rw [hlocal (hall entry List.mem_cons_self), hkept' hall]

/-- A register which has delivered its box is void in the innermost group. -/
theorem shownAfter_taken (name : String) (box : Option Box) (earlier : List TraceEntry) :
    shownAfter name (.boxTaken name box false :: earlier) = none :: (shownAfter name earlier).tail := by
  rw [shownAfter_cons, TraceEntry.noteBox, if_pos ⟨rfl, rfl⟩]
  rfl

variable {box : Option Box}

/-- **A box which has been delivered is not delivered again** while the group is open, and never if the groups around do not
show it. -/
theorem shown?_ne_delivered (hshown : shown? name earlier = some b)
    (hgroups : StaysOpen later ∨ some b ∉ (shownAfter name earlier).tail) :
    shown? name (later ++ .boxTaken name box false :: earlier) ≠ some b := by
  have hnumber : b.number < (TraceEntry.boxTaken name box false :: earlier).length :=
    Nat.lt_succ_of_lt (number_lt (mem_of_shown? hshown))
  have htaken := shownAfter_taken name box earlier
  intro hagain
  rcases hgroups with hopen | htail
  · obtain ⟨inner, outer', hlater, hlength, hinner, -, -⟩ := shownAfter_append htaken hopen
    obtain ⟨v, inner, rfl⟩ := List.exists_cons_of_length_eq_add_one hlength
    have hv : v = some b := by simpa [shown?, hlater] using hagain
    rcases hinner v List.mem_cons_self with hnone | hsince
    · cases hv.symm.trans hnone
    · exact Nat.not_le.2 hnumber (hsince b hv)
  · refine notMem_shownAfter hnumber ?_ (mem_of_shown? hagain)
    rw [htaken]
    simpa using htail

/-- The end of a group brings back what the groups around it have shown all the time. -/
theorem shownAfter_closed (h : shownAfter name earlier = first :: outer) (hbalanced : GroupsBalanced later)
    (hlocal : ∀ entry ∈ later, entry.storesGlobally name = false) :
    shownAfter name (.groupClosed :: (later ++ earlier)) = outer := by
  obtain ⟨inner, outer', hlater, hlength, -, -, hkept⟩ := shownAfter_append h hbalanced.1
  obtain ⟨v, rfl⟩ : ∃ v, inner = [v] := List.length_eq_one_iff.1 (by rw [hlength, hbalanced.2, Nat.sub_self])
  rw [shownAfter_cons, hlater, hkept hlocal]
  rfl

/-- A box which was stored in the innermost group is shown by this group only. -/
theorem notMem_tail_of_stored {box : Box} (hbalanced : GroupsBalanced later) :
    some ⟨earlier.length, box⟩ ∉ (shownAfter name (later ++ .boxStored name (some box) false :: earlier)).tail := by
  have hstored : shownAfter name (.boxStored name (some box) false :: earlier) =
      some ⟨earlier.length, box⟩ :: (shownAfter name earlier).tail := by
    rw [shownAfter_cons, TraceEntry.noteBox, if_pos rfl]
    rfl
  obtain ⟨inner, outer', hlater, hlength, -, houter, -⟩ := shownAfter_append hstored hbalanced.1
  obtain ⟨v, rfl⟩ : ∃ v, inner = [v] := List.length_eq_one_iff.1 (by rw [hlength, hbalanced.2, Nat.sub_self])
  rw [hlater]
  intro hmem
  rcases houter _ hmem with hold | hsince
  · exact Nat.lt_irrefl _ (number_lt (List.mem_of_mem_tail hold))
  · exact Nat.not_succ_le_self _ (hsince _ rfl)

end History

/-! ## What steps keep -/

namespace Engine

variable {e e' : Engine} {name : String}

/-- The registers show the boxes which the trace tells, and these are what they have delivered. -/
structure KnowsBoxes (e : Engine) : Prop where
  shown : ∀ name, e.context.values (.key (.box name)) = (shownAfter name e.trace).map (Option.map StoredBox.box)
  delivered : ∀ later name box keeps earlier, e.trace = later ++ .boxTaken name box keeps :: earlier →
    box = (shown? name earlier).map StoredBox.box

theorem KnowsBoxes.box_eq (he : e.KnowsBoxes) (name : String) : e.context.box name = (shown? name e.trace).map StoredBox.box := by
  have hhead := e.context.head?_values (.key (.box name))
  rw [he.shown name, List.head?_map] at hhead
  obtain ⟨v, hv, hbox⟩ := Option.map_eq_some_iff.1 hhead
  rw [shown?, hv]
  exact hbox.symm

theorem NameStep.shown (h : NameStep e e')
    (he : e.context.values (.key (.box name)) = (shownAfter name e.trace).map (Option.map StoredBox.box)) :
    e'.context.values (.key (.box name)) = (shownAfter name e'.trace).map (Option.map StoredBox.box) := by
  cases h with
  | quiet hvalues _ new hnew htrace => rw [hvalues (.key (.box name)) rfl, he, htrace, shownAfter_quiet hnew]
  | @meaning t m globally _ =>
    have hne : Slot.key (.box name) ≠ .key (.meaning t) := nofun
    exact (e.context.values_assign_of_ne (.key (.meaning t)) (some m) globally hne).trans he
  | opened kind place =>
    -- the new group shows what the innermost one has shown, which the trace gives as the head of its list
    have hhead := e.context.head?_values (.key (.box name))
    rw [he, List.head?_map] at hhead
    obtain ⟨v, hv, hread⟩ := Option.map_eq_some_iff.1 hhead
    have htrace : shownAfter name (e.enterGroup kind place).trace = v :: shownAfter name e.trace := by
      show (shownAfter name e.trace).head?.toList ++ shownAfter name e.trace = _
      rw [hv]
      rfl
    rw [htrace, List.map_cons, hread, ← he]
    exact e.context.values_openGroup kind place _
  | @closed _ _ outside h =>
    have htrace : shownAfter name (e.leaveGroup outside).trace = (shownAfter name e.trace).tail := rfl
    rw [htrace, List.map_tail, ← he]
    exact Context.values_closeGroup h _
  | font target file font fonts globally =>
    let selects := Meaning.primitive e.serial target.name (.command (.selectFont file))
    let named := e.context.setMeaning target (some selects) globally
    have hmeaning : named.values (.key (.box name)) = e.context.values (.key (.box name)) :=
      e.context.values_assign_of_ne (.key (.meaning target)) (some selects) globally nofun
    have hfont : (named.set (.font target.name) (some font) globally).values (.key (.box name)) =
      named.values (.key (.box name)) := named.values_assign_of_ne (.key (.font target.name)) (some font) globally nofun
    exact (hfont.trans hmeaning).trans he
  | stored register box globally =>
    have htrace : shownAfter name (e.storeBox register box globally).trace =
      if register = name then
        assigned (shownAfter name e.trace) (box.map fun box => ⟨e.trace.length, box⟩) globally
      else shownAfter name e.trace := rfl
    rw [htrace]
    split
    · next heq =>
      subst heq
      rw [values_storeBox, he, map_assigned, Option.map_map]
      cases box <;> rfl
    · next hne =>
      rw [values_storeBox_of_ne _ _ _ _ (by simpa using Ne.symm hne), he]
  | delivered register keeps =>
    have htrace : shownAfter name (e.deliverBox register keeps).trace =
      if register = name ∧ keeps = false then assigned (shownAfter name e.trace) none false
      else shownAfter name e.trace := rfl
    rw [htrace]
    split
    · next heq =>
      obtain ⟨rfl, rfl⟩ := heq
      rw [values_deliverBox, he, map_assigned]
      rfl
    · next hne =>
      cases keeps with
      | true => exact he
      | false =>
        have hregister : Slot.key (.box name) ≠ .key (.box register) := by
          simpa using fun heq => hne ⟨heq.symm, rfl⟩
        rw [values_deliverBox_of_ne _ _ _ hregister, he]

theorem NameStep.delivery (h : NameStep e e') :
    (∃ new, e'.trace = new ++ e.trace ∧ ∀ entry ∈ new, entry.isDelivery = false) ∨
      ∃ register keeps, e'.trace = .boxTaken register (e.context.box register) keeps :: e.trace := by
  cases h with
  | quiet _ _ new hnew htrace =>
    exact .inl ⟨new, htrace, fun entry hentry => TraceEntry.isDelivery_of_isQuiet (hnew entry hentry)⟩
  | meaning => exact .inl ⟨[], rfl, by simp⟩
  | opened | closed | font | stored => exact .inl ⟨[_], rfl, by simp [TraceEntry.isDelivery]⟩
  | delivered register keeps => exact .inr ⟨register, keeps, rfl⟩

theorem KnowsBoxes.step (he : e.KnowsBoxes) (h : NameStep e e') : e'.KnowsBoxes where
  shown name := h.shown (he.shown name)
  delivered later name box keeps earlier htrace := by
    rcases h.delivery with ⟨new, hnew, hquiet⟩ | ⟨register, keeps', hnew⟩
    · rw [hnew] at htrace
      rcases append_eq_split htrace with ⟨mid, rfl, -⟩ | ⟨mid, -, hold⟩
      · have hdelivery := hquiet (.boxTaken name box keeps) (by simp)
        cases hdelivery
      · exact he.delivered mid name box keeps earlier hold
    · rw [hnew] at htrace
      cases later with
      | nil =>
        obtain ⟨heq, rfl⟩ := List.cons.inj htrace
        cases heq
        exact he.box_eq _
      | cons entry later => exact he.delivered later name box keeps earlier (List.cons.inj htrace).2

/-- **The trace tells what the registers hold and what they have delivered.** -/
theorem KnowsBoxes.names (he : e.KnowsBoxes) (h : e.Names e') : e'.KnowsBoxes := by
  induction h with
  | refl => exact he
  | tail _ hstep ih => exact ih.step hstep

/-! ## New engines -/

theorem knowsBoxes_of_values (htrace : e.trace = []) (h : ∀ name, e.context.values (.key (.box name)) = [none]) :
    e.KnowsBoxes where
  shown name := by
    rw [h name, htrace]
    rfl
  delivered later name box keeps earlier hsplit := by simp [htrace] at hsplit

theorem install_builtin_knowsBoxes (id : String) (moment : Moment) (settings : Settings) (files : FileStore)
    (fonts : FontSource) (search : NameSearch) (handler : Handler) (console : Console) :
    ∃ e, Engine.install { Engine.new (Context.new id moment) settings with files, fonts, search, handler, console }
      Declaration.builtin = .ok e ∧ e.Proper ∧ ∀ e', e.Visits e' → e'.KnowsBoxes := by
  obtain ⟨e, hinstall, hproper, htrace⟩ := Engine.install_builtin id moment settings files fonts search handler console
  have hvoid : ∀ name, e.context.values (.key (.box name)) = [none] := by
    intro name
    refine install_preserves (P := fun e => e.context.values (.key (.box name)) = [none]) (fun d _ p _ e he => ?_)
      (fun e default v he => ?_) hinstall ?_
    · have hne : Slot.key (.box name) ≠ .key (.meaning (.controlSequence d.name "")) := nofun
      have hassigned := e.context.values_assign_of_ne _ (some (.primitive e.serial d.name p)) true hne
      rw [he] at hassigned
      exact hassigned
    · exact (setDefault_sameNames e default v (.key (.box name)) rfl).trans he
    · have hne : Slot.key (.box name) ≠ .key (.meaning frozenRelaxToken) := nofun
      have hfrozen := (Context.new id moment).values_assign_of_ne _ (some .frozenRelax) true hne
      have hnew := new_sameNames (Context.new id moment) settings (.key (.box name)) rfl
      refine (hnew.trans hfrozen).trans ?_
      rw [Context.values, Context.snapshots_new]
      rfl
  exact ⟨e, hinstall, hproper, fun e' hvisits => (knowsBoxes_of_values htrace hvoid).names hvisits.names⟩

end Engine

/-! ## The main statement -/

/-- The engine in which the contents of a register are delivered to the typesetter. -/
def Engine.handOver (e : Engine) (name : String) (keeps : Bool) : Engine :=
  { e.deliverBox name keeps with
    typesetter := (e.context.box name).elim e.typesetter fun box => e.typesetter.addBox (some box) }

/-- A command delivers what the register holds when its number has been read. -/
theorem execute_boxRegister_eq_ok {m : Machine} {keeps : Bool} {command : String} {modifiers : Modifiers} {e e' : Engine}
    (h : (Command.boxRegister keeps).execute m command modifiers e = .ok () e') :
    ∃ name e₁, registerName m e = .ok name e₁ ∧ e' = e₁.handOver name keeps := by
  obtain ⟨box, e₂, htake, hrest⟩ := Proc.bind_eq_ok h
  obtain ⟨name, e₁, hname, hdelivered⟩ := Proc.bind_eq_ok htake
  rw [Proc.context_bind, Proc.modify_bind] at hdelivered
  obtain ⟨rfl, rfl⟩ := EStateM.Result.ok.inj hdelivered
  refine ⟨name, e₁, Proc.lift_eq_ok.1 hname, ?_⟩
  rw [Engine.handOver]
  cases hbox : e₁.context.box name <;> rw [hbox] at hrest <;> exact (EStateM.Result.ok.inj hrest).2.symm

/-- **A register delivers the box which it shows, and the end of a group shows an old one.** In all states of all runs of a new
engine with the built-in primitives, the registers hold in each of the open groups what their history says, and whatever has
been taken from a register, be it by a command or for another register, is the box which it showed.

A box which a register shows was stored in it. After it has been delivered, and not just a copy of it, neither it nor a copy
of it is delivered again, unless it is stored again, while the group is open. It is never delivered again if no group
around shows it, which is so if it was stored in the same group and not globally. But when the group ends, the register
shows again what the groups around have shown, be it the same box. -/
theorem register_delivers_shown_box (id : String) (moment : Moment) (settings : Settings) (files : FileStore)
    (fonts : FontSource) (search : NameSearch) (handler : Handler) (console : Console) :
    ∃ e, Engine.install { Engine.new (Context.new id moment) settings with files, fonts, search, handler, console }
        Declaration.builtin = .ok e ∧
      ∀ e', e.Visits e' →
        (∀ name, e'.context.values (.key (.box name)) = (shownAfter name e'.trace).map (Option.map StoredBox.box)) ∧
        (∀ n keeps command modifiers e'',
          (Command.boxRegister keeps).execute (machine n) command modifiers e' = .ok () e'' → ∃ name box earlier,
            e''.trace = .boxTaken name box keeps :: earlier ∧ e'.trace <:+ earlier ∧
              box = (shown? name earlier).map StoredBox.box ∧
              e''.typesetter = box.elim e'.typesetter fun box => e'.typesetter.addBox (some box)) ∧
        (∀ later name box keeps earlier, e'.trace = later ++ .boxTaken name box keeps :: earlier →
          box = (shown? name earlier).map StoredBox.box ∧
            ∀ b, shown? name earlier = some b → ∃ newer globally older,
              earlier = newer ++ .boxStored name (some b.box) globally :: older ∧ older.length = b.number) ∧
        (∀ later name box' keeps between box earlier b,
          e'.trace = later ++ .boxTaken name box' keeps :: (between ++ .boxTaken name box false :: earlier) →
          shown? name earlier = some b → StaysOpen between ∨ some b ∉ (shownAfter name earlier).tail →
            shown? name (between ++ .boxTaken name box false :: earlier) ≠ some b) ∧
        (∀ later name between box earlier,
          e'.trace = later ++ (between ++ .boxStored name (some box) false :: earlier) → GroupsBalanced between →
            some ⟨earlier.length, box⟩ ∉ (shownAfter name (between ++ .boxStored name (some box) false :: earlier)).tail) ∧
        ∀ later name between box earlier,
          e'.trace = later ++ .groupClosed :: (between ++ .boxTaken name box false :: earlier) → GroupsBalanced between →
          (∀ entry ∈ between, entry.storesGlobally name = false) →
            shownAfter name (.groupClosed :: (between ++ .boxTaken name box false :: earlier)) =
              (shownAfter name earlier).tail := by
  obtain ⟨e, hinstall, hproper, hknows⟩ := Engine.install_builtin_knowsBoxes id moment settings files fonts search handler console
  refine ⟨e, hinstall, fun e' hvisits => ⟨(hknows e' hvisits).shown, fun n keeps command modifiers e'' hexecute => ?_,
    fun later name box keeps earlier htrace => ⟨(hknows e' hvisits).delivered _ _ _ _ _ htrace, fun b hb => ?_⟩,
    fun later name box' keeps between box earlier b _ hshown hgroups => shown?_ne_delivered hshown hgroups,
    fun later name between box earlier _ hbalanced => notMem_tail_of_stored hbalanced,
    fun later name between box earlier _ hbalanced hlocal => ?_⟩⟩
  · have he' : True → e'.Proper := fun _ => (hvisits.continues hproper).1
    obtain ⟨name, e₁, hname, rfl⟩ := execute_boxRegister_eq_ok hexecute
    have hregister := (meets_registerName (R := (Regime.command True).scanning) (machine_sound n) e' he').ok hname
    have hworks := (works_execute (machine_sound n) (c := .boxRegister keeps) (fun _ => trivial) modifiers e' he').ok hexecute
    refine ⟨name, e₁.context.box name, e₁.trace, rfl, hregister.1.trace_suffix, ?_, ?_⟩
    · exact (hknows _ (hvisits.course hworks.1)).delivered [] name _ keeps e₁.trace rfl
    · rw [← (hregister.1.sameWork rfl).typesetter]
      rfl
  · exact exists_stored (mem_of_shown? hb)
  · exact shownAfter_closed (shownAfter_taken name box earlier) hbalanced hlocal

def letterBox : Box := Box.pack .horizontal [.glyph 'a' 0 0 0]

theorem equipped_ran_boxes :
    (Engine.equipped.map fun e => (e.ran "\\setbox0=\\hbox\x7ba\x7d\x7b\\box0 \\copy0 \x7d\\box0 ").trace) =
    some [.boxTaken "0" (some letterBox) false, .dispatched (.controlSequence "box" "") [], .groupClosed,
      .dispatched (.character .rightBrace '\x7d') [], .boxTaken "0" none true, .dispatched (.controlSequence "copy" "") [],
      .boxTaken "0" (some letterBox) false, .dispatched (.controlSequence "box" "") [], .groupOpened,
      .dispatched (.character .leftBrace '\x7b') [], .boxStored "0" (some letterBox) false, .listClosed none, .groupClosed,
      .dispatched (.character .rightBrace '\x7d') [], .dispatched (.character .letter 'a') [], .groupExecuted 1, .groupOpened,
      .dispatched (.controlSequence "setbox" "") []] := by
  decide +kernel

/-- The register is void for the rest of the group in which its box has been delivered, and shows the box again after the
group. -/
theorem register_delivers_shown_box_again :
    ∃ e, Engine.equipped = some e ∧
      let trace := (e.ran "\\setbox0=\\hbox\x7ba\x7d\x7b\\box0 \\copy0 \x7d\\box0 ").trace
      shown? "0" (trace.drop 5) ≠ some ⟨7, letterBox⟩ ∧ shownAfter "0" (trace.drop 2) = [some ⟨7, letterBox⟩] := by
  obtain ⟨e, hinstall, hdelivers⟩ :=
    register_delivers_shown_box "" ⟨1776, 7, 4, 12, 0⟩ {} {} .schematic (fun _ _ => []) (.recorder 0) {}
  have hequipped := Engine.equipped_of_install hinstall
  have htrace := equipped_ran_boxes
  rw [hequipped] at htrace
  let e' := e.ran "\\setbox0=\\hbox\x7ba\x7d\x7b\\box0 \\copy0 \x7d\\box0 "
  have hsplit : e'.trace = _ := Option.some.inj htrace
  obtain ⟨-, -, -, honce, -, hclosed⟩ := hdelivers e' (.runText .refl 20 _ "")
  have hcopied := honce (e'.trace.take 4) "0" none true (e'.trace.drop 5 |>.take 1) (some letterBox) (e'.trace.drop 7)
    ⟨7, letterBox⟩
  have hended := hclosed (e'.trace.take 2) "0" (e'.trace.drop 3 |>.take 3) (some letterBox) (e'.trace.drop 7)
  rw [hsplit] at hcopied hended
  refine ⟨e, hequipped, ?_⟩
  show shown? "0" (e'.trace.drop 5) ≠ _ ∧ shownAfter "0" (e'.trace.drop 2) = _
  rw [hsplit]
  exact ⟨hcopied rfl (by decide) (by decide), hended rfl (by decide) (by decide)⟩

/-- A box is stored once and delivered twice, in a group and after it. -/
theorem box_delivered_twice :
    (Engine.equipped.map fun e =>
      (e.ran "\\setbox0=\\hbox\x7ba\x7d\x7b\\box0 \\copy0 \x7d\\box0 ").trace.reverse.filter (·.isOfBox)) =
    some [.boxStored "0" (some letterBox) false, .boxTaken "0" (some letterBox) false, .boxTaken "0" none true,
      .boxTaken "0" (some letterBox) false] := by
  have hboxes := congrArg (Option.map fun trace => trace.reverse.filter (·.isOfBox)) equipped_ran_boxes
  rw [Option.map_map] at hboxes
  exact hboxes.trans (by decide)

end Compositor
