import Compositor.Proofs.Engine.Groups
import Compositor.Proofs.Engine.Meanings
import Mathlib.Data.List.Nodup

/-!
# Which font a selector selects

The command `font` gives a control sequence a meaning which selects the font. But the meaning holds no font: it knows the
name of the control sequence, and the font is kept under this name. So copies of the meaning select whatever font is kept
under the name when they are executed, which is that of the latest `font` for a control sequence of the name, in any name
space, as far as groups have not taken it back.

* `fontsAfter` is the history of the fonts under a name, as the trace tells it;
* `Engine.KnowsFonts` is what all steps keep: the fonts are those of the history, and every selector was made together with a
  font, by the one entry which has its number;
* `selector_selects_by_name` says which font a selector selects, and when this is the font which it was made for.
-/

namespace Compositor

/-! ## The history of the fonts under a name -/

namespace TraceEntry

/-- The number of the meaning which was made for a font. -/
def fontNumber? : TraceEntry → Option Nat
  | fontLoaded id _ _ _ => some id
  | _ => none

/-- A font is loaded for a control sequence of the name. -/
def loads (name : String) : TraceEntry → Bool
  | fontLoaded _ loaded _ _ => loaded == name
  | _ => false

/-- The fonts under a name in the open groups, the innermost first, after what the entry tells. -/
def noteFont (name : String) (fonts : List (Option Font)) : TraceEntry → List (Option Font)
  | groupOpened => fonts.head?.toList ++ fonts
  | groupClosed => fonts.tail
  | fontLoaded _ loaded font globally => if loaded = name then assigned fonts (some font) globally else fonts
  | _ => fonts

variable {name : String} {entry : TraceEntry} {fonts : List (Option Font)}

theorem noteFont_of_isQuiet (h : entry.isQuiet = true) : entry.noteFont name fonts = fonts := by
  cases entry <;> first | rfl | cases h

theorem fontNumber?_of_isQuiet (h : entry.isQuiet = true) : entry.fontNumber? = none := by
  cases entry <;> first | rfl | cases h

end TraceEntry

/-- The fonts under a name after all that a trace tells. -/
def fontsAfter (name : String) (fonts : List (Option Font)) (trace : List TraceEntry) : List (Option Font) :=
  trace.foldr (fun entry fonts => entry.noteFont name fonts) fonts

/-- The font under a name, for a trace which tells everything. -/
def currentFont (name : String) (trace : List TraceEntry) : Font := (fontsAfter name [none] trace).head?.join.getD .null

section History

variable {name : String} {fonts : List (Option Font)} {v : Option Font} {trace new : List TraceEntry}

theorem fontsAfter_append (name : String) (fonts : List (Option Font)) (new old : List TraceEntry) :
    fontsAfter name fonts (new ++ old) = fontsAfter name (fontsAfter name fonts old) new :=
  List.foldr_append

theorem fontsAfter_cons (name : String) (fonts : List (Option Font)) (entry : TraceEntry) (old : List TraceEntry) :
    fontsAfter name fonts (entry :: old) = entry.noteFont name (fontsAfter name fonts old) := rfl

theorem fontsAfter_quiet (h : ∀ entry ∈ new, entry.isQuiet = true) : fontsAfter name fonts new = fonts := by
  induction new with
  | nil => rfl
  | cons entry new ih =>
    rw [fontsAfter_cons, ih fun entry hentry => h entry (by simp [hentry])]
    exact TraceEntry.noteFont_of_isQuiet (h entry (by simp))

/-- What is the font in all groups stays so until another one is loaded. -/
theorem forall_mem_fontsAfter (h : ∀ w ∈ fonts, w = v) (hloads : ∀ entry ∈ trace, entry.loads name = false) :
    ∀ w ∈ fontsAfter name fonts trace, w = v := by
  induction trace with
  | nil => exact h
  | cons entry trace ih =>
    have hrest := ih fun entry hentry => hloads entry (by simp [hentry])
    rw [fontsAfter_cons]
    cases entry with
    | groupOpened =>
      intro w hw
      rcases List.mem_append.1 hw with hw | hw
      · exact hrest w (List.mem_of_mem_head? (Option.mem_toList.1 hw))
      · exact hrest w hw
    | groupClosed => exact fun w hw => hrest w (List.mem_of_mem_tail hw)
    | fontLoaded id loaded font globally =>
      have hne : loaded ≠ name := by simpa [TraceEntry.loads] using hloads (.fontLoaded id loaded font globally) (by simp)
      rw [TraceEntry.noteFont, if_neg hne]
      exact hrest
    | _ => exact hrest

/-- What is the font in the innermost group stays so in this one and those which are opened within it, until another one is
loaded. -/
theorem replicate_prefix_fontsAfter (h : [v] <+: fonts) (hloads : ∀ entry ∈ trace, entry.loads name = false)
    (hopen : StaysOpen trace) :
    List.replicate (trace.count .groupOpened - trace.count .groupClosed + 1) v <+: fontsAfter name fonts trace := by
  induction trace with
  | nil => exact h
  | cons entry trace ih =>
    have hrest := ih (fun entry hentry => hloads entry (by simp [hentry]))
      fun earlier hearlier => hopen earlier (hearlier.trans (List.suffix_cons _ _))
    have hcounts := hopen trace (List.suffix_cons _ _)
    have hcounts' := hopen (entry :: trace) List.suffix_rfl
    rw [fontsAfter_cons]
    generalize fontsAfter name fonts trace = kept at hrest
    -- the number of copies is that of the groups which have been opened and are still open, and the one around them
    cases entry with
    | groupOpened =>
      obtain ⟨outer, rfl⟩ := hrest
      refine ⟨outer, ?_⟩
      have hsucc :
          (TraceEntry.groupOpened :: trace).count .groupOpened - (TraceEntry.groupOpened :: trace).count .groupClosed =
            trace.count .groupOpened - trace.count .groupClosed + 1 := by
        rw [List.count_cons_self, List.count_cons_of_ne (by simp)]
        omega
      rw [hsucc]
      rfl
    | groupClosed =>
      obtain ⟨outer, rfl⟩ := hrest
      refine ⟨outer, ?_⟩
      rw [List.count_cons_self, List.count_cons_of_ne (by simp)] at hcounts' ⊢
      have hpred : trace.count .groupOpened - trace.count .groupClosed =
          trace.count .groupOpened - (trace.count .groupClosed + 1) + 1 := by omega
      rw [hpred]
      rfl
    | fontLoaded id loaded font globally =>
      have hne : loaded ≠ name := by simpa [TraceEntry.loads] using hloads (.fontLoaded id loaded font globally) (by simp)
      rw [TraceEntry.noteFont, if_neg hne, List.count_cons_of_ne (by simp), List.count_cons_of_ne (by simp)]
      exact hrest
    | _ =>
      rw [List.count_cons_of_ne (by simp), List.count_cons_of_ne (by simp)]
      exact hrest

/-- A font is the one under its name until another one is loaded for the name, in the group in which it was loaded or, if
it was loaded globally, in all groups. -/
theorem head?_fontsAfter_loaded {later earlier : List TraceEntry} {id : Nat} {font : Font} {globally : Bool}
    (hloads : ∀ entry ∈ later, entry.loads name = false) (hopen : globally = true ∨ StaysOpen later) {w : Option Font}
    (hw : (fontsAfter name fonts (later ++ .fontLoaded id name font globally :: earlier)).head? = some w) :
    w = some font := by
  rw [fontsAfter_append, fontsAfter_cons, TraceEntry.noteFont, if_pos rfl] at hw
  cases globally with
  | true =>
    refine forall_mem_fontsAfter (fun w hw => ?_) hloads w (List.mem_of_mem_head? hw)
    obtain ⟨_, -, rfl⟩ := List.mem_map.1 hw
    rfl
  | false =>
    have hassigned : [some font] <+: assigned (fontsAfter name fonts earlier) (some font) false := ⟨_, rfl⟩
    obtain ⟨outer, houter⟩ := replicate_prefix_fontsAfter hassigned hloads (hopen.resolve_left (by simp))
    rw [← houter] at hw
    exact (Option.some.inj hw).symm

end History

/-! ## What steps keep -/

theorem Context.fonts_setMeaning (c : Context) (t : Token) (m : Option Meaning) (globally : Bool) (name : String) :
    (c.setMeaning t m globally).values (.key (.font name)) = c.values (.key (.font name)) := by
  have hne : Slot.key (.font name) ≠ .key (.meaning t) := nofun
  exact c.values_assign_of_ne (.key (.meaning t)) m globally hne

namespace Engine

variable {e e' : Engine}

/-- The numbers of the meanings which were made for fonts, the latest first. -/
def fontNumbers (e : Engine) : List Nat := e.trace.filterMap TraceEntry.fontNumber?

/-- The fonts are those which the trace tells, and every selector was made together with a font. -/
structure KnowsFonts (e : Engine) : Prop where
  fonts : ∀ name, e.context.values (.key (.font name)) = fontsAfter name [none] e.trace
  selectors : ∀ id name file, e.context.Binds (.primitive id name (.command (.selectFont file))) →
    ∃ font globally, .fontLoaded id name font globally ∈ e.trace
  numbers : ∀ id ∈ e.fontNumbers, id < e.serial
  nodup : e.fontNumbers.Nodup

theorem NameStep.trace_subset (h : NameStep e e') : e.trace ⊆ e'.trace := by
  cases h with
  | quiet _ _ new _ htrace => exact htrace ▸ List.subset_append_right new e.trace
  | meaning => exact List.Subset.refl _
  | opened | closed | font | stored | delivered => exact List.subset_cons_self _ _

theorem NameStep.fontNumbers (h : NameStep e e') :
    e'.fontNumbers = e.fontNumbers ∨ e'.fontNumbers = e.serial :: e.fontNumbers ∧ e'.serial = e.serial + 1 := by
  cases h with
  | quiet _ _ new hnew htrace =>
    have hnone : new.filterMap TraceEntry.fontNumber? = [] :=
      List.filterMap_eq_nil_iff.2 fun entry hentry => TraceEntry.fontNumber?_of_isQuiet (hnew entry hentry)
    exact .inl (by rw [Engine.fontNumbers, htrace, List.filterMap_append, hnone]; rfl)
  | meaning | opened | closed | stored | delivered => exact .inl rfl
  | font => exact .inr ⟨rfl, rfl⟩

theorem NameStep.fonts (h : NameStep e e') {name : String}
    (he : e.context.values (.key (.font name)) = fontsAfter name [none] e.trace) :
    e'.context.values (.key (.font name)) = fontsAfter name [none] e'.trace := by
  cases h with
  | quiet hvalues _ new hnew htrace =>
    rw [hvalues (.key (.font name)) rfl, he, htrace, fontsAfter_append, fontsAfter_quiet hnew]
  | meaning t globally => exact (e.context.fonts_setMeaning t _ globally name).trans he
  | opened kind place =>
    have hhead := e.context.head?_values (.key (.font name))
    rw [he] at hhead
    have htrace : fontsAfter name [none] (e.enterGroup kind place).trace =
        (fontsAfter name [none] e.trace).head?.toList ++ fontsAfter name [none] e.trace := rfl
    rw [htrace, hhead, ← he]
    exact e.context.values_openGroup kind place _
  | @closed _ _ outside h =>
    have htrace : fontsAfter name [none] (e.leaveGroup outside).trace = (fontsAfter name [none] e.trace).tail := rfl
    rw [htrace, ← he]
    exact Context.values_closeGroup h _
  | font target file font fonts globally =>
    let selects := Meaning.primitive e.serial target.name (.command (.selectFont file))
    let named := e.context.setMeaning target (some selects) globally
    have hnamed : named.values (.key (.font name)) = fontsAfter name [none] e.trace :=
      (e.context.fonts_setMeaning target (some selects) globally name).trans he
    have htrace : fontsAfter name [none] (e.keepFont target file font fonts globally).trace =
      if target.name = name then assigned (fontsAfter name [none] e.trace) (some font) globally
      else fontsAfter name [none] e.trace := rfl
    rw [htrace, ← hnamed]
    split
    · next heq =>
      subst heq
      exact named.values_assign (.key (.font target.name)) (some font) globally
    · next hne =>
      exact named.values_assign_of_ne (.key (.font target.name)) (some font) globally (by simpa using Ne.symm hne)
  | stored register box globally =>
    exact (e.values_storeBox_of_ne register (s := .key (.font name)) box globally nofun).trans he
  | delivered register keeps =>
    exact (e.values_deliverBox_of_ne register (s := .key (.font name)) keeps nofun).trans he

theorem KnowsFonts.step (he : e.KnowsFonts) (h : NameStep e e') : e'.KnowsFonts where
  fonts name := h.fonts (he.fonts name)
  selectors id name file hbinds := by
    have hold : e.context.Binds (.primitive id name (.command (.selectFont file))) →
        ∃ font globally, .fontLoaded id name font globally ∈ e'.trace := fun hbinds =>
      let ⟨font, globally, hmem⟩ := he.selectors id name file hbinds
      ⟨font, globally, h.trace_subset hmem⟩
    rcases h.binds hbinds with hbinds | harises | ⟨name', file', font, globally, heq, -, htrace⟩
    · exact hold hbinds
    · cases harises with
      | copied hmeaning => exact hold (Context.binds_of_meaning hmeaning)
      | unnumbered hnumber => cases hnumber
    · cases heq
      exact ⟨font, globally, htrace ▸ List.mem_cons_self ..⟩
  numbers id hid := by
    rcases h.fontNumbers with heq | ⟨heq, hserial⟩
    · exact Nat.lt_of_lt_of_le (he.numbers id (heq ▸ hid)) h.serial_le
    · rw [heq] at hid
      rw [hserial]
      rcases List.mem_cons.1 hid with rfl | hid
      · exact Nat.lt_succ_self _
      · exact Nat.lt_succ_of_lt (he.numbers id hid)
  nodup := by
    rcases h.fontNumbers with heq | ⟨heq, -⟩
    · exact heq ▸ he.nodup
    · rw [heq]
      exact List.nodup_cons.2 ⟨fun hmem => Nat.lt_irrefl _ (he.numbers _ hmem), he.nodup⟩

/-- **The trace tells the fonts, and which of them the selectors were made for.** -/
theorem KnowsFonts.names (he : e.KnowsFonts) (h : e.Names e') : e'.KnowsFonts := by
  induction h with
  | refl => exact he
  | tail _ hstep ih => exact ih.step hstep

/-! ## New engines -/

end Engine

def Declaration.selectsNoFont (d : Declaration) : Bool :=
  match d.build with
  | .ok (.command (.selectFont _)) => false
  | _ => true

theorem Declaration.selectsNoFont_of_mem_builtin : ∀ d ∈ builtin, d.selectsNoFont = true := by
  decide +kernel

namespace Engine

variable {e e' : Engine}

theorem KnowsFonts.bind (he : e.KnowsFonts) {name : String} {p : Primitive} (hp : ∀ file, p ≠ .command (.selectFont file)) :
    (e.bind name fun id => .primitive id name p).KnowsFonts where
  fonts font := (e.context.fonts_setMeaning _ _ true font).trans (he.fonts font)
  selectors id font file hbinds := by
    rcases Context.binds_setMeaning hbinds with heq | hold
    · obtain ⟨-, -, hselects⟩ := Meaning.primitive.inj heq
      exact absurd hselects.symm (hp file)
    · exact he.selectors id font file hold
  numbers id hid := Nat.lt_succ_of_lt (he.numbers id hid)
  nodup := he.nodup

theorem KnowsFonts.setDefault (he : e.KnowsFonts) (name : String) (v : DefaultValue) : (e.setDefault name v).KnowsFonts := by
  have hsame := setDefault_sameNames e name v
  have htrace : (e.setDefault name v).trace = e.trace := setDefault_trace e name v
  have hserial : (e.setDefault name v).serial = e.serial := by cases v <;> rfl
  refine ⟨fun font => ?_, fun id font file hbinds => ?_, ?_, ?_⟩
  · rw [hsame (.key (.font font)) rfl, htrace, he.fonts]
  · rw [htrace]
    exact he.selectors id font file (Context.binds_of_values (fun t => hsame (.key (.meaning t)) rfl) hbinds)
  · rw [Engine.fontNumbers, htrace, hserial]
    exact he.numbers
  · rw [Engine.fontNumbers, htrace]
    exact he.nodup

theorem new_knowsFonts (id : String) (moment : Moment) (settings : Settings) :
    (Engine.new (Context.new id moment) settings).KnowsFonts where
  fonts name := by
    rw [new_sameNames _ settings (.key (.font name)) rfl, Context.fonts_setMeaning, Context.values, Context.snapshots_new]
    rfl
  selectors number name file hbinds := by cases new_binds id moment settings hbinds
  numbers number hnumber := by cases hnumber
  nodup := List.nodup_nil

theorem install_builtin_knowsFonts (id : String) (moment : Moment) (settings : Settings) (files : FileStore)
    (fonts : FontSource) (search : NameSearch) (handler : Handler) (console : Console) :
    ∃ e, Engine.install { Engine.new (Context.new id moment) settings with files, fonts, search, handler, console }
      Declaration.builtin = .ok e ∧ ∀ e', e.Visits e' → e'.KnowsFonts := by
  obtain ⟨e, hinstall, -, -⟩ := Engine.install_builtin id moment settings files fonts search handler console
  have hnew : ({ Engine.new (Context.new id moment) settings with files, fonts, search, handler, console } : Engine).KnowsFonts := by
    obtain ⟨hfonts, hselectors, hnumbers, hnodup⟩ := new_knowsFonts id moment settings
    exact ⟨hfonts, hselectors, hnumbers, hnodup⟩
  have hinstalled : e.KnowsFonts := by
    refine install_preserves (fun d hd p hbuild e he => he.bind fun file hp => ?_) (fun e name v he => he.setDefault name v)
      hinstall hnew
    have hselects := Declaration.selectsNoFont_of_mem_builtin d hd
    simp [Declaration.selectsNoFont, hbuild, hp] at hselects
  exact ⟨e, hinstall, fun e' hvisits => hinstalled.names hvisits.names⟩

end Engine

/-! ## Executing a selector -/

namespace Engine

variable {e : Engine} {t : Token} {name : String} {font : Font}

/-- The engine after a token has made a font the current one, globally if that has been asked for. -/
def selecting (e : Engine) (t : Token) (font : Font) : Engine :=
  (e.dispatching t).modifyContext fun c => c.setStyle { c.style with font } e.modifiers.isGlobal

theorem selecting_style (e : Engine) (t : Token) (font : Font) :
    (e.selecting t font).context.style = { e.context.style with font } := by
  let c := (e.dispatching t).context
  have hread := congrFun (c.read_assign .style { c.style with font } e.modifiers.isGlobal) .style
  rw [Function.update_self] at hread
  exact hread

theorem dispatch_selector {m : Machine} {id : Nat} {file : String} (ht : t.isCode = true)
    (hmeaning : e.context.meaning t = some (.primitive id name (.command (.selectFont file))))
    (hmodifiers : e.modifiers.subset { isGlobal := true } = true) :
    dispatch m t e = .ok () (e.selecting t (e.context.font name)) := by
  have haccepted : executeModified m t (.primitive id name (.command (.selectFont file))) e.modifiers (e.dispatching t) =
      (Command.selectFont file).execute m name e.modifiers (e.dispatching t) := by
    simp [executeModified, Command.accepts, hmodifiers]
  rw [dispatch_of_meaning ht hmeaning]
  exact haccepted

theorem KnowsFonts.currentFont_eq (he : e.KnowsFonts) (name : String) : currentFont name e.trace = e.context.font name := by
  have hhead := e.context.head?_values (.key (.font name))
  rw [he.fonts name] at hhead
  rw [currentFont, hhead]
  rfl

end Engine

/-! ## The main statement -/

/-- **A selector selects by name.** In all states of all runs of a new engine with the built-in primitives, a control
sequence whose meaning selects a font got it from exactly one `font`, which loaded that font for a name. To execute it
makes the font current which is kept under the name now, whatever font it was made for, and does nothing else.

A font is the current one of its name until another one is loaded for the name, in the group in which it was loaded or, if it
was loaded globally, in all groups. So the selector selects its own font for that long, and the other one afterwards. -/
theorem selector_selects_by_name (id : String) (moment : Moment) (settings : Settings) (files : FileStore)
    (fonts : FontSource) (search : NameSearch) (handler : Handler) (console : Console) :
    ∃ e, Engine.install { Engine.new (Context.new id moment) settings with files, fonts, search, handler, console }
        Declaration.builtin = .ok e ∧
      ∀ e', e.Visits e' →
        (∀ name, e'.context.values (.key (.font name)) = fontsAfter name [none] e'.trace) ∧
        (∀ t number name file, t.isCode = true →
          e'.context.meaning t = some (.primitive number name (.command (.selectFont file))) →
            (∃ later font globally earlier, e'.trace = later ++ .fontLoaded number name font globally :: earlier ∧
              ∀ entry ∈ later ++ earlier, entry.fontNumber? ≠ some number) ∧
            (e'.modifiers.subset { isGlobal := true } = true → ∀ m,
              dispatch m t e' = .ok () (e'.selecting t (currentFont name e'.trace))) ∧
            (e'.selecting t (currentFont name e'.trace)).context.style.font = currentFont name e'.trace) ∧
        ∀ later number name font globally earlier, e'.trace = later ++ .fontLoaded number name font globally :: earlier →
          (∀ entry ∈ later, entry.loads name = false) → (globally = true ∨ StaysOpen later) →
            currentFont name e'.trace = font := by
  obtain ⟨e, hinstall, hknows⟩ := Engine.install_builtin_knowsFonts id moment settings files fonts search handler console
  refine ⟨e, hinstall, fun e' hvisits => ?_⟩
  have he' := hknows e' hvisits
  refine ⟨he'.fonts, fun t number name file ht hmeaning => ⟨?_, fun hmodifiers m => ?_, ?_⟩, ?_⟩
  · obtain ⟨font, globally, hmem⟩ := he'.selectors number name file (Context.binds_of_meaning hmeaning)
    obtain ⟨later, earlier, htrace⟩ := List.append_of_mem hmem
    refine ⟨later, font, globally, earlier, htrace, fun entry hentry hnumber => ?_⟩
    have hnumbers : e'.fontNumbers =
        later.filterMap TraceEntry.fontNumber? ++ number :: earlier.filterMap TraceEntry.fontNumber? := by
      rw [Engine.fontNumbers, htrace, List.filterMap_append]
      rfl
    have honce := (List.nodup_middle.1 (hnumbers ▸ he'.nodup)).notMem
    rw [← List.filterMap_append] at honce
    exact honce (List.mem_filterMap.2 ⟨entry, hentry, hnumber⟩)
  · rw [he'.currentFont_eq]
    exact Engine.dispatch_selector ht hmeaning hmodifiers
  · rw [Engine.selecting_style]
  · intro later number name font globally earlier htrace hloads hopen
    have hhead := e'.context.head?_values (.key (.font name))
    rw [he'.fonts name] at hhead
    rw [currentFont, hhead]
    rw [htrace] at hhead
    rw [head?_fontsAfter_loaded hloads hopen hhead]
    rfl

theorem equipped_ran_fonts :
    (Engine.equipped.map fun e =>
      let e' := e.ran "\\font\\x=a \\let\\y=\\x \\font\\x=b "
      ((e'.context.meaning (.controlSequence "y" ""), e'.modifiers, (e'.ran "\\y ").context.style.font), e'.trace)) =
    some ((some (.primitive 104 "x" (.command (.selectFont "a"))), .none, .schematic "b" 655360),
      [.fontLoaded 105 "x" (.schematic "b" 655360) false, .dispatched (.controlSequence "font" "") [],
        .dispatched (.controlSequence "let" "") [], .fontLoaded 104 "x" (.schematic "a" 655360) false,
        .dispatched (.controlSequence "font" "") []]) := by
  decide +kernel

/-- A copy of a selector selects the font which has been loaded last for the name. -/
theorem selector_selects_by_name_copied :
    let y := Token.controlSequence "y" ""
    ∃ e, Engine.equipped = some e ∧
      let e' := e.ran "\\font\\x=a \\let\\y=\\x \\font\\x=b "
      dispatch (machine 20) y e' = .ok () (e'.selecting y (.schematic "b" 655360)) ∧
        (e'.selecting y (.schematic "b" 655360)).context.style.font = .schematic "b" 655360 := by
  intro y
  obtain ⟨e, hinstall, hselects⟩ := selector_selects_by_name "" ⟨1776, 7, 4, 12, 0⟩ {} {} .schematic (fun _ _ => []) (.recorder 0) {}
  have hequipped := Engine.equipped_of_install hinstall
  have hran := equipped_ran_fonts
  rw [hequipped] at hran
  obtain ⟨hstate, htrace⟩ := Prod.mk.inj (Option.some.inj hran)
  obtain ⟨hmeaning, hrest⟩ := Prod.mk.inj hstate
  obtain ⟨hmodifiers, -⟩ := Prod.mk.inj hrest
  let e' := e.ran "\\font\\x=a \\let\\y=\\x \\font\\x=b "
  obtain ⟨-, hexecuted, hcurrent⟩ := hselects e' (.runText .refl 20 _ "")
  have hlatest : currentFont "x" e'.trace = .schematic "b" 655360 := by
    have hopen : StaysOpen [] := fun earlier hearlier => by simp [List.suffix_nil.1 hearlier]
    exact hcurrent [] 105 "x" (.schematic "b" 655360) false _ htrace (by simp) (.inr hopen)
  obtain ⟨-, hdispatch, hstyle⟩ := hexecuted y 104 "x" "a" rfl hmeaning
  have hsubset : e'.modifiers.subset { isGlobal := true } = true := by
    rw [show e'.modifiers = .none from hmodifiers]
    rfl
  rw [hlatest] at hdispatch hstyle
  exact ⟨e, hequipped, hdispatch hsubset _, hstyle⟩

/-- `x` gets a font and `y` the meaning of `x`, then `x` gets another font. The meaning of `y` is still the one which was
made for the first font, but it selects the second one. -/
theorem selector_changes_font :
    (Engine.equipped.map fun e =>
      let e' := e.ran "\\font\\x=a \\let\\y=\\x \\font\\x=b "
      let e'' := e'.ran "\\y "
      (e'.context.meaning (.controlSequence "y" ""), e'.trace.reverse.filter (·.loads "x"), e''.context.style.font)) =
    some (some (.primitive 104 "x" (.command (.selectFont "a"))),
      [.fontLoaded 104 "x" (.schematic "a" 655360) false, .fontLoaded 105 "x" (.schematic "b" 655360) false],
      .schematic "b" 655360) := by
  have hran := congrArg (Option.map fun state =>
    (state.1.1, state.2.reverse.filter (·.loads "x"), state.1.2.2)) equipped_ran_fonts
  rw [Option.map_map] at hran
  exact hran.trans (by decide)

end Compositor
