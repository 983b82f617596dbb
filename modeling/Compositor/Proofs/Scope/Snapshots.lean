import Compositor.Scope.Context
import Mathlib.Logic.Function.Basic

/-!
# Groups as a stack of snapshots

The groups of a context hold the values of a few keys only, and a global assignment is written into some of
them. The simple picture behind this is a stack of *snapshots*: each group has a value of its own for everything
that can be assigned, an opened group starts with a copy, and a global assignment changes all of them.

* `Snapshots` is that picture, `Operation` what is done to groups and values, on either side;
* `Context.snapshots` gives the stack which a context stands for, and every operation commutes with it
  (`snapshots_apply`);
* `view_run`: after any operations a context shows the same values as the stack; a group without global
  assignments restores everything, and a global assignment can be seen at every depth.
-/

namespace Compositor

open Compositor.Measure

/-! ## The stack of snapshots -/

/-- What can be assigned in a group. -/
inductive Slot where
  | key (k : Key)
  | style
  | interaction
  | space
deriving DecidableEq

/-- The type of the value of a slot. -/
@[reducible] def Slot.Value : Slot → Type
  | key k => k.Value
  | style => Style
  | interaction => Interaction
  | space => String

/-- A value for every slot. -/
abbrev Snapshot := (s : Slot) → s.Value

/-- A stack of snapshots: the one of the outermost group, and those of the groups above it with their kinds, the
innermost first. -/
structure Snapshots where
  outermost : Snapshot
  inner : List (GroupKind × Snapshot) := []

namespace Snapshots

def top (σ : Snapshots) : Snapshot := (σ.inner.head?.map (·.2)).getD σ.outermost

/-- The number of groups above the outermost one. -/
def depth (σ : Snapshots) : Nat := σ.inner.length

/-- A new group starts with a copy of the innermost snapshot. -/
def openGroup (σ : Snapshots) (kind : GroupKind) : Snapshots :=
  { σ with inner := (if kind = .outer then .simple else kind, σ.top) :: σ.inner }

/-- Closing a group drops its snapshot. Nothing happens if there is no group of this kind to close. -/
def closeGroup (σ : Snapshots) (kind : GroupKind) : Snapshots :=
  match σ.inner with
  | [] => σ
  | (k, _) :: rest => if k = kind then { σ with inner := rest } else σ

/-- A local assignment changes the innermost snapshot, a global one all of them. -/
def assign (σ : Snapshots) (s : Slot) (v : s.Value) (globally : Bool) : Snapshots :=
  if globally then
    { outermost := Function.update σ.outermost s v
      inner := σ.inner.map fun (k, snap) => (k, Function.update snap s v) }
  else
    match σ.inner with
    | [] => { σ with outermost := Function.update σ.outermost s v }
    | (k, snap) :: rest => { σ with inner := (k, Function.update snap s v) :: rest }

end Snapshots

/-! ## The values of a slot -/

namespace Snapshots

/-- The values of a slot in the open groups, the innermost first. -/
def values (σ : Snapshots) (s : Slot) : List s.Value := σ.inner.map (fun p => p.2 s) ++ [σ.outermost s]

theorem head?_values (σ : Snapshots) (s : Slot) : (σ.values s).head? = some (σ.top s) := by
  rcases h : σ.inner with _ | ⟨p, rest⟩ <;> simp [values, top, h]

theorem values_openGroup (σ : Snapshots) (kind : GroupKind) (s : Slot) :
    (σ.openGroup kind).values s = σ.top s :: σ.values s := by simp [values, openGroup]

theorem values_assign (σ : Snapshots) (s : Slot) (v : s.Value) (globally : Bool) :
    (σ.assign s v globally).values s = if globally then (σ.values s).map fun _ => v else v :: (σ.values s).tail := by
  cases globally with
  | true => simp [values, assign, Function.comp_def]
  | false => rcases h : σ.inner with _ | ⟨p, rest⟩ <;> simp [values, assign, h]

theorem values_assign_of_ne {s t : Slot} (h : s ≠ t) (σ : Snapshots) (v : t.Value) (globally : Bool) :
    (σ.assign t v globally).values s = σ.values s := by
  cases globally with
  | true => simp [values, assign, Function.comp_def, Function.update_of_ne h]
  | false => rcases hinner : σ.inner with _ | ⟨p, rest⟩ <;> simp [values, assign, hinner, Function.update_of_ne h]

end Snapshots

/-! ## Operations on both sides -/

/-- What is done to the groups and values of a context. -/
inductive Operation where
  | openGroup (kind : GroupKind) (place : Locator)
  | closeGroup (kind : GroupKind)
  | assign (s : Slot) (v : s.Value) (globally : Bool)

def Context.assign (c : Context) : (s : Slot) → s.Value → Bool → Context
  | .key (.count name), v, globally => c.setCount name v globally
  | .key (.meaning t), v, globally => c.setMeaning t v globally
  | .key k, v, globally => c.set k v globally
  | .style, v, globally => c.setStyle v globally
  | .interaction, v, globally => c.setInteraction v globally
  | .space, v, globally => c.setSpace v globally

/-- The context after an operation. A group which cannot be closed leaves it as it is. -/
def Context.apply (c : Context) : Operation → Context
  | .openGroup kind place => c.openGroup kind place
  | .closeGroup kind =>
    match c.closeGroup kind with
    | .ok (_, c') => c'
    | .error _ => c
  | .assign s v globally => c.assign s v globally

def Snapshots.apply (σ : Snapshots) : Operation → Snapshots
  | .openGroup kind _ => σ.openGroup kind
  | .closeGroup kind => σ.closeGroup kind
  | .assign s v globally => σ.assign s v globally

def Context.run (c : Context) (ops : List Operation) : Context := ops.foldl Context.apply c

def Snapshots.run (σ : Snapshots) (ops : List Operation) : Snapshots := ops.foldl Snapshots.apply σ

/-- Everything that can be asked about the values of a group. -/
structure View where
  count : String → Int64
  dimen : String → Dimen
  glue : String → Glue
  toks : String → List Token
  box : String → Option Box
  font : String → Font
  catcode : Nat → Catcode
  charcode : CodeTable → Nat → Int64
  meaning : Token → Option Meaning
  style : Style
  interaction : Interaction
  space : String

/-- What a context answers. -/
def Context.view (c : Context) : View :=
  ⟨c.count, c.dimen, c.glue, c.toks, c.box, c.font, c.catcode, c.charcode, c.meaning, c.style, c.interaction,
    c.space⟩

/-- What a snapshot answers. A token without a meaning in its name space has the one of the default name
space. -/
def Snapshot.view (snap : Snapshot) : View where
  count name := snap (.key (.count name))
  dimen name := snap (.key (.dimen name))
  glue name := snap (.key (.glue name))
  toks name := snap (.key (.toks name))
  box name := snap (.key (.box name))
  font name := Option.getD (snap (.key (.font name))) .null
  catcode code := snap (.key (.catcode code))
  charcode table code := snap (.key (.charcode table code))
  meaning t :=
    match snap (.key (.meaning t)) with
    | some m => some m
    | none => if t.space = "" then none else snap (.key (.meaning (t.inSpace "")))
  style := snap .style
  interaction := snap .interaction
  space := snap .space

def Context.read (c : Context) : Snapshot
  | .key k => c.get k
  | .style => c.style
  | .interaction => c.interaction
  | .space => c.space

def Snapshot.initial : Snapshot
  | .key k => k.initial
  | .style => {}
  | .interaction => .errorStop
  | .space => ""

/-- The stack of a new context: initial values, but for the magnification and the calendar. -/
def Snapshots.new (m : Moment) : Snapshots :=
  (⟨Snapshot.initial, []⟩ : Snapshots).run
    [.assign (.key (.count "mag")) (1000 : Int64) true,
      .assign (.key (.count "time")) (Int64.ofInt m.shown.time) true,
      .assign (.key (.count "day")) (Int64.ofInt m.shown.day) true,
      .assign (.key (.count "month")) (Int64.ofInt m.shown.month) true,
      .assign (.key (.count "year")) (Int64.ofInt m.shown.year) true]

/-! ## The snapshots of a context -/

def Group.snapshot (g : Group) (around : List Group) : Snapshot
  | .key k => (Context.lookupIn k (g :: around)).getD k.initial
  | .style => g.style
  | .interaction => g.interaction
  | .space => g.space

def innerSnapshots (outermost : Group) : List Group → List (GroupKind × Snapshot)
  | [] => []
  | g :: rest => (g.kind, g.snapshot (rest ++ [outermost])) :: innerSnapshots outermost rest

/-- The stack of snapshots which a context stands for. -/
def Context.snapshots (c : Context) : Snapshots :=
  ⟨c.outermost.snapshot [], innerSnapshots c.outermost c.inner⟩

namespace Context

theorem snapshots_top (c : Context) : c.snapshots.top = c.read := by
  funext s
  rcases h : c.inner with _ | ⟨g, rest⟩ <;> cases s <;>
    simp [snapshots, Snapshots.top, innerSnapshots, Group.snapshot, read, get, lookup, groups, style, interaction,
      space, current, h]

theorem view_eq (c : Context) : c.view = c.snapshots.top.view := by
  rw [snapshots_top]
  have hmeaning : c.meaning = c.read.view.meaning := by
    funext t
    simp only [meaning, Snapshot.view, read, ite_not]
    cases c.get (.meaning t) <;> rfl
  unfold view
  rw [hmeaning]
  rfl

theorem snapshots_depth (c : Context) : c.snapshots.depth = c.depth := by
  have h : ∀ gs : List Group, (innerSnapshots c.outermost gs).length = gs.length := by
    intro gs
    induction gs with
    | nil => rfl
    | cons g gs ih => simp [innerSnapshots, ih]
  exact h c.inner

end Context

/-! ## One group -/

section Groups

variable (k : Key) (v : k.Value)

theorem lookupIn_bind_self (g : Group) (around : List Group) :
    Context.lookupIn k (g.bind k v :: around) = some v := by
  simp [Context.lookupIn, Group.bind]

theorem lookupIn_bind_of_ne {k' : Key} (h : k ≠ k') (g : Group) (around : List Group) :
    Context.lookupIn k' (g.bind k v :: around) = Context.lookupIn k' (g :: around) := by
  simp [Context.lookupIn, Group.bind, Bindings.get?_insert_of_ne _ h]

/-- Binding a key in a group changes the snapshot of the group in this key only. -/
theorem snapshot_bind (g : Group) (around : List Group) :
    (g.bind k v).snapshot around = Function.update (g.snapshot around) (.key k) v := by
  funext s
  cases s with
  | key k' =>
    by_cases h : k = k'
    · subst h
      simp [Group.snapshot, lookupIn_bind_self]
    · have hs : (Slot.key k' : Slot) ≠ .key k := fun he => h (Slot.key.inj he).symm
      simp only [Group.snapshot, Function.update_of_ne hs]
      rw [lookupIn_bind_of_ne k v h]
  | style => rfl
  | interaction => rfl
  | space => rfl

/-- The groups above the outermost one after a global assignment. -/
def rebind (g : Group) : Group := if g.bindings.contains k then g.bind k v else g

theorem rebind_kind (g : Group) : (rebind k v g).kind = g.kind := by
  unfold rebind
  split <;> rfl

theorem get?_rebind_of_ne {k' : Key} (h : k ≠ k') (g : Group) :
    (rebind k v g).bindings.get? k' = g.bindings.get? k' := by
  unfold rebind
  split
  · exact Bindings.get?_insert_of_ne _ h v
  · rfl

/-- A key is found with its new value, whichever group binds it first. -/
theorem lookupIn_rebind_self (outermost : Group) (gs : List Group) :
    Context.lookupIn k (gs.map (rebind k v) ++ [outermost.bind k v]) = some v := by
  induction gs with
  | nil => exact lookupIn_bind_self k v outermost []
  | cons g gs ih =>
    by_cases h : g.bindings.contains k
    · simp [rebind, h, Context.lookupIn, Group.bind]
    · have hg : g.bindings.get? k = none := by simpa [Bindings.contains] using h
      simp only [List.map_cons, List.cons_append, Context.lookupIn]
      simp only [rebind, h, Bool.false_eq_true, if_false, hg]
      exact ih

theorem lookupIn_rebind_of_ne {k' : Key} (h : k ≠ k') (outermost : Group) (gs : List Group) :
    Context.lookupIn k' (gs.map (rebind k v) ++ [outermost.bind k v]) =
      Context.lookupIn k' (gs ++ [outermost]) := by
  induction gs with
  | nil => exact lookupIn_bind_of_ne k v h outermost []
  | cons g gs ih =>
    simp only [List.map_cons, List.cons_append, Context.lookupIn, get?_rebind_of_ne k v h, ih]

/-- A global assignment changes the snapshot of every group in its key only. -/
theorem snapshot_rebind (outermost g : Group) (gs : List Group) :
    (rebind k v g).snapshot (gs.map (rebind k v) ++ [outermost.bind k v]) =
      Function.update (g.snapshot (gs ++ [outermost])) (.key k) v := by
  have hself := lookupIn_rebind_self k v outermost (g :: gs)
  funext s
  cases s with
  | key k' =>
    by_cases h : k = k'
    · subst h
      simp only [List.map_cons, List.cons_append] at hself
      simp [Group.snapshot, hself]
    · have hs : (Slot.key k' : Slot) ≠ .key k := fun he => h (Slot.key.inj he).symm
      have hne := lookupIn_rebind_of_ne k v h outermost (g :: gs)
      simp only [List.map_cons, List.cons_append] at hne
      simp only [Group.snapshot, Function.update_of_ne hs, hne]
  | style => simp only [Group.snapshot, rebind]; split <;> rfl
  | interaction => simp only [Group.snapshot, rebind]; split <;> rfl
  | space => simp only [Group.snapshot, rebind]; split <;> rfl

theorem innerSnapshots_rebind (outermost : Group) (gs : List Group) :
    innerSnapshots (outermost.bind k v) (gs.map (rebind k v)) =
      (innerSnapshots outermost gs).map fun (kind, snap) => (kind, Function.update snap (.key k) v) := by
  induction gs with
  | nil => rfl
  | cons g gs ih =>
    simp only [List.map_cons, innerSnapshots, ih, rebind_kind]
    rw [snapshot_rebind]

theorem get_set_self (c : Context) (globally : Bool) : (c.set k v globally).get k = v := by
  have hlookup : (c.set k v globally).lookup k = some v := by
    cases globally with
    | true => exact lookupIn_rebind_self k v c.outermost c.inner
    | false =>
      simp only [Context.set, Context.modifyCurrent, Context.lookup, Context.groups]
      rcases c.inner with _ | ⟨g, rest⟩
      · exact lookupIn_bind_self k v c.outermost []
      · exact lookupIn_bind_self k v g (rest ++ [c.outermost])
  rw [Context.get, hlookup]
  rfl

end Groups

/-! ## Operations commute with the snapshots -/

namespace Context

theorem snapshots_openGroup (c : Context) (kind : GroupKind) (place : Locator) :
    (c.openGroup kind place).snapshots = c.snapshots.openGroup kind := by
  have htop := snapshots_top c
  simp only [snapshots, openGroup, innerSnapshots, Snapshots.openGroup] at htop ⊢
  rw [htop]
  congr 3

/-- A change of the innermost group which is one of a single slot of its snapshot. -/
theorem snapshots_modifyCurrent {s : Slot} {v : s.Value} {f : Group → Group} (hkind : ∀ g, (f g).kind = g.kind)
    (hsnap : ∀ g around, (f g).snapshot around = Function.update (g.snapshot around) s v) (c : Context) :
    (c.modifyCurrent f).snapshots = c.snapshots.assign s v false := by
  rcases h : c.inner with _ | ⟨g, rest⟩
  · simp [modifyCurrent, snapshots, innerSnapshots, Snapshots.assign, h, hsnap]
  · simp [modifyCurrent, snapshots, innerSnapshots, Snapshots.assign, h, hsnap, hkind]

theorem snapshots_setGlobal (c : Context) (k : Key) (v : k.Value) :
    (c.set k v true).snapshots = c.snapshots.assign (.key k) v true := by
  have hinner := innerSnapshots_rebind k v c.outermost c.inner
  simp only [set, snapshots, Snapshots.assign, if_true, snapshot_bind]
  rw [← hinner]
  rfl

theorem snapshots_set (c : Context) (k : Key) (v : k.Value) (globally : Bool) :
    (c.set k v globally).snapshots = c.snapshots.assign (.key k) v globally := by
  cases globally
  · exact snapshots_modifyCurrent (f := (·.bind k v)) (fun _ => rfl) (snapshot_bind k v) c
  · exact snapshots_setGlobal c k v

/-- An attribute of a group changes the snapshot of the group in its slot only. -/
structure IsAttribute (s : Slot) (v : s.Value) (f : Group → Group) : Prop where
  bindings : ∀ g, (f g).bindings = g.bindings
  kind : ∀ g, (f g).kind = g.kind
  snapshot : ∀ g around, (f g).snapshot around = Function.update (g.snapshot around) s v

theorem lookupIn_map {f : Group → Group} (hf : ∀ g, (f g).bindings = g.bindings) (k : Key) (gs : List Group) :
    lookupIn k (gs.map f) = lookupIn k gs := by
  induction gs with
  | nil => rfl
  | cons g gs ih => simp only [List.map_cons, lookupIn, hf, ih]

theorem snapshot_map {f : Group → Group} (hf : ∀ g, (f g).bindings = g.bindings) (g : Group)
    (around : List Group) : g.snapshot (around.map f) = g.snapshot around := by
  funext s
  cases s with
  | key k => simp only [Group.snapshot, lookupIn, lookupIn_map hf]
  | style => rfl
  | interaction => rfl
  | space => rfl

theorem innerSnapshots_map {s : Slot} {v : s.Value} {f : Group → Group} (hf : IsAttribute s v f)
    (outermost : Group) (gs : List Group) :
    innerSnapshots (f outermost) (gs.map f) =
      (innerSnapshots outermost gs).map fun (kind, snap) => (kind, Function.update snap s v) := by
  induction gs with
  | nil => rfl
  | cons g gs ih =>
    have hmap : gs.map f ++ [f outermost] = (gs ++ [outermost]).map f := by simp
    simp only [List.map_cons, innerSnapshots, ih, hf.kind]
    rw [hmap, snapshot_map hf.bindings, hf.snapshot]

theorem snapshots_modifyAll {s : Slot} {v : s.Value} {f : Group → Group} (hf : IsAttribute s v f)
    (c : Context) : (c.modifyAll f).snapshots = c.snapshots.assign s v true := by
  simp only [modifyAll, snapshots, Snapshots.assign, if_true, innerSnapshots_map hf, hf.snapshot]

theorem IsAttribute.snapshots_modifyCurrent {s : Slot} {v : s.Value} {f : Group → Group}
    (hf : IsAttribute s v f) (c : Context) : (c.modifyCurrent f).snapshots = c.snapshots.assign s v false :=
  Context.snapshots_modifyCurrent hf.kind hf.snapshot c

theorem isAttribute_style (style : Style) : IsAttribute .style style fun g => { g with style } := by
  refine ⟨fun _ => rfl, fun _ => rfl, fun g around => ?_⟩
  funext s
  cases s <;> simp [Group.snapshot, Function.update, lookupIn]

theorem isAttribute_interaction (mode : Interaction) :
    IsAttribute .interaction mode fun g => { g with interaction := mode } := by
  refine ⟨fun _ => rfl, fun _ => rfl, fun g around => ?_⟩
  funext s
  cases s <;> simp [Group.snapshot, Function.update, lookupIn]

theorem isAttribute_space (space : String) : IsAttribute .space space fun g => { g with space } := by
  refine ⟨fun _ => rfl, fun _ => rfl, fun g around => ?_⟩
  funext s
  cases s <;> simp [Group.snapshot, Function.update, lookupIn]

theorem snapshots_setInteraction (c : Context) (mode : Interaction) (globally : Bool) :
    (c.setInteraction mode globally).snapshots = c.snapshots.assign .interaction mode globally := by
  have hlocal := (isAttribute_interaction mode).snapshots_modifyCurrent c
  have hglobal := snapshots_modifyAll (isAttribute_interaction mode) c
  have hnotice : ∀ changed : Context,
      (if c.interaction ≠ mode then changed.notifyInteraction mode else changed).snapshots = changed.snapshots := by
    intro changed
    split <;> rfl
  unfold setInteraction
  rw [hnotice]
  cases globally <;> assumption

/-- **Assignments commute with the snapshots.** -/
theorem snapshots_assign (c : Context) (s : Slot) (v : s.Value) (globally : Bool) :
    (c.assign s v globally).snapshots = c.snapshots.assign s v globally := by
  match s with
  | .key k =>
    have hset := snapshots_set c k v globally
    cases k <;> exact hset
  | .style =>
    have hlocal := (isAttribute_style v).snapshots_modifyCurrent c
    have hglobal := snapshots_modifyAll (isAttribute_style v) c
    simp only [assign, setStyle]
    cases globally <;> assumption
  | .interaction => exact snapshots_setInteraction c v globally
  | .space =>
    have hlocal := (isAttribute_space v).snapshots_modifyCurrent c
    have hglobal := snapshots_modifyAll (isAttribute_space v) c
    simp only [assign, setSpace]
    cases globally <;> assumption

/-- After an assignment the innermost group shows the new value, and the old ones of everything else. -/
theorem read_assign (c : Context) (s : Slot) (v : s.Value) (globally : Bool) :
    (c.assign s v globally).read = Function.update c.read s v := by
  have htop : ∀ σ : Snapshots, (σ.assign s v globally).top = Function.update σ.top s v := by
    intro σ
    rcases hinner : σ.inner with _ | ⟨g, rest⟩ <;> cases globally <;> simp [Snapshots.assign, Snapshots.top, hinner]
  rw [← snapshots_top, snapshots_assign, htop, snapshots_top]

theorem snapshots_closeGroup (c : Context) (kind : GroupKind) :
    (c.apply (.closeGroup kind)).snapshots = c.snapshots.closeGroup kind := by
  rcases h : c.inner with _ | ⟨g, rest⟩
  · simp [apply, closeGroup, Snapshots.closeGroup, snapshots, innerSnapshots, h]
  · by_cases hk : g.kind = kind
    · simp only [apply, closeGroup, Snapshots.closeGroup, snapshots, innerSnapshots, h, hk, ne_eq,
        not_true_eq_false, if_false, if_true]
      split <;> rfl
    · simp [apply, closeGroup, Snapshots.closeGroup, snapshots, innerSnapshots, h, hk]

/-- A closed group is dropped, and everything has the value of the group around it. -/
theorem values_closeGroup {c c' : Context} {kind : GroupKind} {ts : List Token} (h : c.closeGroup kind = .ok (ts, c'))
    (s : Slot) : c'.snapshots.values s = (c.snapshots.values s).tail := by
  have happly : c' = c.apply (.closeGroup kind) := by simp only [apply, h]
  cases hinner : c.inner with
  | nil => simp [closeGroup, hinner] at h
  | cons g rest =>
    have hkind : g.kind = kind := by
      by_contra hne
      simp [closeGroup, hinner, hne] at h
    rw [happly, snapshots_closeGroup]
    simp [Snapshots.closeGroup, Snapshots.values, snapshots, innerSnapshots, hinner, hkind]

/-- **Every operation commutes with the snapshots.** -/
theorem snapshots_apply (c : Context) (op : Operation) : (c.apply op).snapshots = c.snapshots.apply op := by
  cases op with
  | openGroup kind place => exact snapshots_openGroup c kind place
  | closeGroup kind => exact snapshots_closeGroup c kind
  | assign s v globally => exact snapshots_assign c s v globally

theorem snapshots_run (c : Context) (ops : List Operation) : (c.run ops).snapshots = c.snapshots.run ops := by
  induction ops generalizing c with
  | nil => rfl
  | cons op ops ih =>
    simp only [run, Snapshots.run, List.foldl_cons] at ih ⊢
    rw [ih, snapshots_apply]

theorem snapshots_new (id : String) (m : Moment) : (Context.new id m).snapshots = Snapshots.new m := by
  have hstart : ({ id } : Context).snapshots = ⟨Snapshot.initial, []⟩ := by
    unfold snapshots
    congr 1
  unfold Snapshots.new
  rw [← hstart, ← snapshots_run]
  rfl

end Context

/-! ## Meanings -/

namespace Context

theorem meaning_setInteraction (c : Context) (mode : Interaction) (globally : Bool) :
    (c.setInteraction mode globally).meaning = c.meaning := by
  have hget : ∀ t, (c.setInteraction mode globally).get (.meaning t) = c.get (.meaning t) := by
    intro t
    have hread := congrFun (c.read_assign .interaction mode globally) (.key (.meaning t))
    have hne : Slot.key (.meaning t) ≠ .interaction := nofun
    exact hread.trans (Function.update_of_ne hne mode c.read)
  funext t
  rw [meaning, meaning, hget, hget]

theorem meaning_setMeaning (c : Context) (t : Token) (m : Meaning) (globally : Bool) :
    (c.setMeaning t (some m) globally).meaning t = some m := by
  have hget : (c.setMeaning t (some m) globally).get (.meaning t) = some m := get_set_self (.meaning t) (some m) c globally
  rw [meaning, hget]

theorem get_setMeaning_of_ne (c : Context) {t u : Token} (h : u ≠ t) (v : Option Meaning) (globally : Bool) :
    (c.setMeaning t v globally).get (.meaning u) = c.get (.meaning u) := by
  have hne : Slot.key (.meaning u) ≠ .key (.meaning t) := fun heq => h (Key.meaning.inj (Slot.key.inj heq))
  have hread := congrFun (c.read_assign (.key (.meaning t)) v globally) (.key (.meaning u))
  rw [Function.update_of_ne hne] at hread
  exact hread

/-- A token keeps its meaning, or it has the assigned one: since it is the token which gets it, or since it has none of its
own and falls back to that token. -/
theorem meaning_setMeaning_cases (c : Context) (t u : Token) (m : Meaning) (globally : Bool) :
    (c.setMeaning t (some m) globally).meaning u = c.meaning u ∨
      (c.setMeaning t (some m) globally).meaning u = some m := by
  by_cases hu : u = t
  · exact .inr (hu ▸ c.meaning_setMeaning u m globally)
  · rw [meaning, meaning, c.get_setMeaning_of_ne hu]
    cases c.get (.meaning u) with
    | some own => exact .inl rfl
    | none =>
      by_cases hdefault : u.inSpace "" = t
      · have hget : (c.setMeaning t (some m) globally).get (.meaning (u.inSpace "")) = some m :=
          hdefault ▸ get_set_self (.meaning (u.inSpace "")) (some m) c globally
        by_cases hspace : u.space ≠ ""
        · exact .inr ((if_pos hspace).trans hget)
        · exact .inl ((if_neg hspace).trans (if_neg hspace).symm)
      · rw [c.get_setMeaning_of_ne hdefault]
        exact .inl rfl

end Context

/-! ## Groups restore, global assignments stay -/

namespace Operation

def isLocal : Operation → Bool
  | assign _ _ globally => !globally
  | _ => true

def assigns (s : Slot) : Operation → Prop
  | assign s' _ _ => s' = s
  | _ => False

end Operation

/-- During some operations there are always more than `d` groups open. -/
def Context.StaysAbove (d : Nat) (c : Context) : List Operation → Prop
  | [] => d < c.depth
  | op :: ops => d < c.depth ∧ (c.apply op).StaysAbove d ops

namespace Snapshots

/-- A stack with further groups on top of another one. -/
def Above (σ base : Snapshots) : Prop :=
  σ.outermost = base.outermost ∧ ∃ extra, extra ≠ [] ∧ σ.inner = extra ++ base.inner

theorem Above.of_openGroup (σ : Snapshots) (kind : GroupKind) : (σ.openGroup kind).Above σ :=
  ⟨rfl, [_], by simp, rfl⟩

/-- A local operation leaves alone what is below the innermost group. -/
theorem Above.apply {σ base : Snapshots} (h : σ.Above base) {op : Operation} (hop : op.isLocal)
    (hdepth : base.depth < (σ.apply op).depth) : (σ.apply op).Above base := by
  obtain ⟨hout, extra, hne, hinner⟩ := h
  obtain ⟨⟨kind, snap⟩, more, rfl⟩ := List.exists_cons_of_ne_nil hne
  cases op with
  | openGroup kind' place =>
    refine ⟨hout, (if kind' = .outer then .simple else kind', σ.top) :: (kind, snap) :: more, by simp, ?_⟩
    simp [Snapshots.apply, openGroup, hinner]
  | closeGroup kind' =>
    by_cases hk : kind = kind'
    · have happly : σ.apply (.closeGroup kind') = { σ with inner := more ++ base.inner } := by
        simp [Snapshots.apply, closeGroup, hinner, hk]
      rw [happly] at hdepth ⊢
      refine ⟨hout, more, ?_, rfl⟩
      rintro rfl
      simp [depth] at hdepth
    · have happly : σ.apply (.closeGroup kind') = σ := by
        simp [Snapshots.apply, closeGroup, hinner, hk]
      rw [happly]
      exact ⟨hout, _, hne, hinner⟩
  | assign s v globally =>
    obtain rfl : globally = false := by simpa [Operation.isLocal] using hop
    refine ⟨?_, (kind, Function.update snap s v) :: more, by simp, ?_⟩ <;>
      simp [Snapshots.apply, Snapshots.assign, hinner, hout]

/-- Closing the group on top of a stack gives the stack back. -/
theorem Above.closeGroup {σ base : Snapshots} (h : σ.Above base) {kind : GroupKind}
    (hdepth : (σ.closeGroup kind).depth = base.depth) : σ.closeGroup kind = base := by
  obtain ⟨hout, extra, hne, hinner⟩ := h
  obtain ⟨⟨kind', snap⟩, more, rfl⟩ := List.exists_cons_of_ne_nil hne
  by_cases hk : kind' = kind
  · simp only [Snapshots.closeGroup, hinner, List.cons_append, hk, if_true, depth, List.length_append] at hdepth ⊢
    have hmore : more = [] := List.length_eq_zero_iff.mp (by omega)
    subst hmore
    cases σ
    cases base
    simp_all
  · simp only [Snapshots.closeGroup, hinner, List.cons_append, hk, if_false, depth, List.length_cons,
      List.length_append] at hdepth
    omega

def Shows (σ : Snapshots) (s : Slot) (v : s.Value) : Prop := σ.outermost s = v ∧ ∀ p ∈ σ.inner, p.2 s = v

theorem Shows.top {σ : Snapshots} {s : Slot} {v : s.Value} (h : σ.Shows s v) : σ.top s = v := by
  rcases hinner : σ.inner with _ | ⟨p, rest⟩
  · simpa [Snapshots.top, hinner] using h.1
  · simpa [Snapshots.top, hinner] using h.2 p (by simp [hinner])

theorem shows_assign (σ : Snapshots) (s : Slot) (v : s.Value) : (σ.assign s v true).Shows s v := by
  refine ⟨by simp [assign], fun p hp => ?_⟩
  simp only [assign, if_true, List.mem_map] at hp
  obtain ⟨q, -, rfl⟩ := hp
  simp

theorem Shows.apply {σ : Snapshots} {s : Slot} {v : s.Value} (h : σ.Shows s v) (op : Operation)
    (hop : ¬ op.assigns s) : (σ.apply op).Shows s v := by
  cases op with
  | openGroup kind place =>
    refine ⟨h.1, fun p hp => ?_⟩
    rcases List.mem_cons.1 hp with rfl | hp
    · exact h.top
    · exact h.2 p hp
  | closeGroup kind =>
    simp only [Snapshots.apply, closeGroup]
    split
    · exact h
    · rename_i k snap rest hinner
      split
      · exact ⟨h.1, fun p hp => h.2 p (by simp [hinner, hp])⟩
      · exact h
  | assign s' v' globally =>
    have hs : s ≠ s' := fun he => hop he.symm
    cases globally
    · simp only [Snapshots.apply, assign, Bool.false_eq_true, if_false]
      split
      · rename_i hinner
        exact ⟨by simpa [Function.update_of_ne hs] using h.1, by simp [hinner]⟩
      · rename_i k snap rest hinner
        refine ⟨h.1, fun p hp => ?_⟩
        rcases List.mem_cons.1 hp with rfl | hp
        · simpa [Function.update_of_ne hs] using h.2 (k, snap) (by simp [hinner])
        · exact h.2 p (by simp [hinner, hp])
    · refine ⟨by simpa [Snapshots.apply, assign, Function.update_of_ne hs] using h.1, fun p hp => ?_⟩
      simp only [Snapshots.apply, assign, if_true, List.mem_map] at hp
      obtain ⟨q, hq, rfl⟩ := hp
      simpa [Function.update_of_ne hs] using h.2 q hq

theorem Shows.run {σ : Snapshots} {s : Slot} {v : s.Value} (h : σ.Shows s v) {ops : List Operation}
    (hops : ∀ op ∈ ops, ¬ op.assigns s) : (σ.run ops).Shows s v := by
  induction ops generalizing σ with
  | nil => exact h
  | cons op ops ih => exact ih (h.apply op (hops op (by simp))) fun op' hop' => hops op' (by simp [hop'])

end Snapshots

namespace Context

theorem above_run {c : Context} {base : Snapshots} (h : c.snapshots.Above base) {ops : List Operation}
    (hlocal : ∀ op ∈ ops, op.isLocal) (habove : c.StaysAbove base.depth ops) :
    (c.run ops).snapshots.Above base := by
  induction ops generalizing c with
  | nil => exact h
  | cons op ops ih =>
    have hstep : base.depth < (c.apply op).depth := by
      cases ops with
      | nil => exact habove.2
      | cons op' ops => exact habove.2.1
    refine ih ?_ (fun op' hop' => hlocal op' (by simp [hop'])) habove.2
    rw [snapshots_apply]
    refine h.apply (hlocal op (by simp)) ?_
    rwa [← snapshots_apply, snapshots_depth]

theorem run_append (c : Context) (before after : List Operation) :
    c.run (before ++ after) = (c.run before).run after := List.foldl_append

/-- A group without global assignments leaves the values as they were before it. -/
theorem snapshots_run_group (c : Context) (kind : GroupKind) (place : Locator) (body : List Operation)
    (hlocal : ∀ op ∈ body, op.isLocal) (habove : (c.openGroup kind place).StaysAbove c.depth body)
    {kind' : GroupKind} (hclosed : (c.run (.openGroup kind place :: body ++ [.closeGroup kind'])).depth = c.depth) :
    (c.run (.openGroup kind place :: body ++ [.closeGroup kind'])).snapshots = c.snapshots := by
  rw [List.cons_append] at hclosed ⊢
  have hrun : c.run (.openGroup kind place :: (body ++ [.closeGroup kind'])) =
      ((c.openGroup kind place).run body).apply (.closeGroup kind') := by
    simp [run, Context.apply]
  have hopen : (c.openGroup kind place).snapshots.Above c.snapshots := by
    rw [snapshots_openGroup]
    exact .of_openGroup _ _
  have hbody := above_run hopen hlocal (by rwa [snapshots_depth])
  rw [hrun] at hclosed ⊢
  rw [snapshots_closeGroup]
  refine hbody.closeGroup ?_
  rw [← snapshots_closeGroup, snapshots_depth, hclosed, snapshots_depth]

/-- **A context shows what its stack of snapshots shows**, after any operations on a new context. A group without
global assignments restores every value, and a global assignment is seen at every depth until the slot is
assigned again. -/
theorem view_run (id : String) (m : Moment) :
    (∀ ops, ((Context.new id m).run ops).view = ((Snapshots.new m).run ops).top.view ∧
      ((Context.new id m).run ops).depth = ((Snapshots.new m).run ops).depth) ∧
    (∀ before body kind kind' place, (∀ op ∈ body, op.isLocal) →
      (((Context.new id m).run before).openGroup kind place).StaysAbove ((Context.new id m).run before).depth
        body →
      ((Context.new id m).run (before ++ (.openGroup kind place :: body ++ [.closeGroup kind']))).depth =
        ((Context.new id m).run before).depth →
      ((Context.new id m).run (before ++ (.openGroup kind place :: body ++ [.closeGroup kind']))).view =
        ((Context.new id m).run before).view) ∧
    ∀ before s (v : s.Value) after, (∀ op ∈ after, ¬ op.assigns s) →
      ((Context.new id m).run (before ++ .assign s v true :: after)).read s = v := by
  refine ⟨fun ops => ⟨?_, ?_⟩, fun before body kind kind' place hlocal habove hclosed => ?_,
    fun before s v after hafter => ?_⟩
  · rw [view_eq, snapshots_run, snapshots_new]
  · rw [← snapshots_depth, snapshots_run, snapshots_new]
  · rw [run_append] at hclosed ⊢
    rw [view_eq, snapshots_run_group _ kind place body hlocal habove hclosed, ← view_eq]
  · have hafter' : (((Context.new id m).run before).apply (.assign s v true)).snapshots.Shows s v := by
      rw [snapshots_apply]
      exact Snapshots.shows_assign _ s v
    have hrun : (Context.new id m).run (before ++ .assign s v true :: after) =
        (((Context.new id m).run before).apply (.assign s v true)).run after := by
      simp [run]
    rw [hrun, ← snapshots_top, snapshots_run]
    exact (hafter'.run hafter).top

/-- A group which assigns the register 7, and a global assignment of it seen from within a group. -/
theorem view_run_register_seven :
    ((Context.new "w" .standard).run ([] ++ (.openGroup .simple {} ::
        [.assign (.key (.count "7")) (5 : Int64) false] ++ [.closeGroup .simple]))).view =
      ((Context.new "w" .standard).run []).view ∧
    ((Context.new "w" .standard).run ([.openGroup .simple {}] ++
        .assign (.key (.count "7")) (5 : Int64) true :: [.closeGroup .simple])).read (.key (.count "7")) =
      (5 : Int64) := by
  obtain ⟨-, hgroup, hglobal⟩ := view_run "w" .standard
  refine ⟨hgroup [] [.assign (.key (.count "7")) (5 : Int64) false] .simple .simple {} ?_ ?_ rfl,
    hglobal [.openGroup .simple {}] (.key (.count "7")) (5 : Int64) [.closeGroup .simple] ?_⟩
  · simp [Operation.isLocal]
  · exact ⟨Nat.zero_lt_one, Nat.zero_lt_one⟩
  · simp [Operation.assigns]

end Context

end Compositor
