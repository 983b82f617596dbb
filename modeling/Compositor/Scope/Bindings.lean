import Compositor.Scope.Key

/-!
# Bindings

The values which a single group gives to some of the keys. The view of bindings is `get?`; the lemmas say what
the operations do to it.
-/

namespace Compositor

/-- Values for some of the keys. -/
structure Bindings where
  entries : List ((k : Key) × k.Value) := []

namespace Bindings

def empty : Bindings := {}

instance : Inhabited Bindings := ⟨empty⟩

def find? (k : Key) : List ((k : Key) × k.Value) → Option k.Value
  | [] => none
  | ⟨k', v⟩ :: rest => if h : k' = k then some (h ▸ v) else find? k rest

/-- A list of entries in which a key has a new value. -/
def replace (k : Key) (v : k.Value) : List ((k : Key) × k.Value) → List ((k : Key) × k.Value)
  | [] => [⟨k, v⟩]
  | ⟨k', v'⟩ :: rest => if k' = k then ⟨k, v⟩ :: rest else ⟨k', v'⟩ :: replace k v rest

def get? (b : Bindings) (k : Key) : Option k.Value := find? k b.entries

def contains (b : Bindings) (k : Key) : Bool := (b.get? k).isSome

def insert (b : Bindings) (k : Key) (v : k.Value) : Bindings := ⟨replace k v b.entries⟩

theorem find?_replace_self (k : Key) (v : k.Value) (es : List ((k : Key) × k.Value)) :
    find? k (replace k v es) = some v := by
  induction es with
  | nil => simp [replace, find?]
  | cons e es ih =>
    rw [replace]
    split
    · simp [find?]
    · rename_i h
      simp [find?, h, ih]

theorem find?_replace_of_ne {k k' : Key} (h : k ≠ k') (v : k.Value) (es : List ((k : Key) × k.Value)) :
    find? k' (replace k v es) = find? k' es := by
  induction es with
  | nil => simp [replace, find?, h]
  | cons e es ih =>
    rw [replace]
    split
    · rename_i he
      subst he
      simp [find?, h]
    · simp only [find?]
      rw [ih]

@[simp] theorem get?_insert_self (b : Bindings) (k : Key) (v : k.Value) : (b.insert k v).get? k = some v :=
  find?_replace_self k v b.entries

theorem get?_insert_of_ne (b : Bindings) {k k' : Key} (h : k ≠ k') (v : k.Value) :
    (b.insert k v).get? k' = b.get? k' :=
  find?_replace_of_ne h v b.entries

end Bindings

end Compositor
