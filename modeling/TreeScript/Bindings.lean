/-!
# Bindings

A table from names to values that remembers the order in which names first
arrived. Writing to a name that is present changes its value and moves
nothing; a new name goes to the end. Frames, object fields, method tables and
field defaults are all such tables.
-/

namespace TreeScript

structure Bindings (α : Type) where
  entries : List (String × α) := []
  deriving Repr, Inhabited

namespace Bindings

variable {α : Type}

def empty : Bindings α := ⟨[]⟩

def keys (b : Bindings α) : List String := b.entries.map (·.1)

def values (b : Bindings α) : List α := b.entries.map (·.2)

def get? (b : Bindings α) (name : String) : Option α := b.entries.lookup name

def contains (b : Bindings α) (name : String) : Bool := (b.get? name).isSome

def isEmpty (b : Bindings α) : Bool := b.entries.isEmpty

/-- Writes into a list of entries, at the first entry of that name or else at the end. -/
def write (name : String) (value : α) : List (String × α) → List (String × α)
  | [] => [(name, value)]
  | (key, old) :: rest =>
    if name == key then (key, value) :: rest else (key, old) :: write name value rest

def set (b : Bindings α) (name : String) (value : α) : Bindings α :=
  ⟨write name value b.entries⟩

/-- Writes all entries of the second table, in its order, over the first. -/
def merge (b upper : Bindings α) : Bindings α :=
  upper.entries.foldl (fun acc entry => acc.set entry.1 entry.2) b

theorem lookup_write_self (name : String) (value : α) (entries : List (String × α)) :
    (write name value entries).lookup name = some value := by
  induction entries with
  | nil => simp [write]
  | cons entry rest ih =>
    obtain ⟨key, old⟩ := entry
    by_cases h : name = key
    · subst h; simp [write]
    · have hb : (name == key) = false := beq_eq_false_iff_ne.mpr h
      simp [write, List.lookup_cons, hb, ih]

theorem lookup_write_of_ne {name other : String} (h : other ≠ name) (value : α)
    (entries : List (String × α)) :
    (write name value entries).lookup other = entries.lookup other := by
  have hb : (other == name) = false := beq_eq_false_iff_ne.mpr h
  induction entries with
  | nil => simp [write, List.lookup_cons, hb]
  | cons entry rest ih =>
    obtain ⟨key, old⟩ := entry
    by_cases hk : name = key
    · subst hk; simp [write, List.lookup_cons, hb]
    · have hkb : (name == key) = false := beq_eq_false_iff_ne.mpr hk
      simp only [write, hkb, Bool.false_eq_true, if_false, List.lookup_cons, ih]

@[simp] theorem get?_empty (name : String) : (empty : Bindings α).get? name = none := rfl

@[simp] theorem get?_set_self (b : Bindings α) (name : String) (value : α) :
    (b.set name value).get? name = some value :=
  lookup_write_self name value b.entries

theorem get?_set_of_ne (b : Bindings α) {name other : String} (h : other ≠ name) (value : α) :
    (b.set name value).get? other = b.get? other :=
  lookup_write_of_ne h value b.entries

theorem get?_set (b : Bindings α) (name other : String) (value : α) :
    (b.set name value).get? other = if other = name then some value else b.get? other := by
  split
  · next h => subst h; simp
  · next h => exact get?_set_of_ne b h value

/-! ## Names after a write -/

/-- A write adds at most its own name, behind all others. -/
theorem keys_write (name : String) (value : α) (entries : List (String × α)) :
    (write name value entries).map (·.1) =
      if (entries.lookup name).isSome then entries.map (·.1) else entries.map (·.1) ++ [name] := by
  induction entries with
  | nil => simp [write]
  | cons entry rest ih =>
    obtain ⟨key, old⟩ := entry
    by_cases h : name = key
    · subst h; simp [write]
    · have hb : (name == key) = false := beq_eq_false_iff_ne.mpr h
      simp only [write, hb, Bool.false_eq_true, if_false, List.map_cons, List.lookup_cons, ih]
      split <;> simp

theorem keys_prefix_keys_set (b : Bindings α) (name : String) (value : α) :
    b.keys <+: (b.set name value).keys := by
  unfold keys set
  rw [keys_write]
  split
  · exact List.prefix_refl _
  · exact List.prefix_append _ _

/-- Writing to a name that is present adds no name. -/
theorem keys_set_of_contains {b : Bindings α} {name : String} (h : b.contains name = true)
    (value : α) : (b.set name value).keys = b.keys := by
  unfold keys set
  rw [keys_write, if_pos (show (b.entries.lookup name).isSome = true from h)]

/-! ## Values after a write -/

theorem mem_values_of_get? {b : Bindings α} {name : String} {value : α}
    (h : b.get? name = some value) : value ∈ b.values := by
  obtain ⟨before, after, hsplit, -⟩ := List.lookup_eq_some_iff.mp h
  simp [values, hsplit]

theorem mem_values_write {name : String} {value v : α} {entries : List (String × α)}
    (h : v ∈ (write name value entries).map (·.2)) : v = value ∨ v ∈ entries.map (·.2) := by
  induction entries with
  | nil => simpa [write] using h
  | cons entry rest ih =>
    obtain ⟨key, old⟩ := entry
    by_cases hk : name = key
    · subst hk
      simp only [write, beq_self_eq_true, if_true, List.map_cons, List.mem_cons] at h ⊢
      rcases h with rfl | h
      · exact .inl rfl
      · exact .inr (.inr h)
    · have hb : (name == key) = false := beq_eq_false_iff_ne.mpr hk
      simp only [write, hb, Bool.false_eq_true, if_false, List.map_cons, List.mem_cons] at h ⊢
      rcases h with rfl | h
      · exact .inr (.inl rfl)
      · exact (ih h).imp id .inr

theorem mem_values_set {b : Bindings α} {name : String} {value v : α}
    (h : v ∈ (b.set name value).values) : v = value ∨ v ∈ b.values :=
  mem_values_write h

theorem mem_values_merge {b upper : Bindings α} {v : α} (h : v ∈ (b.merge upper).values) :
    v ∈ b.values ∨ v ∈ upper.values := by
  obtain ⟨entries⟩ := upper
  unfold merge at h
  induction entries generalizing b with
  | nil => exact .inl h
  | cons entry rest ih =>
    rcases ih h with h | h
    · rcases mem_values_set h with rfl | h
      · exact .inr List.mem_cons_self
      · exact .inl h
    · exact .inr (List.mem_cons_of_mem _ h)

end Bindings

end TreeScript
