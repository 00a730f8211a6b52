import TreeScript.Decimal.Notation
import TreeScript.Value.Heap

/-!
# Displayed values

The displayed form of a value: what programs print, join to texts and fill into
templates. It depends on payloads alone, so it exists for every value, whatever
cycles there are among fields. The host displays a list item by item on its
stack, so of a value that is nested too deep the form is not found.
-/

namespace TreeScript

/-! What is shown of a list is missing if it is missing of one of the items. -/

theorem mapM_eq_some_map {α β : Type} {f : α → Option β} {g : α → β} {as : List α}
    (hfg : ∀ a ∈ as, f a = some (g a)) : as.mapM f = some (as.map g) := by
  induction as with
  | nil => rfl
  | cons a as ih =>
    rw [List.mapM_cons, hfg a List.mem_cons_self, ih fun b hb => hfg b (List.mem_cons_of_mem a hb)]
    rfl

theorem mapM_eq_none_iff {α β : Type} {f : α → Option β} {xs : List α} :
    xs.mapM f = none ↔ ∃ x ∈ xs, f x = none := by
  induction xs with
  | nil => simp
  | cons x xs ih =>
    rw [List.mapM_cons]
    cases h : f x with
    | none => simp [h]
    | some y =>
      cases hs : xs.mapM f with
      | none => simpa [hs, h] using ih.mp hs
      | some ys => simpa [hs, h] using ih

/-- A whole number is displayed as an exact integer, another by the shortest digits that read back. -/
def displayNumber (x : Float) : String :=
  match Decimal.integer? x with
  | some i => toString i
  | none => Decimal.written Decimal.general x

namespace Heap

def display (h : Heap) (r : Ref) : String :=
  match h.payload r with
  | .instance c => s!"<{h.className c} instance>"
  | .number x => displayNumber x
  | .string s => s
  | .boolean b => if b then "true" else "false"
  | .null => "null"
  | .list items =>
    let parts := items.map fun i => if _h : i < r then h.display i else ""
    "[" ++ String.intercalate ", " parts ++ "]"
  | .function fn => s!"<function {fn.name}>"
  | .overloads name _ => s!"<function {name}>"
  | .native name _ _ => s!"<function {name}>"
  | .classObject info => s!"<class {info.name}>"
  | .superView inst start =>
    let inner := if _h : inst < r then h.display inst else ""
    s!"<super {h.className start} of {inner}>"
termination_by r

/-- How deep lists are nested in a value. Of an instance only the class is shown, also by a view. -/
def depth (h : Heap) (r : Ref) : Nat :=
  match h.payload r with
  | .list items => (items.map fun i => if _h : i < r then h.depth i else 0).foldr max 0 + 1
  | _ => 0
termination_by r

/-- The displayed form of a value that is nested no deeper than there is room for. -/
def display? (h : Heap) (room : Nat) (r : Ref) : Option String :=
  if h.depth r ≤ room then some (h.display r) else none

theorem depth_of_not_list {h : Heap} {r : Ref} (hr : ∀ items, h.payload r ≠ .list items) :
    h.depth r = 0 := by
  rw [depth]
  split
  · next items hitems => exact absurd hitems (hr items)
  · rfl

/-- There is always room to display what is not a list. -/
theorem display?_of_not_list {h : Heap} {r : Ref} (hr : ∀ items, h.payload r ≠ .list items)
    (room : Nat) : h.display? room r = some (h.display r) := by
  rw [display?, depth_of_not_list hr, if_pos (Nat.zero_le room)]

end Heap

end TreeScript
