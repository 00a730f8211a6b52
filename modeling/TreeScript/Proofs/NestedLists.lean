import TreeScript.Proofs.Reached
import TreeScript.Value.Export

/-!
# Lists in lists

A program that puts a list in a new list, over and over, makes values that are nested as deep as it
likes. What recurses over such a value on the stack of the host comes to an end of it.
-/

namespace TreeScript

namespace Heap

/-- Adds the empty list, and then so many lists, each with the one before it as its only item. -/
def nest (h : Heap) : Nat → Heap
  | 0 => (h.alloc (.list [])).2
  | n + 1 => ((h.nest n).alloc (.list [h.objects.size + n])).2

variable {h : Heap}

@[simp] theorem size_nest (n : Nat) : (h.nest n).objects.size = h.objects.size + n + 1 := by
  induction n with
  | zero => exact h.size_add _
  | succ n ih => rw [nest, alloc, size_add, ih, Nat.add_assoc _ n 1]

theorem payload_nest_succ {n : Nat} {r : Ref} (hr : r ≤ h.objects.size + n) :
    (h.nest (n + 1)).payload r = (h.nest n).payload r :=
  payload_alloc_of_lt _ _ (by rw [size_nest]; exact Nat.lt_succ_of_le hr)

theorem payload_nest_of_lt (n : Nat) {r : Ref} (hr : r < h.objects.size) :
    (h.nest n).payload r = h.payload r := by
  induction n with
  | zero => exact h.payload_alloc_of_lt _ hr
  | succ n ih =>
    have hle : r ≤ h.objects.size + n := Nat.le_trans (Nat.le_of_lt hr) (Nat.le_add_right _ _)
    exact (payload_nest_succ hle).trans ih

/-- The empty list stays the innermost one. -/
theorem payload_nest_innermost (n : Nat) : (h.nest n).payload h.objects.size = .list [] := by
  induction n with
  | zero => exact h.payload_alloc_self _
  | succ n ih => exact (payload_nest_succ (Nat.le_add_right _ _)).trans ih

/-- Each of the other lists encloses the one before it. -/
theorem payload_nest_enclosing {k n : Nat} (hk : k < n) :
    (h.nest n).payload (h.objects.size + (k + 1)) = .list [h.objects.size + k] := by
  induction n with
  | zero => cases hk
  | succ n ih =>
    rcases Nat.lt_succ_iff_lt_or_eq.mp hk with hlt | rfl
    · exact (payload_nest_succ (Nat.add_le_add_left hlt _)).trans (ih hlt)
    · have hnew := (h.nest k).payload_alloc_self (.list [h.objects.size + k])
      rwa [size_nest] at hnew

theorem depth_nest {k n : Nat} (hk : k ≤ n) : (h.nest n).depth (h.objects.size + k) = k + 1 := by
  induction k with
  | zero => rw [Nat.add_zero, depth, payload_nest_innermost]; rfl
  | succ k ih =>
    rw [depth, payload_nest_enclosing hk]
    simp [ih (Nat.le_of_succ_le hk)]

end Heap

/-- Programs can make such lists in every state. -/
theorem Store.Reached.nest {s : Store} (hs : s.Reached) (n : Nat) :
    Store.Reached { s with heap := s.heap.nest n } := by
  have hlist {t : Store} {items : List Ref} (hitems : ∀ i ∈ items, t.Has (.object i)) (p : Place)
      (hp : p ∈ Object.places { payload := .list items }) : t.Has p := by
    obtain ⟨i, hi, rfl⟩ : ∃ i ∈ items, Place.object i = p := by
      simpa [Object.places, Payload.places, Bindings.empty, Bindings.values] using hp
    exact hitems i hi
  induction n with
  | zero => exact hs.add (hlist (by simp))
  | succ n ih => exact ih.add (hlist (by simp [Store.Has]))

end TreeScript
