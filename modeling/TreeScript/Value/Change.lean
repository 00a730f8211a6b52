import TreeScript.Value.Heap

/-!
# Changes of the heap

A new object goes to the end of the heap and leaves the others alone. Writing a
field changes the fields of one object and no payload.
-/

namespace TreeScript.Heap

variable (h : Heap)

/-! ## Adding -/

@[simp] theorem fst_add (o : Object) : (h.add o).1 = h.objects.size := rfl

theorem object_add_self (o : Object) : (h.add o).2.object h.objects.size = o := by
  simp [add, object, Array.getD]

theorem object_add_of_lt (o : Object) {r : Ref} (hr : r < h.objects.size) :
    (h.add o).2.object r = h.object r := by
  simp [add, object, Array.getD, hr, Nat.lt_succ_of_lt hr, Array.getElem_push_lt]

theorem payload_add_self (o : Object) : (h.add o).2.payload h.objects.size = o.payload :=
  congrArg Object.payload (h.object_add_self o)

theorem payload_add_of_lt (o : Object) {r : Ref} (hr : r < h.objects.size) :
    (h.add o).2.payload r = h.payload r :=
  congrArg Object.payload (h.object_add_of_lt o hr)

@[simp] theorem fst_alloc (p : Payload) : (h.alloc p).1 = h.objects.size := rfl

theorem payload_alloc_self (p : Payload) : (h.alloc p).2.payload h.objects.size = p :=
  h.payload_add_self _

theorem payload_alloc_of_lt (p : Payload) {r : Ref} (hr : r < h.objects.size) :
    (h.alloc p).2.payload r = h.payload r :=
  h.payload_add_of_lt _ hr

/-- A place that holds more than null exists. -/
theorem lt_of_payload_ne_null {r : Ref} (hr : h.payload r ≠ .null) : r < h.objects.size := by
  refine Decidable.of_not_not fun hsize => hr ?_
  simp [payload, object, Array.getD, hsize]

theorem payload_add_of_ne_null (o : Object) {r : Ref} (hr : h.payload r ≠ .null) :
    (h.add o).2.payload r = h.payload r :=
  h.payload_add_of_lt o (h.lt_of_payload_ne_null hr)

/-! ## Writing a field -/

variable (r s : Ref) (name : String) (value : Ref)

@[simp] theorem size_setField : (h.setField r name value).objects.size = h.objects.size := by
  simp [setField]

theorem object_setField :
    (h.setField r name value).object s =
      if r = s ∧ s < h.objects.size then
        { h.object s with fields := (h.fields s).set name value }
      else h.object s := by
  by_cases hs : s < h.objects.size
  · by_cases hr : r = s
    · subst hr; simp [setField, object, fields, Array.getD, hs, Array.getElem_modify]
    · simp [setField, object, Array.getD, hs, hr, Array.getElem_modify]
  · simp [setField, object, Array.getD, hs]

@[simp] theorem payload_setField : (h.setField r name value).payload s = h.payload s := by
  simp only [payload, object_setField]; split <;> rfl

theorem fields_setField :
    (h.setField r name value).fields s =
      if r = s ∧ s < h.objects.size then (h.fields s).set name value else h.fields s := by
  simp only [fields, object_setField]; split <;> rfl

end TreeScript.Heap
