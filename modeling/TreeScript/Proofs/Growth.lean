import TreeScript.Machine.Basic
import TreeScript.Scope.Chain
import TreeScript.Value.Change

/-!
# Growth

The heap and the scope of a machine form its store. Stores only grow: no frame
and no object disappears, a frame keeps its name and its parent, and a name that
a frame binds stays bound there, in its place among the names of the frame. The
head of the active chain is left out, since calls and blocks move it.
-/

namespace TreeScript

namespace Scope

variable {α : Type}

/-- The names that a frame binds, in order of arrival. -/
def namesIn (s : Scope α) (f : FrameId) : List String := (s.frame f).bindings.keys

structure Grows (s t : Scope α) : Prop where
  size : s.frames.size ≤ t.frames.size
  globals : t.globals = s.globals
  name : ∀ f < s.frames.size, (t.frame f).name = (s.frame f).name
  parent : ∀ f < s.frames.size, (t.frame f).parent = (s.frame f).parent
  names : ∀ f < s.frames.size, s.namesIn f <+: t.namesIn f

theorem Grows.refl (s : Scope α) : s.Grows s :=
  ⟨Nat.le_refl _, rfl, fun _ _ => rfl, fun _ _ => rfl, fun _ _ => List.prefix_refl _⟩

theorem Grows.trans {s t u : Scope α} (hst : s.Grows t) (htu : t.Grows u) : s.Grows u where
  size := Nat.le_trans hst.size htu.size
  globals := htu.globals.trans hst.globals
  name f hf := (htu.name f (Nat.lt_of_lt_of_le hf hst.size)).trans (hst.name f hf)
  parent f hf := (htu.parent f (Nat.lt_of_lt_of_le hf hst.size)).trans (hst.parent f hf)
  names f hf := (hst.names f hf).trans (htu.names f (Nat.lt_of_lt_of_le hf hst.size))

variable (s : Scope α) (f g : FrameId) (name : String) (value : α)

theorem grows_enter : s.Grows (s.enter f) :=
  ⟨Nat.le_refl _, rfl, fun _ _ => rfl, fun _ _ => rfl, fun _ _ => List.prefix_refl _⟩

theorem namesIn_defineIn_prefix : s.namesIn g <+: (s.defineIn f name value).namesIn g := by
  unfold namesIn
  rw [frame_defineIn]
  split
  · exact Bindings.keys_prefix_keys_set _ _ _
  · exact List.prefix_refl _

variable {g} in
theorem namesIn_defineIn_of_ne (h : f ≠ g) : (s.defineIn f name value).namesIn g = s.namesIn g := by
  rw [namesIn, namesIn, frame_defineIn_of_ne s name value h]

variable {f name} in
/-- Binding a name that the frame binds already adds no name to any frame. -/
theorem namesIn_defineIn_of_bindsIn (h : s.bindsIn f name = true) :
    (s.defineIn f name value).namesIn g = s.namesIn g := by
  unfold namesIn
  rw [frame_defineIn]
  split
  · next hf => exact Bindings.keys_set_of_contains (hf.1 ▸ h) value
  · rfl

theorem grows_defineIn : s.Grows (s.defineIn f name value) where
  size := Nat.le_of_eq (s.size_defineIn f name value).symm
  globals := rfl
  name g _ := s.name_defineIn f g name value
  parent g _ := s.parent_defineIn f g name value
  names g _ := s.namesIn_defineIn_prefix f g name value

@[simp] theorem size_newFrame (parent : Option FrameId) :
    (s.newFrame name parent).2.frames.size = s.frames.size + 1 := by
  simp [newFrame]

variable {g} in
theorem namesIn_newFrame_of_lt (parent : Option FrameId) (h : g < s.frames.size) :
    (s.newFrame name parent).2.namesIn g = s.namesIn g := by
  rw [namesIn, namesIn, s.frame_newFrame_of_lt name parent h]

/-- A place without a frame reads the same before and after one is added, except the new one. -/
theorem frame_newFrame_of_ne (parent : Option FrameId) {g : FrameId} (hg : g ≠ s.frames.size) :
    (s.newFrame name parent).2.frame g = s.frame g := by
  rcases Nat.lt_or_gt_of_ne hg with hg | hg
  · exact s.frame_newFrame_of_lt name parent hg
  · simp [newFrame, frame, Array.getD, Nat.not_lt_of_gt hg, Nat.not_lt_of_ge (Nat.succ_le_of_lt hg)]

theorem grows_newFrame (parent : Option FrameId) : s.Grows (s.newFrame name parent).2 where
  size := by simp
  globals := rfl
  name g hg := by rw [s.frame_newFrame_of_lt name parent hg]
  parent g hg := by rw [s.frame_newFrame_of_lt name parent hg]
  names g hg := (s.namesIn_newFrame_of_lt name parent hg).symm ▸ List.prefix_refl _

theorem bindsIn_of_owner? {s : Scope α} {f : FrameId} {name : String}
    (h : s.owner? name = some f) : s.bindsIn f name = true := by
  unfold owner? at h
  split at h
  · next g hg =>
    cases h
    exact List.find?_some (p := (s.bindsIn · name)) hg
  · split at h
    · cases h
      assumption
    · cases h

/-- Whatever happened since a frame was opened, if that frame is the head it can be closed. -/
theorem pop_of_grows_push {s t : Scope α} {name : String} (hgrows : (s.push name).Grows t)
    (hhead : t.head = (s.push name).head) : t.pop = .ok (t.enter s.head) := by
  have hne : (t.head == t.globals) = false := by
    rw [hhead, hgrows.globals]
    exact beq_eq_false_iff_ne.mpr (Nat.ne_of_gt s.globals_lt)
  have hparent : (t.frame t.head).parent = some s.head := by
    rw [hhead, hgrows.parent _ (by simp [push, enter])]
    exact congrArg Frame.parent (s.frame_newFrame_self name (some s.head))
  simp only [pop, hne, hparent]

end Scope

namespace Heap

variable (h : Heap) (r s : Ref)

@[simp] theorem size_add (o : Object) : (h.add o).2.objects.size = h.objects.size + 1 := by
  simp [add]

/-- A place without an object reads the same before and after one is added, except the new one. -/
theorem object_add_of_ne (o : Object) {r : Ref} (hr : r ≠ h.objects.size) :
    (h.add o).2.object r = h.object r := by
  rcases Nat.lt_or_gt_of_ne hr with hr | hr
  · exact h.object_add_of_lt o hr
  · simp [add, object, Array.getD, Nat.not_lt_of_gt hr, Nat.not_lt_of_ge (Nat.succ_le_of_lt hr)]

theorem payload_add_of_ne (o : Object) {r : Ref} (hr : r ≠ h.objects.size) :
    (h.add o).2.payload r = h.payload r :=
  congrArg Object.payload (h.object_add_of_ne o hr)

theorem object_setField_of_ne (name : String) (value : Ref) {r s : Ref} (hrs : r ≠ s) :
    (h.setField r name value).object s = h.object s := by
  rw [object_setField, if_neg fun hs => hrs hs.1]

@[simp] theorem size_updateClass (f : ClassInfo → ClassInfo) :
    (h.updateClass r f).objects.size = h.objects.size := by
  simp [updateClass]

/-- Changing a class changes its object, if there is a class, and nothing else. -/
theorem object_updateClass_cases (f : ClassInfo → ClassInfo) :
    (h.updateClass r f).object s = h.object s ∨ ∃ info, h.payload s = .classObject info ∧
      (h.updateClass r f).object s = { h.object s with payload := .classObject (f info) } := by
  by_cases hs : r = s ∧ s < h.objects.size
  · obtain ⟨rfl, hr⟩ := hs
    have hget : h.object r = h.objects[r] := by simp [object, Array.getD, hr]
    cases hp : (h.object r).payload with
    | classObject info =>
      refine .inr ⟨info, hp, ?_⟩
      rw [hget] at hp
      simp [updateClass, object, Array.getD, hr, Array.getElem_modify, hp]
    | _ =>
      refine .inl ?_
      rw [hget] at hp
      simp [updateClass, object, Array.getD, hr, Array.getElem_modify, hp]
  · refine .inl ?_
    by_cases hsize : s < h.objects.size
    · have hrs : r ≠ s := fun hrs => hs ⟨hrs, hsize⟩
      simp [updateClass, object, Array.getD, hsize, hrs, Array.getElem_modify]
    · simp [updateClass, object, Array.getD, hsize]

theorem object_updateClass_of_ne (f : ClassInfo → ClassInfo) {r s : Ref} (hrs : r ≠ s) :
    (h.updateClass r f).object s = h.object s := by
  by_cases hs : s < h.objects.size
  · simp [updateClass, object, Array.getD, hs, hrs, Array.getElem_modify]
  · simp [updateClass, object, Array.getD, hs]

/-- What changes when a class does is a class before and after. -/
theorem payload_updateClass_cases (f : ClassInfo → ClassInfo) :
    (h.updateClass r f).payload s = h.payload s ∨
      ∃ info, h.payload s = .classObject info ∧
        (h.updateClass r f).payload s = .classObject (f info) := by
  rcases h.object_updateClass_cases r s f with hsame | ⟨info, hinfo, hclass⟩
  · exact .inl (congrArg Object.payload hsame)
  · exact .inr ⟨info, hinfo, congrArg Object.payload hclass⟩

theorem payload_updateClass_of_ne (f : ClassInfo → ClassInfo) {r s : Ref} (hrs : r ≠ s) :
    (h.updateClass r f).payload s = h.payload s :=
  congrArg Object.payload (h.object_updateClass_of_ne f hrs)

end Heap

structure Store where
  heap : Heap
  scope : Scope Ref

def Machine.store (m : Machine) : Store := ⟨m.heap, m.scope⟩

namespace Store

structure Grows (s t : Store) : Prop where
  objects : s.heap.objects.size ≤ t.heap.objects.size
  scope : s.scope.Grows t.scope

theorem Grows.refl (s : Store) : s.Grows s := ⟨Nat.le_refl _, .refl _⟩

theorem Grows.trans {s t u : Store} (hst : s.Grows t) (htu : t.Grows u) : s.Grows u :=
  ⟨Nat.le_trans hst.objects htu.objects, hst.scope.trans htu.scope⟩

theorem grows_heap (s : Store) {h : Heap} (hsize : s.heap.objects.size ≤ h.objects.size) :
    s.Grows { s with heap := h } :=
  ⟨hsize, .refl _⟩

theorem grows_scope (s : Store) {scope : Scope Ref} (hscope : s.scope.Grows scope) :
    s.Grows { s with scope } :=
  ⟨Nat.le_refl _, hscope⟩

end Store

end TreeScript
