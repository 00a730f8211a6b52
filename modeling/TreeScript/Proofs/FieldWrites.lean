import TreeScript.Proofs.Members
import TreeScript.Proofs.Reached

/-!
# Reading after writing

Every value writes its members to the fields of one object, and every value but a
class reads them from there first. So after a write the member is read as it was
written, by all values that share the object. Any other read finds what it found
before, and makes what it made before: a write changes neither payloads nor the
size of the heap, so it can be put off until after the read.
-/

namespace TreeScript

/-- A field of an object. -/
structure Slot where
  object : Ref
  name : String
  deriving Repr, DecidableEq

namespace Heap

/-- The object that has the fields of a value: a view has those of its instance. -/
def holder (h : Heap) (r : Ref) : Ref :=
  match h.payload r with
  | .superView inst _ => inst
  | _ => r

/-- Writing the member of a value goes to the slot. -/
def WritesTo (h : Heap) (s : Slot) (r : Ref) (name : String) : Prop :=
  h.holder r = s.object ∧ name = s.name

instance (h : Heap) (s : Slot) (r : Ref) (name : String) : Decidable (h.WritesTo s r name) :=
  inferInstanceAs (Decidable (_ ∧ _))

/-- The slot is where reading the member of a value looks first. A class never looks at fields. -/
def ReadsFrom (h : Heap) (s : Slot) (r : Ref) (name : String) : Prop :=
  h.WritesTo s r name ∧ h.class? r = none

instance (h : Heap) (s : Slot) (r : Ref) (name : String) : Decidable (h.ReadsFrom s r name) :=
  inferInstanceAs (Decidable (_ ∧ _))

/-- The slot is filled with a value. -/
def Fills (h : Heap) (s : Slot) (v : Ref) : Prop := (h.fields s.object).get? s.name = some v

variable {h : Heap} {s : Slot} {r v : Ref} {name : String}

theorem setMember_eq (h : Heap) (r : Ref) (name : String) (v : Ref) :
    h.setMember r name v = h.setField (h.holder r) name v := by
  unfold setMember holder
  cases h.payload r <;> rfl

/-- What is not a class reads a field of its object, or else a method of its class. -/
theorem member?_of_class?_eq_none (hr : h.class? r = none) (name : String) :
    h.member? r name = h.fieldOrMethod? (h.holder r) (h.classOf r) name := by
  unfold class? at hr
  unfold member? holder classOf
  cases hp : h.payload r with
  | classObject info =>
    rw [hp] at hr
    cases hr
  | _ => rfl

/-- What is shown is read, as it is, and nothing is made. -/
theorem Fills.member? (hv : h.Fills s v) (hr : h.ReadsFrom s r name) :
    h.member? r name = some (v, h) := by
  obtain ⟨⟨hholder, rfl⟩, hclass⟩ := hr
  rw [member?_of_class?_eq_none hclass, fieldOrMethod?, hholder, hv]

/-! ## Writing a slot -/

variable {w : Ref}

theorem fills_setField (hs : s.object < h.objects.size) (v : Ref) :
    (h.setField s.object s.name v).Fills s v := by
  rw [Fills, fields_setField, if_pos ⟨rfl, hs⟩, Bindings.get?_set_self]

/-- Only a write to the slot itself fills it with something else. -/
theorem Fills.setField {o : Ref} (hv : h.Fills s v) (hne : ¬ (o = s.object ∧ name = s.name))
    (w : Ref) : (h.setField o name w).Fills s v := by
  rw [Fills, fields_setField]
  split
  · next hsame =>
    rw [Bindings.get?_set_of_ne _ fun hname => hne ⟨hsame.1, hname.symm⟩]
    exact hv
  · exact hv

theorem Fills.setMember (hv : h.Fills s v) (hr : ¬ h.WritesTo s r name) (w : Ref) :
    (h.setMember r name w).Fills s v := by
  rw [setMember_eq]
  exact hv.setField hr w

/-- A write changes neither what shares an object nor what is a class. -/
theorem readsFrom_setField {o : Ref} {field : String} {w : Ref} :
    (h.setField o field w).ReadsFrom s r name ↔ h.ReadsFrom s r name := by
  simp only [ReadsFrom, WritesTo, holder, payload_setField, class?_setField]

/-- An object that has a filled slot exists. -/
theorem Fills.lt (hv : h.Fills s v) : s.object < h.objects.size := by
  refine Decidable.of_not_not fun hsize => ?_
  simp [Fills, fields, object, Array.getD, hsize, Bindings.get?, Bindings.empty] at hv

theorem Fills.add (hv : h.Fills s v) (o : Object) : (h.add o).2.Fills s v := by
  rw [Fills, fields, h.object_add_of_lt o hv.lt]
  exact hv

theorem Fills.updateClass (hv : h.Fills s v) (c : Ref) (f : ClassInfo → ClassInfo) :
    (h.updateClass c f).Fills s v := by
  rcases h.object_updateClass_cases c s.object f with hsame | ⟨info, -, hclass⟩
  · rw [Fills, fields, hsame]
    exact hv
  · rw [Fills, fields, hclass]
    exact hv

/-! ## Other reads -/

/-- What has been found and made, with the slot filled after it. -/
def thenFill (s : Slot) (v : Ref) (made : Ref × Heap) : Ref × Heap :=
  (made.1, made.2.setField s.object s.name v)

section

variable (hs : s.object < h.objects.size)

include hs

/-- A slot that exists may as well be filled after an object is added. -/
theorem add_setField (o : Object) :
    (h.setField s.object s.name v).add o = thenFill s v (h.add o) := by
  let fill (o : Object) : Object := { o with fields := o.fields.set s.name v }
  have hobjects :
      (h.objects.modify s.object fill).push o = (h.objects.push o).modify s.object fill := by
    apply Array.ext
    · simp
    · intro i hi hi'
      rw [Array.getElem_modify]
      simp only [Array.getElem_push, Array.size_modify, Array.getElem_modify]
      by_cases hlt : i < h.objects.size
      · simp [hlt]
      · have hne : s.object ≠ i := fun h => hlt (h ▸ hs)
        simp [hlt, hne]
  exact Prod.ext (h.size_setField s.object s.name v) (congrArg Heap.mk hobjects)

theorem rebind_setField (callee : Ref) (f : Function → Function) :
    (h.setField s.object s.name v).rebind callee f = thenFill s v (h.rebind callee f) := by
  unfold rebind
  rw [payload_setField]
  cases h.payload callee
  case function | overloads => exact add_setField hs _
  all_goals rfl

theorem bindMethod_setField (method inst owner : Ref) :
    (h.setField s.object s.name v).bindMethod method inst owner =
      thenFill s v (h.bindMethod method inst owner) := by
  have hbindable : (h.setField s.object s.name v).isBindable method = h.isBindable method := by
    simp only [isBindable, payload_setField]
  unfold bindMethod
  rw [hbindable, class?_setField]
  split
  · cases (h.class? owner).bind (·.superclass) with
    | some start =>
      have hview : s.object < (h.alloc (.superView inst start)).2.objects.size :=
        Nat.lt_of_lt_of_le hs (by simp [alloc, add])
      have hmade : (h.setField s.object s.name v).alloc (.superView inst start) =
          thenFill s v (h.alloc (.superView inst start)) := add_setField hs _
      simp only [hmade]
      exact rebind_setField hview method _
    | none => exact rebind_setField hs method _
  · rfl

theorem fieldOrMethod?_setField {inst : Ref} (hne : ¬ (inst = s.object ∧ name = s.name))
    (start : Ref) :
    (h.setField s.object s.name v).fieldOrMethod? inst start name =
      (h.fieldOrMethod? inst start name).map (thenFill s v) := by
  have hfield : ((h.setField s.object s.name v).fields inst).get? name =
      (h.fields inst).get? name := by
    rw [fields_setField]
    split
    · next hsame => exact Bindings.get?_set_of_ne _ (fun hname => hne ⟨hsame.1.symm, hname⟩) v
    · rfl
  unfold fieldOrMethod?
  rw [hfield, findMethod?_congr_of_classes fun d => class?_setField s.object s.name v]
  cases (h.fields inst).get? name with
  | some w => rfl
  | none =>
    cases h.findMethod? start name with
    | none => rfl
    | some found => exact congrArg some (bindMethod_setField hs found.2 inst found.1)

/-- A read that does not look at the slot first finds and makes what it would without the write. -/
theorem member?_setField (hr : ¬ h.ReadsFrom s r name) :
    (h.setField s.object s.name v).member? r name = (h.member? r name).map (thenFill s v) := by
  have hclasses (d : Ref) : (h.setField s.object s.name v).class? d = h.class? d :=
    class?_setField s.object s.name v
  cases hclass : h.class? r with
  | some info =>
    unfold member?
    rw [payload_setField, payload_of_class? hclass]
    dsimp only
    rw [findMethod?_congr_of_classes hclasses, findDefault?_congr_of_classes hclasses]
    cases h.findMethod? r name with
    | some found => rfl
    | none => cases h.findDefault? r name <;> rfl
  | none =>
    have hne : ¬ (h.holder r = s.object ∧ name = s.name) := fun h => hr ⟨h, hclass⟩
    have hholder : (h.setField s.object s.name v).holder r = h.holder r := by
      simp only [holder, payload_setField]
    rw [member?_of_class?_eq_none hclass, member?_of_class?_eq_none ((hclasses r).trans hclass),
      hholder, classOf_setField, fieldOrMethod?_setField hs hne]

end

/-- How a value is displayed does not depend on fields. -/
theorem display_setField (o : Ref) (name : String) (v r : Ref) :
    (h.setField o name v).display r = h.display r := by
  have hname (c : Ref) : (h.setField o name v).className c = h.className c := by
    simp only [className, class?_setField]
  induction r using Nat.strongRecOn with
  | ind r ih =>
    rw [display, display, payload_setField]
    cases h.payload r with
    | list items =>
      dsimp only
      congr 3
      refine List.map_congr_left fun i _ => ?_
      split
      · next hi => exact ih i hi
      · rfl
    | superView inst start =>
      dsimp only
      rw [hname]
      congr 2
      split
      · next hi => rw [ih inst hi]
      · rfl
    | _ => simp only [hname]

theorem depth_setField (o : Ref) (name : String) (v r : Ref) :
    (h.setField o name v).depth r = h.depth r := by
  induction r using Nat.strongRecOn with
  | ind r ih =>
    rw [depth, depth, payload_setField]
    cases h.payload r with
    | list items =>
      dsimp only
      congr 2
      refine List.map_congr_left fun i _ => ?_
      split
      · next hi => exact ih i hi
      · rfl
    | _ => rfl

theorem display?_setField (o : Ref) (name : String) (v : Ref) (room : Nat) (r : Ref) :
    (h.setField o name v).display? room r = h.display? room r := by
  rw [display?, display?, depth_setField, display_setField]

end Heap

/-- In every state that programs pass through, what a value writes its members to exists. -/
theorem Machine.Reached.holder_lt {m : Machine} (hm : m.Reached) {r : Ref}
    (hr : m.store.Has (.object r)) : m.heap.holder r < m.heap.objects.size := by
  unfold Heap.holder
  split
  · next inst start hp =>
    have hinst : m.store.Has (.object inst) :=
      (Store.Reached.closed hm.inv).payload hr (by simp [Machine.store, hp, Payload.places])
    exact hinst
  · exact hr

/-- The end of a computation, with the slot filled after it. -/
def Outcome.thenFill {α : Type} (s : Slot) (v : Ref) : Outcome α → Outcome α
  | .done a m => .done a { m with heap := m.heap.setField s.object s.name v }
  | .failed e m => .failed e { m with heap := m.heap.setField s.object s.name v }
  | .exhausted => .exhausted

/-- Reading a member where the slot is not looked at first ends as it would without the write, in the
same value or the same fault. -/
theorem Run.readMember_setField {m : Machine} {s : Slot} {r : Ref} {name : String} (room : Room)
    (hs : s.object < m.heap.objects.size) (hr : ¬ m.heap.ReadsFrom s r name) (v : Ref) :
    readMember room r name { m with heap := m.heap.setField s.object s.name v } =
      (readMember room r name m).thenFill s v := by
  unfold readMember
  rw [Heap.member?_setField hs hr]
  cases m.heap.member? r name with
  | some made => rfl
  | none =>
    dsimp only [Option.map_none]
    rw [display, lookDeep_bind, lookDeep_bind, Heap.display?_setField]
    cases m.heap.display? room.shown r <;> rfl

end TreeScript
