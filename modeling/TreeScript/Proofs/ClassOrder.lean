import TreeScript.Proofs.Arising
import TreeScript.Proofs.Equality

/-!
# The order of classes

A class descends from a class that was there before it, and the root class from
none, in whatever order programs define classes, under whatever names, and with
whatever expressions for their superclasses. So the walk along superclasses
passes classes only and ends with the root class, to be a subclass is a partial
order in which the superclasses of one class stand in a row, and every value is
of the root class. The operator `is` and typed patterns both go by that order.
-/

namespace TreeScript

namespace Heap

variable {h : Heap} {r c d : Ref}

/-! ## Classes after a change -/

@[simp] theorem class?_setField (r : Ref) (name : String) (v : Ref) :
    (h.setField r name v).class? c = h.class? c := by
  simp only [class?, payload_setField]

@[simp] theorem classOf_setField (r : Ref) (name : String) (v : Ref) :
    (h.setField r name v).classOf d = h.classOf d := by
  simp only [classOf, payload_setField]

theorem payload_ne_null_of_isSome (hc : (h.class? c).isSome = true) : h.payload c ≠ .null := by
  intro hnull
  simp [class?, hnull] at hc

/-- A class is the same after an object is added. -/
theorem class?_add_of_isSome (hc : (h.class? c).isSome = true) (o : Object) :
    (h.add o).2.class? c = h.class? c := by
  rw [class?, h.payload_add_of_ne_null o (payload_ne_null_of_isSome hc)]
  rfl

@[simp] theorem isSome_class?_updateClass (f : ClassInfo → ClassInfo) :
    ((h.updateClass r f).class? c).isSome = (h.class? c).isSome := by
  rcases h.payload_updateClass_cases r c f with hsame | ⟨info, hinfo, hclass⟩
  · simp only [class?, hsame]
  · rw [class?, class?, hinfo, hclass]
    rfl

/-- Entries of tables are all that changes about a class. -/
@[simp] theorem superclass_updateClass (table : ClassTable) (name : String) (v : Ref) :
    ((h.updateClass r (·.write table name v)).class? c).bind (·.superclass) =
      (h.class? c).bind (·.superclass) := by
  rcases h.payload_updateClass_cases r c (·.write table name v) with hsame | ⟨info, hinfo, hclass⟩
  · simp only [class?, hsame]
  · rw [class?, class?, hinfo, hclass]
    cases table <;> rfl

@[simp] theorem classOf_updateClass (f : ClassInfo → ClassInfo) :
    (h.updateClass r f).classOf d = h.classOf d := by
  rcases h.payload_updateClass_cases r d f with hsame | ⟨info, hinfo, hclass⟩
  · simp only [classOf, hsame]
  · rw [classOf, classOf, hinfo, hclass]

/-! ## Classes descend from classes -/

/-- The values that all programs share are as they were at first, every class but the root descends
from an older class, and every value has a class. -/
structure Classed (h : Heap) : Prop where
  shared : ∀ r, IsShared r → h.payload r = Heap.initial.payload r
  parent : ∀ c, (h.class? c).isSome = true → c ≠ BuiltinClass.object.ref →
    ∃ p < c, (h.class? c).bind (·.superclass) = some p ∧ (h.class? p).isSome = true
  classOf : ∀ r, (h.class? (h.classOf r)).isSome = true

theorem classed_initial : Heap.initial.Classed := by
  refine ⟨fun _ _ => rfl, ?_, ?_⟩
  · intro c hc hroot
    have hparents : ∀ c < Heap.initial.objects.size, (Heap.initial.class? c).isSome = true →
        c ≠ BuiltinClass.object.ref → 0 < c ∧
        (Heap.initial.class? c).bind (·.superclass) = some BuiltinClass.object.ref := by decide
    have hsize := Heap.initial.lt_of_payload_ne_null (payload_ne_null_of_isSome hc)
    obtain ⟨hpos, hparent⟩ := hparents c hsize hc hroot
    exact ⟨BuiltinClass.object.ref, hpos, hparent, rfl⟩
  · intro r
    by_cases hr : r < Heap.initial.objects.size
    · revert r
      decide
    · have hnull : Heap.initial.payload r = .null := by
        simp [payload, object, Array.getD, hr]
      rw [Heap.classOf, hnull]
      rfl

namespace Classed

variable (hh : h.Classed)

include hh

theorem class?_of_isShared (hr : IsShared r) : h.class? r = Heap.initial.class? r := by
  rw [class?, hh.shared r hr]
  rfl

theorem isSome_class?_ref (b : BuiltinClass) : (h.class? b.ref).isSome = true := by
  rw [hh.class?_of_isShared b.isShared_ref]
  cases b <;> rfl

theorem isSome_of_isSuperclass (hc : h.IsSuperclass c) : (h.class? c).isSome = true :=
  hc.elim id fun hc => hc ▸ hh.isSome_class?_ref .object

theorem root : (h.class? BuiltinClass.object.ref).bind (·.superclass) = none := by
  rw [hh.class?_of_isShared (BuiltinClass.isShared_ref .object)]
  rfl

/-- What a class descends from is an older class. -/
theorem of_superclass {p : Ref} (hp : (h.class? c).bind (·.superclass) = some p) :
    p < c ∧ (h.class? p).isSome = true := by
  have hc : (h.class? c).isSome = true := by
    obtain ⟨info, hinfo, -⟩ := Option.bind_eq_some_iff.mp hp
    simp [hinfo]
  have hroot : c ≠ BuiltinClass.object.ref := by
    rintro rfl
    rw [hh.root] at hp
    cases hp
  obtain ⟨q, hq, hparent, hclass⟩ := hh.parent c hc hroot
  rw [hp] at hparent
  cases hparent
  exact ⟨hq, hclass⟩

/-- A product has a class, whatever it is. -/
theorem isSome_classOf_of_produces {o : Object} (ho : h.Produces o) :
    (h.class? ((h.add o).2.classOf h.objects.size)).isSome = true := by
  have hbuiltin := hh.isSome_class?_ref
  rw [Heap.classOf, payload_add_self]
  cases ho with
  | code hp =>
    have hcode := hp.isCode
    cases hcode <;> exact hbuiltin .function
  | number x => exact hbuiltin .number
  | string text => exact hbuiltin .string
  | list items => exact hbuiltin .list
  | native name arity code => exact hbuiltin .function
  | «class» name hparent => exact hbuiltin .cls
  | «instance» hc => exact hc
  | view hoffers habove => exact (hh.of_superclass habove).2

end Classed

/-- Classes are made with a name and a superclass, and nothing else. -/
theorem info_of_produces {o : Object} {info : ClassInfo} (ho : h.Produces o)
    (hinfo : o.payload = .classObject info) :
    ∃ name parent, info = { name, superclass := some parent } ∧ h.IsSuperclass parent := by
  cases ho with
  | code hp =>
    obtain rfl : _ = Payload.classObject info := hinfo
    cases hp.isCode
  | «class» name hparent =>
    cases hinfo
    exact ⟨name, _, rfl, hparent⟩
  | _ => cases hinfo

theorem Classed.add (hh : h.Classed) (hsize : Heap.initial.objects.size ≤ h.objects.size)
    {o : Object} (ho : h.Produces o) : (h.add o).2.Classed := by
  have old {c : Ref} (hc : (h.class? c).isSome = true) : ((h.add o).2.class? c).isSome = true := by
    rwa [class?_add_of_isSome hc]
  refine ⟨?_, ?_, ?_⟩
  · intro r hr
    refine Eq.trans ?_ (hh.shared r hr)
    exact h.payload_add_of_lt o (Nat.lt_of_lt_of_le hr hsize)
  · intro c hc hroot
    by_cases hnew : c = h.objects.size
    · subst hnew
      cases hp : o.payload with
      | classObject info =>
        have hinfo : (h.add o).2.class? h.objects.size = some info := by
          rw [class?, payload_add_self, hp]
        obtain ⟨name, parent, rfl, hsuper⟩ := info_of_produces ho hp
        have hclass := hh.isSome_of_isSuperclass hsuper
        refine ⟨parent, h.lt_of_payload_ne_null (payload_ne_null_of_isSome hclass), ?_, old hclass⟩
        rw [hinfo]
        rfl
      | _ =>
        rw [class?, payload_add_self, hp] at hc
        cases hc
    · have hsame : (h.add o).2.class? c = h.class? c := by
        rw [class?, h.payload_add_of_ne o hnew]
        rfl
      rw [hsame] at hc ⊢
      obtain ⟨p, hp, hparent, hclass⟩ := hh.parent c hc hroot
      exact ⟨p, hp, hparent, old hclass⟩
  · intro r
    by_cases hnew : r = h.objects.size
    · subst hnew
      exact old (hh.isSome_classOf_of_produces ho)
    · have hsame : (h.add o).2.classOf r = h.classOf r := by
        rw [Heap.classOf, h.payload_add_of_ne o hnew]
        rfl
      rw [hsame]
      exact old (hh.classOf r)

theorem Classed.setField (hh : h.Classed) (r : Ref) (name : String) (v : Ref) :
    (h.setField r name v).Classed := by
  refine ⟨?_, ?_, ?_⟩
  · simpa using hh.shared
  · simpa using hh.parent
  · simpa using hh.classOf

theorem Classed.updateClass (hh : h.Classed) {c : Ref} (hc : ¬ IsShared c) (table : ClassTable)
    (name : String) (v : Ref) : (h.updateClass c (·.write table name v)).Classed := by
  refine ⟨?_, ?_, ?_⟩
  · intro r hr
    refine Eq.trans ?_ (hh.shared r hr)
    have hne : c ≠ r := fun hcr => hc (hcr ▸ hr)
    exact h.payload_updateClass_of_ne _ hne
  · simpa using hh.parent
  · simpa using hh.classOf

/-! ## The order -/

theorem isSubclass_iff : h.isSubclass c d = true ↔ d ∈ h.ancestry c := by
  simp [isSubclass]

/-- The classes are ordered by descent: each ancestry is the row of superclasses up to the root
class, and to be a subclass is a partial order that is linear above every class. -/
structure Hierarchy (h : Heap) : Prop where
  root : (h.class? BuiltinClass.object.ref).bind (·.superclass) = none
  ancestry_head : ∀ c, (h.ancestry c).head? = some c
  ancestry_nodup : ∀ c, (h.ancestry c).Nodup
  ancestry_links : ∀ c, (h.ancestry c).IsChain fun d p =>
    (h.class? d).bind (·.superclass) = some p
  ancestry_classes : ∀ c, (h.class? c).isSome = true → ∀ d ∈ h.ancestry c,
    (h.class? d).isSome = true
  ancestry_last : ∀ c, (h.class? c).isSome = true →
    (h.ancestry c).getLast? = some BuiltinClass.object.ref
  refl : ∀ c, h.isSubclass c c = true
  trans : ∀ a b c, h.isSubclass a b = true → h.isSubclass b c = true → h.isSubclass a c = true
  antisymm : ∀ a b, h.isSubclass a b = true → h.isSubclass b a = true → a = b
  comparable : ∀ a b c, h.isSubclass c a = true → h.isSubclass c b = true →
    h.isSubclass a b = true ∨ h.isSubclass b a = true
  classOf : ∀ v, (h.class? (h.classOf v)).isSome = true
  isSubclass_root : ∀ v, h.isSubclass (h.classOf v) BuiltinClass.object.ref = true

namespace Classed

variable (hh : h.Classed)

include hh

/-- The walk along superclasses takes every link that is there. -/
theorem ancestry_of_superclass {p : Ref} (hp : (h.class? c).bind (·.superclass) = some p) :
    h.ancestry c = c :: h.ancestry p := by
  have hlt := (hh.of_superclass hp).1
  have hsup : h.superclass? c = some ⟨p, hlt⟩ := by
    unfold superclass?
    rw [hp]
    exact dif_pos hlt
  rw [h.ancestry_eq c, hsup]
  rfl

omit hh in
theorem ancestry_of_root (hc : (h.class? c).bind (·.superclass) = none) : h.ancestry c = [c] := by
  have hsup : h.superclass? c = none := by
    unfold superclass?
    rw [hc]
  rw [h.ancestry_eq c, hsup]
  rfl

/-- What holds of a class that descends from none, and of a class if it holds of what it descends
from, holds of all classes. -/
theorem descent_induction {P : Ref → Prop} (root : ∀ c, (h.class? c).bind (·.superclass) = none → P c)
    (below : ∀ c p, (h.class? c).bind (·.superclass) = some p → P p → P c) (c : Ref) : P c := by
  induction c using Nat.strongRecOn with
  | ind c ih =>
    cases hp : (h.class? c).bind (·.superclass) with
    | none => exact root c hp
    | some p => exact below c p hp (ih p (hh.of_superclass hp).1)

theorem isChain_ancestry (c : Ref) :
    (h.ancestry c).IsChain fun d p => (h.class? d).bind (·.superclass) = some p := by
  induction c using hh.descent_induction with
  | root c hc => exact ancestry_of_root hc ▸ .singleton c
  | below c p hp ih =>
    rw [hh.ancestry_of_superclass hp]
    rw [h.ancestry_eq p] at ih ⊢
    exact List.isChain_cons_cons.mpr ⟨hp, ih⟩

theorem isSome_of_mem_ancestry (hc : (h.class? c).isSome = true) (hd : d ∈ h.ancestry c) :
    (h.class? d).isSome = true := by
  induction c using hh.descent_induction with
  | root c hroot =>
    rw [ancestry_of_root hroot] at hd
    exact List.mem_singleton.mp hd ▸ hc
  | below c p hp ih =>
    rw [hh.ancestry_of_superclass hp] at hd
    rcases List.mem_cons.mp hd with rfl | hd
    · exact hc
    · exact ih (hh.of_superclass hp).2 hd

/-- The one class that descends from none is the root class. -/
theorem eq_root (hc : (h.class? c).isSome = true)
    (hroot : (h.class? c).bind (·.superclass) = none) : c = BuiltinClass.object.ref := by
  refine Decidable.of_not_not fun hne => ?_
  obtain ⟨p, -, hp, -⟩ := hh.parent c hc hne
  rw [hroot] at hp
  cases hp

theorem getLast?_ancestry (hc : (h.class? c).isSome = true) :
    (h.ancestry c).getLast? = some BuiltinClass.object.ref := by
  induction c using hh.descent_induction with
  | root c hroot =>
    rw [ancestry_of_root hroot, hh.eq_root hc hroot]
    rfl
  | below c p hp ih =>
    rw [hh.ancestry_of_superclass hp, List.getLast?_cons, ih (hh.of_superclass hp).2]
    rfl

theorem hierarchy : h.Hierarchy := by
  refine
    { root := hh.root
      ancestry_head := ?_
      ancestry_nodup := h.nodup_ancestry
      ancestry_links := hh.isChain_ancestry
      ancestry_classes := fun c hc d hd => hh.isSome_of_mem_ancestry hc hd
      ancestry_last := fun c hc => hh.getLast?_ancestry hc
      refl := fun c => isSubclass_iff.mpr (h.self_mem_ancestry c)
      trans := ?_
      antisymm := ?_
      comparable := ?_
      classOf := hh.classOf
      isSubclass_root := ?_ }
  · intro c
    rw [ancestry_eq]
    rfl
  · intro a b c hab hbc
    rw [isSubclass_iff] at hab hbc ⊢
    exact (h.ancestry_suffix hab).subset hbc
  · intro a b hab hba
    rw [isSubclass_iff] at hab hba
    exact Nat.le_antisymm (h.le_of_mem_ancestry hba) (h.le_of_mem_ancestry hab)
  · intro a b c hca hcb
    simp only [isSubclass_iff] at hca hcb ⊢
    -- the ancestries of both are ends of one list, so one is an end of the other
    rcases List.suffix_or_suffix_of_suffix (h.ancestry_suffix hca) (h.ancestry_suffix hcb)
      with hab | hba
    · exact .inr (hab.subset (h.self_mem_ancestry a))
    · exact .inl (hba.subset (h.self_mem_ancestry b))
  · intro v
    exact isSubclass_iff.mpr (List.mem_of_getLast? (hh.getLast?_ancestry (hh.classOf v)))

end Classed

end Heap

open Store

theorem Store.Arises.classed {cs : List Ref} {s : Store} (hs : s.Arises cs) : s.heap.Classed := by
  refine hs.heap_induction Heap.classed_initial ?_ ?_ ?_
  · intro cs s o hs hh hmade _
    exact hh.add hs.defines.intact.shared hmade
  · intro cs s r name v _ hh
    exact hh.setField r name v
  · intro cs s c v table name hs hh _ _
    exact hh.updateClass (hs.defines.made c List.mem_cons_self).2 table name v

namespace Run

variable {evaluate : Evaluator} {m m' : Machine} {v c : Ref}

/-- Once its operands are evaluated, and the second is a class, the operator tells whether that is in
the ancestry of the class of the first. -/
theorem evaluateLevel_isA (rounds : Nat) (loc : Option Loc) {left right : Expr}
    (h : Operands evaluate left right m v c m') (hc : (m'.heap.class? c).isSome = true) :
    evaluateLevel evaluate rounds (.operator loc "is" left right) m =
      .done (Heap.ofBool (m'.heap.isSubclass (m'.heap.classOf v) c)) m' := by
  obtain ⟨m₁, hl, hr⟩ := h
  have hclass : asClass c m' = .done c m' := by
    unfold asClass
    rw [look_bind, if_pos hc]
    rfl
  exact (bind_done hl _).trans ((bind_done hr _).trans (bind_done hclass _))

/-- A typed pattern accepts by the same test, and binds its name if it does. -/
theorem accepts_typed (frame : FrameId) (loc : Option Loc) (name : String) {cls : Expr}
    (h : evaluate cls m = .done c m') (hc : (m'.heap.class? c).isSome = true) :
    accepts evaluate frame (.typed loc name cls) v m =
      .done (m'.heap.isSubclass (m'.heap.classOf v) c)
        (if m'.heap.isSubclass (m'.heap.classOf v) c then
          { m' with scope := m'.scope.defineIn frame name v } else m') := by
  rw [accepts, bind_done h, look_bind, hc]
  cases m'.heap.isSubclass (m'.heap.classOf v) c <;> rfl

end Run

namespace Machine

/-- In every state that programs pass through, the classes are ordered by descent, with the root class
at the end of every ancestry, and the operator `is` and typed patterns both tell whether a class is in
the ancestry of the class of a value; so every value is of the root class. -/
theorem classOrder {cs : List Ref} {m : Machine} (hm : m.store.Arises cs) :
    m.heap.Hierarchy ∧
    (∀ v c, (m.heap.class? c).isSome = true →
      (∀ evaluate rounds loc left right m₀, Run.Operands evaluate left right m₀ v c m →
        Run.evaluateLevel evaluate rounds (.operator loc "is" left right) m₀ =
          .done (Heap.ofBool (decide (c ∈ m.heap.ancestry (m.heap.classOf v)))) m) ∧
      (∀ evaluate frame loc name cls m₀, evaluate cls m₀ = .done c m →
        ∃ m', Run.accepts evaluate frame (.typed loc name cls) v m₀ =
          .done (decide (c ∈ m.heap.ancestry (m.heap.classOf v))) m')) ∧
    (∀ v evaluate rounds loc left right m₀,
      Run.Operands evaluate left right m₀ v BuiltinClass.object.ref m →
      Run.evaluateLevel evaluate rounds (.operator loc "is" left right) m₀ =
        .done Heap.trueRef m) := by
  have hh : m.heap.Classed := hm.classed
  have hsubclass (v c : Ref) : m.heap.isSubclass (m.heap.classOf v) c =
      decide (c ∈ m.heap.ancestry (m.heap.classOf v)) := by
    rw [Bool.eq_iff_iff, Heap.isSubclass_iff, decide_eq_true_iff]
  refine ⟨hh.hierarchy, ?_, ?_⟩
  · intro v c hc
    refine ⟨?_, ?_⟩
    · intro evaluate rounds loc left right m₀ h
      rw [Run.evaluateLevel_isA rounds loc h hc, hsubclass]
    · intro evaluate frame loc name cls m₀ h
      exact ⟨_, (Run.accepts_typed frame loc name h hc).trans (by rw [hsubclass])⟩
  · intro v evaluate rounds loc left right m₀ h
    rw [Run.evaluateLevel_isA rounds loc h (hh.isSome_class?_ref .object),
      hh.hierarchy.isSubclass_root v]
    rfl

/-- A class below another class below the root class, and an instance of it. -/
theorem classOrder_of_two :
    let a := (Heap.initial.alloc (.classObject { name := "A", superclass := some 0 })).2
    let b := (a.alloc (.classObject { name := "B", superclass := some 11 })).2
    let m := { Machine.bare false with heap := (b.allocInstance 12).2 }
    m.store.Arises [] ∧ m.heap.classOf 13 = 12 ∧ m.heap.isSubclass (m.heap.classOf 13) 0 = true ∧
      (m.heap.ancestry 12).getLast? = some 0 := by
  intro a b m
  let scope : Scope Ref := .withGlobals "<globals>"
  have ha : Store.Arises [] ⟨a, scope⟩ :=
    ((Store.Arises.start false).begin "A" (by decide) (.inr rfl)).finish
  have hb : Store.Arises [] ⟨b, scope⟩ := (ha.begin "B" (by decide) (.inl rfl)).finish
  have hm : m.store.Arises [] := hb.allocInstance rfl (by decide)
  have horder := (classOrder hm).1
  exact ⟨hm, rfl, horder.isSubclass_root 13, horder.ancestry_last 12 rfl⟩

end Machine

end TreeScript
