import Mathlib.Data.List.Basic
import TreeScript.Machine.Eval
import TreeScript.Proofs.Reach
import TreeScript.Proofs.StoredCode

/-!
# What programs make

Programs add objects to the heap in a few ways only: numbers, texts, lists and
built-in functions, functions as they are defined, classes below other classes,
instances, and methods that are bound to an instance, each with its view of the
instance. An object that is added is a product of the heap as it is. What holds
of all products, and stays true when objects are added, holds of every object
that a program makes.
-/

namespace TreeScript

/-! ## Functions of values -/

namespace Function

/-- A function that no value has been bound to. -/
def IsUnbound (fn : Function) : Prop := fn.self = none ∧ fn.super = none

theorem mem_insertInto {fn g : Function} {fns : List Function}
    (hg : g ∈ fn.insertInto fns) : g = fn ∨ g ∈ fns := by
  induction fns with
  | nil => exact .inl (List.mem_singleton.mp hg)
  | cons f fns ih =>
    unfold insertInto at hg
    split at hg
    · exact (List.mem_cons.mp hg).imp_right (List.mem_cons_of_mem f)
    · rcases List.mem_cons.mp hg with rfl | hg
      · exact .inr List.mem_cons_self
      · exact (ih hg).imp_right (List.mem_cons_of_mem f)

end Function

/-- The function of a function value, or the functions of an overload set. -/
def Payload.functions : Payload → List Function
  | .function fn => [fn]
  | .overloads _ fns => fns
  | _ => []

@[simp] theorem Payload.functions_mapFunctions (f : Function → Function) (p : Payload) :
    (p.mapFunctions f).functions = p.functions.map f := by
  cases p <;> rfl

/-- Function values and overload sets, which can be bound to a value. -/
inductive Payload.IsCode : Payload → Prop
  | function (fn : Function) : IsCode (.function fn)
  | overloads (name : String) (fns : List Function) : IsCode (.overloads name fns)

theorem Payload.IsCode.mapFunctions {p : Payload} (hp : p.IsCode) (f : Function → Function) :
    (p.mapFunctions f).IsCode := by
  cases hp with
  | function fn => exact .function _
  | overloads name fns => exact .overloads name _

/-- A class that was just made refers to its superclass alone. -/
theorem ClassInfo.mem_places_new {name : String} {parent : Ref} {p : Place}
    (hp : p ∈ ({ name, superclass := some parent } : ClassInfo).places) : p = .object parent := by
  simpa [ClassInfo.places, Bindings.values, Bindings.empty] using hp

theorem Object.mem_places_newClass {name : String} {parent : Ref} {p : Place}
    (hp : p ∈ ({ payload := .classObject { name, superclass := some parent } } : Object).places) :
    p = .object parent :=
  ClassInfo.mem_places_new
    (by simpa [places, Payload.places, Bindings.values, Bindings.empty] using hp)

theorem Payload.mem_places_of_mem_functions {p : Payload} {fn : Function} {q : Place}
    (hfn : fn ∈ p.functions) (hq : q ∈ fn.places) : q ∈ p.places := by
  cases p with
  | function g => exact List.mem_singleton.mp hfn ▸ hq
  | overloads name fns => exact List.mem_flatMap.mpr ⟨fn, hfn, hq⟩
  | _ => cases hfn

namespace Heap

variable {h : Heap}

theorem isBindable_iff_isCode {r : Ref} : h.isBindable r = true ↔ (h.payload r).IsCode := by
  unfold isBindable
  constructor
  · intro hr
    split at hr
    · next fn hp => exact hp ▸ .function fn
    · next name fns hp => exact hp ▸ .overloads name fns
    · cases hr
  · intro hr
    cases hp : h.payload r <;> rw [hp] at hr <;> first | rfl | cases hr

theorem isCode_foldDefinition (existing : Option Ref) (fn : Function) :
    (h.foldDefinition existing fn).IsCode := by
  unfold foldDefinition
  split
  · exact .overloads _ _
  · split
    · exact .function fn
    · exact .overloads _ _
  · exact .function fn

theorem payload_add_of_mem_functions (o : Object) {r : Ref} {fn : Function}
    (hfn : fn ∈ (h.payload r).functions) : (h.add o).2.payload r = h.payload r := by
  refine h.payload_add_of_ne_null o ?_
  intro hnull
  rw [hnull] at hfn
  cases hfn

/-- The functions of a definition are the one defined and those bound to the name before. -/
theorem mem_functions_foldDefinition {existing : Option Ref} {fn g : Function}
    (hg : g ∈ (h.foldDefinition existing fn).functions) :
    g = fn ∨ ∃ v, existing = some v ∧ g ∈ (h.payload v).functions := by
  unfold foldDefinition at hg
  split at hg
  · next name fns hp =>
    obtain ⟨v, hv, hp⟩ := Option.map_eq_some_iff.mp hp
    exact (Function.mem_insertInto hg).imp_right fun hg => ⟨v, hv, by rwa [hp]⟩
  · next old hp =>
    obtain ⟨v, hv, hp⟩ := Option.map_eq_some_iff.mp hp
    split at hg
    · exact .inl (List.mem_singleton.mp hg)
    · rcases List.mem_cons.mp hg with rfl | hg
      · exact .inr ⟨v, hv, by rw [hp]; exact List.mem_cons_self⟩
      · exact .inl (List.mem_singleton.mp hg)
  · exact .inl (List.mem_singleton.mp hg)

theorem rebind_of_isBindable {callee : Ref} (hc : h.isBindable callee = true)
    (f : Function → Function) :
    h.rebind callee f = h.alloc ((h.payload callee).mapFunctions f) := by
  unfold isBindable at hc
  unfold rebind
  cases hp : h.payload callee <;> rw [hp] at hc <;> first | rfl | cases hc

/-! ## Classes after an object is added -/

/-- Adding anything but a class leaves the classes as they are, also where there is none. -/
theorem class?_add_of_plain {o : Object} (ho : ∀ info, o.payload ≠ .classObject info) (r : Ref) :
    (h.add o).2.class? r = h.class? r := by
  by_cases hr : r = h.objects.size
  · subst hr
    have hnone : h.class? h.objects.size = none := by
      simp [class?, payload, object, Array.getD]
    rw [hnone, class?, payload, object_add_self]
    split
    · next info hinfo => exact absurd hinfo (ho info)
    · rfl
  · rw [class?, class?, h.payload_add_of_ne o hr]

/-- The nearest method is the same where classes are. -/
theorem findMethod?_congr {k : Heap} {c : Ref} (name : String)
    (hk : ∀ d ∈ h.ancestry c, k.class? d = h.class? d) :
    k.findMethod? c name = h.findMethod? c name := by
  have hancestry : k.ancestry c = h.ancestry c := ancestry_congr hk
  rw [findMethod?, findMethod?, hancestry, ← List.head?_filterMap, ← List.head?_filterMap]
  refine congrArg List.head? (List.filterMap_congr fun d hd => ?_)
  rw [methodOf?, methodOf?, hk d hd]

/-! ## Products -/

/-- The class from which upwards the methods of an instance are looked for. -/
inductive LooksFrom (h : Heap) (inst : Ref) : Ref → Prop
  | class {c : Ref} (hinst : h.payload inst = .instance c) : LooksFrom h inst c
  | view {v start : Ref} (hview : h.payload v = .superView inst start) : LooksFrom h inst start
  | builtin {c : Ref} (hc : IsShared c) : LooksFrom h inst c

/-- A method that is found for an instance, and the class that owns it. -/
def Offers (h : Heap) (inst owner method : Ref) : Prop :=
  ∃ start name, h.LooksFrom inst start ∧ h.findMethod? start name = some (owner, method)

/-- What a class may descend from. -/
def IsSuperclass (h : Heap) (c : Ref) : Prop :=
  (h.class? c).isSome = true ∨ c = BuiltinClass.object.ref

/-- The functions and overload sets that programs make: what a definition makes of the value that
the name was bound to, and a method bound to an instance and, if there is a superclass, to a view. -/
inductive ProducesCode (h : Heap) : Payload → Prop
  | definition (existing : Option Ref) {fn : Function} (hfn : fn.IsUnbound) :
    ProducesCode h (h.foldDefinition existing fn)
  | bound {inst owner method above view : Ref} (hoffers : h.Offers inst owner method)
    (habove : (h.class? owner).bind (·.superclass) = some above)
    (hview : h.payload view = .superView inst above) (hmethod : h.isBindable method = true) :
    ProducesCode h ((h.payload method).mapFunctions fun fn => (fn.bindSelf inst).bindSuper view)
  | boundToSelf {inst owner method : Ref} (hoffers : h.Offers inst owner method)
    (hroot : (h.class? owner).bind (·.superclass) = none) (hmethod : h.isBindable method = true) :
    ProducesCode h ((h.payload method).mapFunctions (·.bindSelf inst))

inductive Produces (h : Heap) : Object → Prop
  | number (x : Float) : Produces h { payload := .number x }
  | string (text : String) : Produces h { payload := .string text }
  | list (items : List Ref) : Produces h { payload := .list items }
  | native (name : String) (arity : Option Nat) (code : Intrinsic) :
    Produces h { payload := .native name arity code }
  | code {p : Payload} (hp : h.ProducesCode p) : Produces h { payload := p }
  | class (name : String) {parent : Ref} (hparent : h.IsSuperclass parent) :
    Produces h { payload := .classObject { name, superclass := some parent } }
  | instance {c : Ref} (hc : (h.class? c).isSome = true) :
    Produces h { payload := .instance c, fields := h.startingFields c }
  | view {inst owner method above : Ref} (hoffers : h.Offers inst owner method)
    (habove : (h.class? owner).bind (·.superclass) = some above) :
    Produces h { payload := .superView inst above }

theorem ProducesCode.isCode {p : Payload} (hp : h.ProducesCode p) : p.IsCode := by
  cases hp with
  | definition existing hfn => exact h.isCode_foldDefinition existing _
  | bound hoffers habove hview hmethod => exact (isBindable_iff_isCode.mp hmethod).mapFunctions _
  | boundToSelf hoffers hroot hmethod => exact (isBindable_iff_isCode.mp hmethod).mapFunctions _

/-- The class of a value is where its methods are looked for, unless it is a view. -/
theorem looksFrom_classOf {r : Ref} (hr : ∀ inst start, h.payload r ≠ .superView inst start) :
    h.LooksFrom r (h.classOf r) := by
  unfold classOf
  cases hp : h.payload r <;>
    first
    | exact .builtin (BuiltinClass.isShared_ref _)
    | exact .class hp
    | exact absurd hp (hr _ _)

theorem LooksFrom.add {inst start : Ref} (hstart : h.LooksFrom inst start) (o : Object) :
    (h.add o).2.LooksFrom inst start := by
  cases hstart with
  | «class» hinst =>
    refine .class ((h.payload_add_of_ne_null o ?_).trans hinst)
    simp [hinst]
  | @view v _ hview =>
    refine .view (v := v) ((h.payload_add_of_ne_null o ?_).trans hview)
    simp [hview]
  | builtin hc => exact .builtin hc

theorem Offers.add_of_plain {inst owner method : Ref} (hoffers : h.Offers inst owner method)
    {o : Object} (ho : ∀ info, o.payload ≠ .classObject info) :
    (h.add o).2.Offers inst owner method := by
  obtain ⟨start, name, hstart, hfind⟩ := hoffers
  exact ⟨start, name, hstart.add o,
    (findMethod?_congr name fun d _ => class?_add_of_plain ho d).trans hfind⟩

/-! ## Entries of classes -/

/-- What the definition of a class writes into its tables: a method, which takes in the functions
that the class has under its name so far, or any value as the default of a field. -/
inductive ClassEntry (h : Heap) (c : Ref) : ClassTable → String → Ref → Prop
  | method {fn : Function} {v : Ref} (hfn : fn.IsUnbound) (hv : h.isBindable v = true)
    (hfunctions : ∀ g ∈ (h.payload v).functions,
      g = fn ∨ ∃ w, h.methodOf? c fn.name = some w ∧ g ∈ (h.payload w).functions) :
    ClassEntry h c .methods fn.name v
  | default (name : String) (v : Ref) : ClassEntry h c .defaults name v

/-- The value of a definition is an entry of the class that the definition is a method of. -/
theorem classEntry_foldDefinition {c : Ref} {fn : Function} (hfn : fn.IsUnbound) :
    (h.alloc (h.foldDefinition (h.methodOf? c fn.name) fn)).2.ClassEntry c .methods fn.name
      h.objects.size := by
  let p := h.foldDefinition (h.methodOf? c fn.name) fn
  have hcode : p.IsCode := h.isCode_foldDefinition _ fn
  have hbindable : (h.alloc p).2.isBindable h.objects.size = true := by
    rw [isBindable_iff_isCode, payload_alloc_self]
    exact hcode
  have hplain : ∀ info, p ≠ .classObject info := by
    intro info hp
    rw [hp] at hcode
    cases hcode
  refine .method hfn hbindable fun g hg => ?_
  rw [payload_alloc_self] at hg
  refine (mem_functions_foldDefinition hg).imp_right ?_
  rintro ⟨w, hw, hgw⟩
  refine ⟨w, ?_, ?_⟩
  · rw [methodOf?, show (h.alloc p).2.class? c = h.class? c from class?_add_of_plain hplain c]
    exact hw
  · rwa [show (h.alloc p).2.payload w = h.payload w from payload_add_of_mem_functions _ hgw]

end Heap

end TreeScript
