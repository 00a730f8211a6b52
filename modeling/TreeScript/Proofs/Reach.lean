import TreeScript.Proofs.Growth
import TreeScript.Value.Ancestry
import TreeScript.Value.Members

/-!
# What a store refers to

Frames and objects refer to each other: a frame to its parent and to the values
it binds, an object to the values in its fields and to whatever its payload
holds. A set of places is closed if it has all that its members refer to, and
the places within reach of some roots are the least closed set with those roots.

Whatever is read off members of a closed set (the class of a value, a method
found along an ancestry, a name looked up along a chain) is in the set again.
-/

namespace TreeScript

/-- A frame or an object. -/
inductive Place where
  | frame (f : FrameId)
  | object (r : Ref)
  deriving Repr, DecidableEq

def Function.places (fn : Function) : List Place :=
  (fn.captured.map .frame).toList ++ (fn.self.map .object).toList ++ (fn.super.map .object).toList

def ClassInfo.places (info : ClassInfo) : List Place :=
  (info.superclass.toList ++ info.methods.values ++ info.defaults.values).map .object

/-- What a payload holds. The class of a value that is no instance is built in and shared. -/
def Payload.places : Payload → List Place
  | .instance cls => [.object cls]
  | .list items => items.map .object
  | .function fn => fn.places
  | .overloads _ fns => fns.flatMap Function.places
  | .classObject info => info.places
  | .superView inst start => [.object inst, .object start]
  | .number _ | .string _ | .boolean _ | .null | .native _ _ _ => []

def Object.places (o : Object) : List Place := o.payload.places ++ o.fields.values.map .object

def Frame.places (fr : Frame Ref) : List Place :=
  (fr.parent.map .frame).toList ++ fr.bindings.values.map .object

inductive ClassTable where
  | methods
  | defaults
  deriving Repr, DecidableEq

namespace ClassInfo

/-- Writes an entry of one table of a class. -/
def write (table : ClassTable) (name : String) (v : Ref) (info : ClassInfo) : ClassInfo :=
  match table with
  | .methods => { info with methods := info.methods.set name v }
  | .defaults => { info with defaults := info.defaults.set name v }

theorem mem_places_write {table : ClassTable} {name : String} {v : Ref} {info : ClassInfo}
    {p : Place} (hp : p ∈ (info.write table name v).places) :
    p = .object v ∨ p ∈ info.places := by
  obtain ⟨r, hr, rfl⟩ := List.mem_map.mp hp
  have hr : r = v ∨ r ∈ info.superclass.toList ++ info.methods.values ++ info.defaults.values := by
    cases table <;> simp only [write, List.mem_append] at hr ⊢
    · rcases hr with (hr | hr) | hr
      · exact .inr (.inl (.inl hr))
      · exact (Bindings.mem_values_set hr).imp id fun hr => .inl (.inr hr)
      · exact .inr (.inr hr)
    · rcases hr with hr | hr
      · exact .inr (.inl hr)
      · exact (Bindings.mem_values_set hr).imp id .inr
  exact hr.imp (congrArg _) (List.mem_map_of_mem (f := Place.object))

end ClassInfo

/-- The values that exist before any program: the built-in classes, null and the truth values. -/
def Heap.IsShared (r : Ref) : Prop := r < Heap.initial.objects.size

instance : DecidablePred Heap.IsShared := fun _ => Nat.decLt _ _

theorem BuiltinClass.isShared_ref (c : BuiltinClass) : Heap.IsShared c.ref := by
  cases c <;> decide

theorem Heap.isShared_ofBool (b : Bool) : Heap.IsShared (Heap.ofBool b) := by
  cases b <;> decide

theorem Heap.isShared_nullRef : Heap.IsShared Heap.nullRef := by decide

namespace Store

/-- What a frame or object refers to. -/
def places (s : Store) : Place → List Place
  | .frame f => (s.scope.frame f).places
  | .object r => (s.heap.object r).places

/-- Whether the store has the frame or object. -/
def Has (s : Store) : Place → Prop
  | .frame f => f < s.scope.frames.size
  | .object r => r < s.heap.objects.size

instance (s : Store) : DecidablePred s.Has
  | .frame _ => Nat.decLt _ _
  | .object _ => Nat.decLt _ _

/-- The head of the active chain, the global frame, and the values that all programs share. -/
inductive Root (s : Store) : Place → Prop
  | head : Root s (.frame s.scope.head)
  | globals : Root s (.frame s.scope.globals)
  | shared {r : Ref} (h : Heap.IsShared r) : Root s (.object r)

inductive Reaches (s : Store) (roots : Place → Prop) : Place → Prop
  | root {p : Place} (h : roots p) : Reaches s roots p
  | link {p q : Place} (hp : Reaches s roots p) (hq : q ∈ s.places p) : Reaches s roots q

def Closed (s : Store) (K : Place → Prop) : Prop := ∀ p q, K p → q ∈ s.places p → K q

theorem closed_reaches (s : Store) (roots : Place → Prop) : s.Closed (s.Reaches roots) :=
  fun _ _ hp hq => .link hp hq

/-- A closed set with all roots has everything within their reach. -/
theorem Closed.of_reaches {s : Store} {K roots : Place → Prop} (hK : s.Closed K)
    (hroots : ∀ p, roots p → K p) {p : Place} (hp : s.Reaches roots p) : K p := by
  induction hp with
  | root h => exact hroots _ h
  | link _ hq ih => exact hK _ _ ih hq

namespace Closed

variable {s : Store} {K : Place → Prop} (hK : s.Closed K)

include hK

/-! ## Frames -/

theorem parent {f p : FrameId} (hf : K (.frame f)) (hp : (s.scope.frame f).parent = some p) :
    K (.frame p) := by
  apply hK (.frame f) _ hf
  simp [places, Frame.places, hp]

theorem binding {f : FrameId} {v : Ref} (hf : K (.frame f))
    (hv : v ∈ (s.scope.frame f).bindings.values) : K (.object v) := by
  apply hK (.frame f) _ hf
  simp [places, Frame.places, hv]

theorem chain {f g : FrameId} (hf : K (.frame f)) (hg : g ∈ s.scope.chain f) : K (.frame g) := by
  induction f using Nat.strongRecOn with
  | ind f ih =>
    rw [Scope.chain_eq] at hg
    cases hp : s.scope.parent? f with
    | none =>
      rw [hp] at hg
      exact List.mem_singleton.mp hg ▸ hf
    | some p =>
      rw [hp] at hg
      rcases List.mem_cons.mp hg with rfl | hg
      · exact hf
      · exact ih p.1 p.2 (hK.parent hf (Scope.parent_of_parent? hp)) hg

theorem owner {f : FrameId} {name : String} (hhead : K (.frame s.scope.head))
    (hglobals : K (.frame s.scope.globals)) (hf : s.scope.owner? name = some f) : K (.frame f) := by
  unfold Scope.owner? at hf
  split at hf
  · next g hg =>
    cases hf
    exact hK.chain hhead (List.mem_of_find?_eq_some hg)
  · split at hf
    · cases hf
      exact hglobals
    · cases hf

theorem lookup {name : String} {v : Ref} (hhead : K (.frame s.scope.head))
    (hglobals : K (.frame s.scope.globals)) (hv : s.scope.lookup? name = some v) :
    K (.object v) := by
  obtain ⟨f, hf, hv⟩ := Option.bind_eq_some_iff.mp hv
  exact hK.binding (hK.owner hhead hglobals hf) (Bindings.mem_values_of_get? hv)

/-! ## Objects -/

theorem payload {r : Ref} (hr : K (.object r)) {q : Place}
    (hq : q ∈ (s.heap.payload r).places) : K q :=
  hK (.object r) q hr (List.mem_append_left _ hq)

theorem field {r v : Ref} (hr : K (.object r)) (hv : v ∈ (s.heap.fields r).values) :
    K (.object v) :=
  hK (.object r) _ hr (List.mem_append_right _ (List.mem_map_of_mem hv))

theorem classOf (hshared : ∀ r, Heap.IsShared r → K (.object r)) {r : Ref}
    (hr : K (.object r)) : K (.object (s.heap.classOf r)) := by
  have held := fun q => hK.payload hr (q := q)
  unfold Heap.classOf
  cases hp : s.heap.payload r <;>
    first
    | exact hshared _ (BuiltinClass.isShared_ref _)
    | exact held _ (by simp [hp, Payload.places])

theorem classInfo {c : Ref} {info : ClassInfo} (hc : K (.object c))
    (hinfo : s.heap.class? c = some info) {q : Place} (hq : q ∈ info.places) : K q := by
  apply hK.payload hc
  rwa [Heap.payload_of_class? hinfo]

theorem superclass {c d : Ref} (hc : K (.object c))
    (hd : (s.heap.class? c).bind (·.superclass) = some d) : K (.object d) := by
  obtain ⟨info, hinfo, hd⟩ := Option.bind_eq_some_iff.mp hd
  apply hK.classInfo hc hinfo
  simp [ClassInfo.places, hd]

theorem ancestry {c d : Ref} (hc : K (.object c)) (hd : d ∈ s.heap.ancestry c) :
    K (.object d) := by
  induction c using Nat.strongRecOn with
  | ind c ih =>
    rw [Heap.ancestry_eq] at hd
    cases hsup : s.heap.superclass? c with
    | none =>
      rw [hsup] at hd
      exact List.mem_singleton.mp hd ▸ hc
    | some b =>
      rw [hsup] at hd
      rcases List.mem_cons.mp hd with rfl | hd
      · exact hc
      · exact ih b.1 b.2 (hK.superclass hc (Heap.superclass_of_superclass? hsup)) hd

theorem method {c v : Ref} {name : String} (hc : K (.object c))
    (hv : s.heap.methodOf? c name = some v) : K (.object v) := by
  obtain ⟨info, hinfo, hv⟩ := Option.bind_eq_some_iff.mp hv
  apply hK.classInfo hc hinfo
  simp [ClassInfo.places, Bindings.mem_values_of_get? hv]

theorem findMethod {c owner v : Ref} {name : String} (hc : K (.object c))
    (hv : s.heap.findMethod? c name = some (owner, v)) : K (.object owner) ∧ K (.object v) := by
  obtain ⟨d, hd, hv⟩ := List.exists_of_findSome?_eq_some hv
  obtain ⟨w, hw, heq⟩ := Option.map_eq_some_iff.mp hv
  cases heq
  have howner := hK.ancestry hc hd
  exact ⟨howner, hK.method howner hw⟩

theorem findDefault {c v : Ref} {name : String} (hc : K (.object c))
    (hv : s.heap.findDefault? c name = some v) : K (.object v) := by
  obtain ⟨d, hd, hv⟩ := List.exists_of_findSome?_eq_some hv
  obtain ⟨info, hinfo, hv⟩ := Option.bind_eq_some_iff.mp hv
  apply hK.classInfo (hK.ancestry hc hd) hinfo
  simp [ClassInfo.places, Bindings.mem_values_of_get? hv]

theorem startingFields {c v : Ref} (hc : K (.object c))
    (hv : v ∈ (s.heap.startingFields c).values) : K (.object v) := by
  -- the defaults are merged class by class, so the table so far is carried along
  have merged (owners : List Ref) (acc : Bindings Ref)
      (howners : ∀ d ∈ owners, d ∈ s.heap.ancestry c) (hacc : ∀ w ∈ acc.values, K (.object w)) :
      ∀ w ∈ (owners.foldl (fun acc owner =>
        acc.merge (((s.heap.class? owner).map (·.defaults)).getD .empty)) acc).values,
        K (.object w) := by
    induction owners generalizing acc with
    | nil => exact hacc
    | cons d owners ih =>
      apply ih _ fun e he => howners e (List.mem_cons_of_mem _ he)
      intro w hw
      rcases Bindings.mem_values_merge hw with hw | hw
      · exact hacc w hw
      · cases hinfo : s.heap.class? d with
        | none => simp [hinfo, Bindings.values, Bindings.empty] at hw
        | some info =>
          apply hK.classInfo (hK.ancestry hc (howners d List.mem_cons_self)) hinfo
          simp only [hinfo, Option.map_some, Option.getD_some] at hw
          simp [ClassInfo.places, hw]
  apply merged _ .empty (fun d hd => List.mem_reverse.mp hd) _ v hv
  simp [Bindings.values, Bindings.empty]

end Closed

/-! ## Changes

What a store refers to after a change, it referred to before, except for what
the change brought in. -/

section Changes

variable (s : Store) {p q : Place}

theorem places_eq_nil_of_not_has (hp : ¬ s.Has p) : s.places p = [] := by
  cases p with
  | frame f =>
    have hframe : s.scope.frame f = { name := "" } := by
      simp [Scope.frame, Array.getD, show ¬ f < s.scope.frames.size from hp]
    rw [places, hframe]
    rfl
  | object r =>
    have hobject : s.heap.object r = { payload := .null } := by
      simp [Heap.object, Array.getD, show ¬ r < s.heap.objects.size from hp]
    rw [places, hobject]
    rfl

theorem mem_places_newFrame {name : String} {parent : FrameId}
    (hq : q ∈ places { s with scope := (s.scope.newFrame name (some parent)).2 } p) :
    q ∈ s.places p ∨ q = .frame parent := by
  cases p with
  | frame f =>
    by_cases hf : f = s.scope.frames.size
    · subst hf
      simp only [places, Scope.frame_newFrame_self, Frame.places, Option.map_some,
        Option.toList_some, List.mem_append, List.mem_singleton] at hq
      exact hq.elim .inr fun hq => nomatch hq
    · rw [places, Scope.frame_newFrame_of_ne _ _ _ hf] at hq
      exact .inl hq
  | object r => exact .inl hq

theorem mem_places_defineIn {f : FrameId} {name : String} {v : Ref}
    (hq : q ∈ places { s with scope := s.scope.defineIn f name v } p) :
    q ∈ s.places p ∨ q = .object v := by
  cases p with
  | frame g =>
    rw [places, Scope.frame_defineIn] at hq
    split at hq
    · rcases List.mem_append.mp hq with hq | hq
      · exact .inl (List.mem_append_left _ hq)
      · obtain ⟨w, hw, rfl⟩ := List.mem_map.mp hq
        rcases Bindings.mem_values_set hw with rfl | hw
        · exact .inr rfl
        · exact .inl (List.mem_append_right _ (List.mem_map_of_mem hw))
    · exact .inl hq
  | object r => exact .inl hq

theorem mem_places_add {o : Object}
    (hq : q ∈ places { s with heap := (s.heap.add o).2 } p) :
    q ∈ s.places p ∨ q ∈ o.places := by
  cases p with
  | frame f => exact .inl hq
  | object r =>
    by_cases hr : r = s.heap.objects.size
    · subst hr
      rw [places, Heap.object_add_self] at hq
      exact .inr hq
    · rw [places, Heap.object_add_of_ne _ _ hr] at hq
      exact .inl hq

theorem mem_places_setField {r v : Ref} {name : String}
    (hq : q ∈ places { s with heap := s.heap.setField r name v } p) :
    q ∈ s.places p ∨ q = .object v := by
  cases p with
  | frame f => exact .inl hq
  | object t =>
    rw [places, Heap.object_setField] at hq
    split at hq
    · rcases List.mem_append.mp hq with hq | hq
      · exact .inl (List.mem_append_left _ hq)
      · obtain ⟨w, hw, rfl⟩ := List.mem_map.mp hq
        rcases Bindings.mem_values_set hw with rfl | hw
        · exact .inr rfl
        · exact .inl (List.mem_append_right _ (List.mem_map_of_mem hw))
    · exact .inl hq

theorem mem_places_writeClass {c v : Ref} {table : ClassTable} {name : String}
    (hq : q ∈ places { s with heap := s.heap.updateClass c (·.write table name v) } p) :
    q ∈ s.places p ∨ q = .object v := by
  cases p with
  | frame f => exact .inl hq
  | object r =>
    have hcases := s.heap.object_updateClass_cases c r (·.write table name v)
    rcases hcases with hsame | ⟨info, hp, hobject⟩
    · rw [places, hsame] at hq
      exact .inl hq
    · rw [places, hobject] at hq
      rcases List.mem_append.mp hq with hq | hq
      · rcases ClassInfo.mem_places_write hq with rfl | hq
        · exact .inr rfl
        · refine .inl (List.mem_append_left _ ?_)
          rwa [show (s.heap.object r).payload = .classObject info from hp]
      · exact .inl (List.mem_append_right _ hq)

end Changes

/-! ## What is there -/

theorem Has.of_grows {s t : Store} (h : s.Grows t) {p : Place} (hp : s.Has p) : t.Has p := by
  cases p with
  | frame f => exact Nat.lt_of_lt_of_le hp h.scope.size
  | object r => exact Nat.lt_of_lt_of_le hp h.objects

theorem has_frame_of_grows {s t : Store} {f : FrameId} (h : s.Grows t) (hf : s.Has (.frame f)) :
    t.Has (.frame f) :=
  Has.of_grows h hf

/-- A growing store keeps its own if nothing in it comes to refer to what is not there. -/
theorem Closed.grow {s t : Store} (hs : s.Closed s.Has) (hst : s.Grows t)
    (hplaces : ∀ p q, q ∈ t.places p → q ∈ s.places p ∨ s.Has q) : t.Closed t.Has := by
  intro p q _ hq
  refine Has.of_grows hst ?_
  rcases hplaces p q hq with hq | hq
  · by_cases hp : s.Has p
    · exact hs p q hp hq
    · rw [s.places_eq_nil_of_not_has hp] at hq
      cases hq
  · exact hq

end Store

end TreeScript
