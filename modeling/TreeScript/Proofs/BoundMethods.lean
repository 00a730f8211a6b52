import TreeScript.Proofs.ClassOrder

/-!
# What functions are bound to

The methods of a class are bound to nothing. Where one is found for an instance,
the instance gets a function value of its own, bound to it as `self` and to a
view as `super`; the view starts at the superclass of the class that owns the
method, which need not be the class of the instance, nor the class at which the
lookup began. So a bound function tells by its view which class it is a method
of: that class is in the ancestry of the class of the instance, and has the
function in its own table. This holds of every function value and of each
function of an overload set, wherever they are kept and however they are joined.
-/

namespace TreeScript

namespace Heap

variable {h k : Heap}

/-! ## Methods of classes -/

theorem mem_ancestry_of_findMethod? {c owner method : Ref} {name : String}
    (hfind : h.findMethod? c name = some (owner, method)) :
    owner ∈ h.ancestry c ∧ h.methodOf? owner name = some method := by
  obtain ⟨d, hd, hmap⟩ := List.exists_of_findSome?_eq_some hfind
  obtain ⟨w, hw, heq⟩ := Option.map_eq_some_iff.mp hmap
  cases heq
  exact ⟨hd, hw⟩

@[simp] theorem methodOf?_setField (r : Ref) (name : String) (v : Ref) (c : Ref)
    (method : String) : (h.setField r name v).methodOf? c method = h.methodOf? c method := by
  simp only [methodOf?, class?_setField]

/-- A class has a method after it has taken an entry if it had the method before or takes it. -/
theorem methodOf?_updateClass {c d v w : Ref} {table : ClassTable} {name method : String}
    (hw : (h.updateClass c (·.write table name v)).methodOf? d method = some w) :
    h.methodOf? d method = some w ∨ d = c ∧ table = .methods ∧ name = method ∧ w = v := by
  by_cases hcd : c = d
  · subst hcd
    rcases h.payload_updateClass_cases c c (·.write table name v) with hsame | ⟨info, hinfo, hclass⟩
    · refine .inl ?_
      rwa [methodOf?, class?, hsame] at hw
    · rw [methodOf?, class?, hclass] at hw
      have hold : h.methodOf? c method = info.methods.get? method := by
        rw [methodOf?, class?, hinfo]
        rfl
      cases table with
      | methods =>
        have hw : (info.methods.set name v).get? method = some w := hw
        rw [Bindings.get?_set] at hw
        split at hw
        · next hname =>
          cases hw
          exact .inr ⟨rfl, rfl, hname.symm, rfl⟩
        · exact .inl (hold.trans hw)
      | defaults => exact .inl (hold.trans hw)
  · refine .inl ?_
    rwa [methodOf?, class?, h.payload_updateClass_of_ne _ hcd] at hw

theorem payload_initial_cases (r : Ref) :
    (∃ info, Heap.initial.payload r = .classObject info) ∨ Heap.initial.payload r = .null ∨
      ∃ b, Heap.initial.payload r = .boolean b := by
  by_cases hr : r < Heap.initial.objects.size
  · have hobjects : ∀ o ∈ Heap.initial.objects.toList, (∃ info, o.payload = .classObject info) ∨
        o.payload = .null ∨ ∃ b, o.payload = .boolean b := by
      simp [Heap.initial, BuiltinClass.all]
    refine hobjects (Heap.initial.object r) ?_
    simp [object, Array.getD, hr]
  · exact .inr (.inl (by simp [payload, object, Array.getD, hr]))

/-- The tables of classes have functions and overload sets that are bound to nothing. -/
def MethodsUnbound (h : Heap) : Prop :=
  ∀ c name v, h.methodOf? c name = some v →
    (h.payload v).IsCode ∧ ∀ fn ∈ (h.payload v).functions, fn.IsUnbound

theorem methodOf?_initial (c : Ref) (name : String) : Heap.initial.methodOf? c name = none := by
  have hempty : ∀ c < Heap.initial.objects.size,
      (Heap.initial.class? c).all (·.methods.isEmpty) = true := by decide
  rw [methodOf?]
  cases hinfo : Heap.initial.class? c with
  | none => rfl
  | some info =>
    have hsize := Heap.initial.lt_of_payload_ne_null
      (payload_ne_null_of_isSome (c := c) (by rw [hinfo]; rfl))
    have hmethods := hempty c hsize
    rw [hinfo] at hmethods
    have hentries : info.methods.entries = [] := List.isEmpty_iff.mp hmethods
    show info.methods.entries.lookup name = none
    rw [hentries]
    rfl

/-- An object that is added brings in no method: classes are made without any. -/
theorem methodOf?_add {o : Object} (ho : h.Produces o) {c w : Ref} {name : String}
    (hw : (h.add o).2.methodOf? c name = some w) : h.methodOf? c name = some w := by
  by_cases hnew : c = h.objects.size
  · subst hnew
    rw [methodOf?, class?, payload_add_self] at hw
    cases hp : o.payload with
    | classObject info =>
      obtain ⟨_, _, rfl, _⟩ := info_of_produces ho hp
      rw [hp] at hw
      cases hw
    | _ =>
      rw [hp] at hw
      cases hw
  · rwa [methodOf?, class?, h.payload_add_of_ne o hnew] at hw

/-- The built-in classes have no methods. -/
theorem Classed.methodOf?_of_isShared (hh : h.Classed) {c : Ref} (hc : IsShared c) (name : String) :
    h.methodOf? c name = none := by
  rw [methodOf?, hh.class?_of_isShared hc]
  exact methodOf?_initial c name

end Heap

namespace Store.Arises

open Heap

variable {cs : List Ref} {s : Store}

theorem methodsUnbound (hs : s.Arises cs) : s.heap.MethodsUnbound := by
  refine hs.heap_induction ?_ ?_ ?_ ?_
  · intro c name v hv
    rw [methodOf?_initial] at hv
    cases hv
  · intro cs s o hs ih hmade _ c name v hv
    obtain ⟨hcode, hunbound⟩ := ih c name v (methodOf?_add hmade hv)
    have hkeep : (s.heap.add o).2.payload v = s.heap.payload v := by
      refine s.heap.payload_add_of_ne_null o ?_
      intro hnull
      rw [hnull] at hcode
      cases hcode
    rw [hkeep]
    exact ⟨hcode, hunbound⟩
  · intro cs s r name v _ ih c method w hw
    rw [methodOf?_setField] at hw
    rw [payload_setField]
    exact ih c method w hw
  · intro cs s c v table name hs ih hentry _ d method w hw
    -- what changes is a class and no code, so only the entry itself can be a new method
    have keeps {w : Ref} (hw : (s.heap.payload w).IsCode) :
        (s.heap.updateClass c (·.write table name v)).payload w = s.heap.payload w := by
      refine (s.heap.payload_updateClass_cases c w _).resolve_right ?_
      rintro ⟨info, hinfo, -⟩
      rw [hinfo] at hw
      cases hw
    rcases methodOf?_updateClass hw with hw | ⟨rfl, rfl, rfl, rfl⟩
    · obtain ⟨hcode, hunbound⟩ := ih d method w hw
      rw [keeps hcode]
      exact ⟨hcode, hunbound⟩
    · cases hentry with
      | method hfn hv hfunctions =>
        have hcode := isBindable_iff_isCode.mp hv
        rw [keeps hcode]
        refine ⟨hcode, ?_⟩
        intro g hg
        rcases hfunctions g hg with rfl | ⟨old, hold, hg⟩
        · exact hfn
        · exact (ih d _ old hold).2 g hg

end Store.Arises

namespace Heap

variable {h k : Heap}

/-! ## Views and bound functions -/

/-- A view shows a value from the superclass of a class of its ancestry on. -/
structure Shows (h : Heap) (view o K : Ref) : Prop where
  above : ∃ start, h.payload view = .superView o start ∧
    (h.class? K).bind (·.superclass) = some start
  mem : K ∈ h.ancestry (h.classOf o)

/-- A function is bound to a value, and to a view of it, as a method that a class of its ancestry has
in its own table, alone or in an overload set. -/
structure BoundAs (h : Heap) (fn : Function) (o view K : Ref) : Prop where
  self : fn.self = some o
  super : fn.super = some view
  shows : h.Shows view o K
  method : ∃ name method g, h.methodOf? K name = some method ∧
    g ∈ (h.payload method).functions ∧ g.same fn = true ∧ fn = (g.bindSelf o).bindSuper view

/-- Every view shows its instance from above a class of the instance's ancestry. -/
def ViewsShow (h : Heap) : Prop :=
  ∀ view o start, h.payload view = .superView o start → ∃ K, h.Shows view o K

/-- Every function is bound to nothing, or as a method of a class. -/
def FunctionsBound (h : Heap) : Prop :=
  ∀ r, ∀ fn ∈ (h.payload r).functions, fn.IsUnbound ∨ ∃ o view K, h.BoundAs fn o view K

/-- What a value is offered is a method of a class of its ancestry, wherever the lookup began. -/
theorem Offers.owner (hh : h.Classed) (hviews : h.ViewsShow) {inst owner method : Ref}
    (hoffers : h.Offers inst owner method) :
    owner ∈ h.ancestry (h.classOf inst) ∧ ∃ name, h.methodOf? owner name = some method := by
  obtain ⟨start, name, hlooks, hfind⟩ := hoffers
  obtain ⟨hmem, hmethod⟩ := mem_ancestry_of_findMethod? hfind
  refine ⟨?_, name, hmethod⟩
  cases hlooks with
  | «class» hinst =>
    have hclass : h.classOf inst = start := by rw [classOf, hinst]
    exact hclass ▸ hmem
  | view hview =>
    obtain ⟨K, ⟨start', hview', habove⟩, hK⟩ := hviews _ inst start hview
    rw [hview] at hview'
    cases hview'
    have hstart : start ∈ h.ancestry K := by
      rw [hh.ancestry_of_superclass habove]
      exact List.mem_cons_of_mem K (h.self_mem_ancestry start)
    exact (h.ancestry_suffix hK).subset ((h.ancestry_suffix hstart).subset hmem)
  | builtin hc =>
    -- nothing is found in a built-in class
    have hshared : IsShared owner := Nat.lt_of_le_of_lt (h.le_of_mem_ancestry hmem) hc
    rw [hh.methodOf?_of_isShared hshared] at hmethod
    cases hmethod

end Heap

/-! ## What changes keep -/

namespace Store

open Heap

variable {cs : List Ref} {s : Store} {k : Heap}

variable (hs : s.Defines cs) (hkeep : ∀ r, s.Free cs (.object r) → k.payload r = s.heap.payload r)

include hs hkeep

/-- If what is free is kept, a class in the ancestry of a value's class stays there and stays the
same, since it is free with the value. -/
theorem Defines.mem_ancestry {o K : Ref} (ho : s.Free cs (.object o))
    (hK : K ∈ s.heap.ancestry (s.heap.classOf o)) :
    K ∈ k.ancestry (k.classOf o) ∧ k.class? K = s.heap.class? K ∧ s.Free cs (.object K) := by
  have hclassOf : k.classOf o = s.heap.classOf o := by
    rw [classOf, hkeep o ho]
    rfl
  have hfree {d : Ref} (hd : d ∈ s.heap.ancestry (s.heap.classOf o)) : s.Free cs (.object d) :=
    hs.closed.ancestry (hs.closed.classOf (fun _ hr => hs.free_shared hr) ho) hd
  have hclass {d : Ref} (hd : d ∈ s.heap.ancestry (s.heap.classOf o)) :
      k.class? d = s.heap.class? d := by
    rw [class?, hkeep d (hfree hd)]
    rfl
  refine ⟨?_, hclass hK, hfree hK⟩
  rw [hclassOf, ancestry_congr fun _ hd => hclass hd]
  exact hK

theorem Defines.shows {view o K : Ref} (hview : k.payload view = s.heap.payload view)
    (ho : s.Free cs (.object o)) (hshows : s.heap.Shows view o K) : k.Shows view o K := by
  obtain ⟨⟨start, hpayload, habove⟩, hK⟩ := hshows
  obtain ⟨hmem, hclass, -⟩ := hs.mem_ancestry hkeep ho hK
  refine ⟨⟨start, hview.trans hpayload, ?_⟩, hmem⟩
  rw [hclass]
  exact habove

theorem Defines.boundAs {fn : Function} {o view K : Ref} (hfn : ∀ p ∈ fn.places, s.Free cs p)
    (hbound : s.heap.BoundAs fn o view K) : k.BoundAs fn o view K := by
  have ho := hfn (.object o) (by simp [Function.places, hbound.self])
  have hview := hfn (.object view) (by simp [Function.places, hbound.super])
  obtain ⟨name, method, g, hmethod, hg, hsame, heq⟩ := hbound.method
  obtain ⟨-, hclass, hK⟩ := hs.mem_ancestry hkeep ho hbound.shows.mem
  refine ⟨hbound.self, hbound.super, hs.shows hkeep (hkeep view hview) ho hbound.shows, ?_⟩
  refine ⟨name, method, g, ?_, ?_, hsame, heq⟩
  · rw [methodOf?, hclass]
    exact hmethod
  · rw [hkeep method (hs.closed.method hK hmethod)]
    exact hg

omit hkeep in
/-- An instance that is shown by a view is free. -/
theorem Defines.free_of_view {view o start : Ref}
    (hview : s.heap.payload view = .superView o start) : s.Free cs (.object o) := by
  refine hs.free_of_mem_places (p := .object view) ?_ ?_
  · exact s.heap.lt_of_payload_ne_null (by rw [hview]; exact Payload.noConfusion)
  · refine List.mem_append_left _ ?_
    rw [show (s.heap.object view).payload = .superView o start from hview]
    exact List.mem_cons_self

omit hkeep in
/-- What a function value refers to is free. -/
theorem Defines.free_of_mem_functions {r : Ref} {fn : Function}
    (hfn : fn ∈ (s.heap.payload r).functions) : ∀ p ∈ fn.places, s.Free cs p := by
  intro p hp
  refine hs.free_of_mem_places (p := .object r) ?_ ?_
  · refine s.heap.lt_of_payload_ne_null ?_
    intro hnull
    rw [hnull] at hfn
    cases hfn
  · exact List.mem_append_left _ (Payload.mem_places_of_mem_functions hfn hp)

theorem Defines.viewsShow {view o start : Ref} (hviews : s.heap.ViewsShow)
    (hview : s.heap.payload view = .superView o start)
    (hsame : k.payload view = s.heap.payload view) : ∃ K, k.Shows view o K := by
  obtain ⟨K, hK⟩ := hviews view o start hview
  exact ⟨K, hs.shows hkeep hsame (hs.free_of_view hview) hK⟩

theorem Defines.functionsBound {r : Ref} {fn : Function} (hbound : s.heap.FunctionsBound)
    (hfn : fn ∈ (s.heap.payload r).functions) :
    fn.IsUnbound ∨ ∃ o view K, k.BoundAs fn o view K := by
  rcases hbound r fn hfn with hfn | ⟨o, view, K, hb⟩
  · exact .inl hfn
  · exact .inr ⟨o, view, K, hs.boundAs hkeep (hs.free_of_mem_functions hfn) hb⟩

end Store

namespace Store.Arises

open Heap

variable {cs : List Ref} {s : Store}

theorem keep_add (s : Store) (cs : List Ref) (o : Object) (r : Ref)
    (hr : s.Free cs (.object r)) : (s.heap.add o).2.payload r = s.heap.payload r :=
  s.heap.payload_add_of_lt o hr.1

/-- A class that takes an entry is not free. -/
theorem keep_write (s : Store) (c : Ref) (cs : List Ref) (f : ClassInfo → ClassInfo) (r : Ref)
    (hr : s.Free (c :: cs) (.object r)) :
    (s.heap.updateClass c f).payload r = s.heap.payload r := by
  refine s.heap.payload_updateClass_of_ne f ?_
  rintro rfl
  exact hr.2 c List.mem_cons_self rfl

theorem viewsShow (hs : s.Arises cs) : s.heap.ViewsShow := by
  refine hs.heap_induction ?_ ?_ ?_ ?_
  · intro view o start hview
    rcases payload_initial_cases view with ⟨info, h⟩ | h | ⟨b, h⟩ <;> rw [h] at hview <;> cases hview
  · intro cs s o hs ih hmade ho view inst start hview
    have hkeep := keep_add s cs o
    by_cases hnew : view = s.heap.objects.size
    · subst hnew
      rw [payload_add_self] at hview
      cases hmade with
      | code hp =>
        obtain rfl : _ = Payload.superView inst start := hview
        cases hp.isCode
      | @view _ owner _ _ hoffers habove =>
        -- it is made for a method of the owner, and starts above that
        cases hview
        have hinst := ho (.object inst) (by simp [Object.places, Payload.places])
        obtain ⟨hmem, hclass, -⟩ :=
          hs.defines.mem_ancestry hkeep hinst (hoffers.owner hs.classed ih).1
        refine ⟨owner, ⟨start, s.heap.payload_add_self _, ?_⟩, hmem⟩
        rw [hclass]
        exact habove
      | _ => cases hview
    · have hsame : (s.heap.add o).2.payload view = s.heap.payload view :=
        s.heap.payload_add_of_ne o hnew
      exact hs.defines.viewsShow hkeep ih (hsame ▸ hview) hsame
  · intro cs s r name v hs ih view inst start hview
    have hkeep := fun u (_ : s.Free cs (.object u)) => s.heap.payload_setField r u name v
    have hsame := s.heap.payload_setField r view name v
    exact hs.defines.viewsShow hkeep ih (hsame ▸ hview) hsame
  · intro cs s c v table name hs ih _ _ view inst start hview
    have hkeep := keep_write s c cs (·.write table name v)
    have hsame : (s.heap.updateClass c (·.write table name v)).payload view =
        s.heap.payload view := by
      refine (s.heap.payload_updateClass_cases c view _).resolve_right ?_
      rintro ⟨info, -, hclass⟩
      rw [hclass] at hview
      cases hview
    exact hs.defines.viewsShow hkeep ih (hsame ▸ hview) hsame

/-- A method that is found for a value has a superclass above its class to give the value a view. -/
theorem superclass_of_offers (hs : s.Arises cs) {inst owner method : Ref}
    (hoffers : s.heap.Offers inst owner method) :
    (s.heap.class? owner).bind (·.superclass) ≠ none := by
  intro hroot
  obtain ⟨hmem, name, hmethod⟩ := hoffers.owner hs.classed hs.viewsShow
  have hclass := hs.classed.isSome_of_mem_ancestry (hs.classed.classOf inst) hmem
  obtain rfl := hs.classed.eq_root hclass hroot
  rw [hs.classed.methodOf?_of_isShared (BuiltinClass.isShared_ref .object)] at hmethod
  cases hmethod

theorem functionsBound (hs : s.Arises cs) : s.heap.FunctionsBound := by
  refine hs.heap_induction ?_ ?_ ?_ ?_
  · intro r fn hfn
    rcases payload_initial_cases r with ⟨info, h⟩ | h | ⟨b, h⟩ <;> rw [h] at hfn <;> cases hfn
  · intro cs s o hs ih hmade ho r fn hfn
    have hkeep := keep_add s cs o
    by_cases hnew : r = s.heap.objects.size
    · subst hnew
      rw [payload_add_self] at hfn
      cases hmade with
      | code hp =>
        cases hp with
        | definition existing hunbound =>
          rcases mem_functions_foldDefinition hfn with rfl | ⟨v, -, hfn⟩
          · exact .inl hunbound
          · exact hs.defines.functionsBound hkeep ih hfn
        | @bound inst owner method above view hoffers habove hview hmethod =>
          have hplaces := fun q hq =>
            ho q (List.mem_append_left _ (Payload.mem_places_of_mem_functions hfn hq))
          rw [Payload.functions_mapFunctions] at hfn
          obtain ⟨g, hg, rfl⟩ := List.mem_map.mp hfn
          obtain ⟨hmem, name, hmethodOf⟩ := hoffers.owner hs.classed hs.viewsShow
          have hbound : s.heap.BoundAs ((g.bindSelf inst).bindSuper view) inst view owner :=
            ⟨rfl, rfl, ⟨⟨above, hview, habove⟩, hmem⟩, name, method, g, hmethodOf, hg,
              (Function.same_iff _ _).mpr rfl, rfl⟩
          exact .inr ⟨inst, view, owner, hs.defines.boundAs hkeep hplaces hbound⟩
        | boundToSelf hoffers hroot hmethod => exact absurd hroot (hs.superclass_of_offers hoffers)
      | _ => cases hfn
    · have hsame : (s.heap.add o).2.payload r = s.heap.payload r :=
        s.heap.payload_add_of_ne o hnew
      rw [hsame] at hfn
      exact hs.defines.functionsBound hkeep ih hfn
  · intro cs s r name v hs ih u fn hfn
    rw [payload_setField] at hfn
    have hkeep := fun u (_ : s.Free cs (.object u)) => s.heap.payload_setField r u name v
    exact hs.defines.functionsBound hkeep ih hfn
  · intro cs s c v table name hs ih _ _ r fn hfn
    have hkeep := keep_write s c cs (·.write table name v)
    rcases s.heap.payload_updateClass_cases c r (·.write table name v) with
      hsame | ⟨info, -, hclass⟩
    · rw [hsame] at hfn
      exact hs.defines.functionsBound hkeep ih hfn
    · rw [hclass] at hfn
      cases hfn

end Store.Arises

end TreeScript
