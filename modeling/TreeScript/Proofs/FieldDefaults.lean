import TreeScript.Proofs.BoundMethods
import TreeScript.Proofs.Interpolation
import TreeScript.Proofs.Members
import TreeScript.Proofs.Takes

/-!
# Defaults of fields

A new instance is filled from the root class down, each class writing its
defaults over those of the classes above it. A class that is asked for a member
searches from itself up. Both end with the default of the nearest class that
gives the field one, so an instance starts with the values that its class shows.
The fields of an instance are its own: writing one shows neither in the class
nor in another instance.
-/

namespace TreeScript

/-! ## Tables over tables -/

namespace Bindings

variable {α : Type}

theorem isSome_get?_iff {b : Bindings α} {name : String} : (b.get? name).isSome ↔ name ∈ b.keys := by
  rw [get?, List.lookup_isSome_iff, keys, List.mem_map]
  exact exists_congr fun entry => and_congr_right fun _ => by rw [beq_iff_eq, eq_comm]

/-- A write keeps names in the order in which they first arrived. -/
theorem keys_set_eraseDups {b : Bindings α} {names : List String} (hb : b.keys = names.eraseDups)
    (name : String) (v : α) : (b.set name v).keys = (names ++ [name]).eraseDups := by
  have hmem : (b.get? name).isSome ↔ name ∈ names := by
    rw [isSome_get?_iff, hb, List.mem_eraseDups]
  unfold keys set get? at *
  rw [keys_write, hb, List.eraseDups_append]
  by_cases hname : name ∈ names
  · rw [if_pos (hmem.mpr hname)]
    simp [List.removeAll, hname]
  · rw [if_neg (mt hmem.mp hname)]
    simp [List.removeAll, hname, List.eraseDups_cons]

theorem keys_merge {b : Bindings α} {names : List String} (hb : b.keys = names.eraseDups)
    (upper : Bindings α) : (b.merge upper).keys = (names ++ upper.keys).eraseDups := by
  obtain ⟨entries⟩ := upper
  induction entries generalizing b names with
  | nil => simpa [merge, keys] using hb
  | cons entry rest ih =>
    have hrest := ih (keys_set_eraseDups hb entry.1 entry.2)
    rwa [List.append_assoc] at hrest

/-- Tables that are written over each other name what any of them names, in order of first
appearance. -/
theorem keys_foldl_merge {b : Bindings α} {names : List String} (hb : b.keys = names.eraseDups)
    (tables : List (Bindings α)) :
    (tables.foldl merge b).keys = (names ++ tables.flatMap keys).eraseDups := by
  induction tables generalizing b names with
  | nil => simpa using hb
  | cons table rest ih =>
    rw [List.foldl_cons, ih (keys_merge hb table), List.flatMap_cons, List.append_assoc]

/-- Filling from the last table to the first ends with what a search from the first to the last
finds. -/
theorem get?_foldl_reverse {tables : List (Bindings α)}
    (hdistinct : ∀ table ∈ tables, table.keys.Nodup) (name : String) :
    (tables.reverse.foldl merge empty).get? name = tables.findSome? (·.get? name) := by
  induction tables with
  | nil => rfl
  | cons table rest ih =>
    obtain ⟨entries⟩ := table
    have hrest := ih fun t ht => hdistinct t (List.mem_cons_of_mem _ ht)
    have hfirst : (Bindings.mk entries).get? name = entries.lookup name := rfl
    rw [List.reverse_cons, List.foldl_append, List.foldl_cons, List.foldl_nil, get?_merge,
      lookup_reverse (hdistinct _ List.mem_cons_self), hrest, List.findSome?_cons, hfirst]
    cases entries.lookup name <;> rfl

end Bindings

namespace Heap

variable {h : Heap} {c : Ref} {name : String}

/-! ## Defaults of a class -/

/-- The defaults of a class; what is no class has none. -/
def defaultsOf (h : Heap) (c : Ref) : Bindings Ref := ((h.class? c).map (·.defaults)).getD .empty

theorem get?_defaultsOf (c : Ref) (name : String) :
    (h.defaultsOf c).get? name = h.defaultOf? c name := by
  unfold defaultsOf defaultOf?
  cases h.class? c <;> rfl

/-- No class gives a field two defaults. -/
def DefaultsDistinct (h : Heap) : Prop := ∀ c, (h.defaultsOf c).keys.Nodup

theorem defaultsDistinct_initial : Heap.initial.DefaultsDistinct := by
  intro c
  rcases payload_initial_cases c with ⟨info, hinfo⟩ | hnull | ⟨b, hb⟩
  · have hempty : ∀ c < Heap.initial.objects.size, (Heap.initial.defaultsOf c).keys = [] := by decide
    have hc : c < Heap.initial.objects.size := lt_of_payload_ne_null _ (by rw [hinfo]; simp)
    rw [hempty c hc]
    exact List.nodup_nil
  · rw [defaultsOf, class?, hnull]
    exact List.nodup_nil
  · rw [defaultsOf, class?, hb]
    exact List.nodup_nil

/-- Classes are made without any default. -/
theorem DefaultsDistinct.add (hh : h.DefaultsDistinct) {o : Object} (ho : h.Produces o) :
    (h.add o).2.DefaultsDistinct := by
  intro c
  by_cases hnew : c = h.objects.size
  · subst hnew
    rw [defaultsOf, class?, payload_add_self]
    cases hp : o.payload with
    | classObject info =>
      obtain ⟨_, _, rfl, _⟩ := info_of_produces ho hp
      exact List.nodup_nil
    | _ => exact List.nodup_nil
  · have hold := hh c
    rwa [defaultsOf, class?, ← h.payload_add_of_ne o hnew] at hold

@[simp] theorem defaultsOf_setField (r : Ref) (name : String) (v c : Ref) :
    (h.setField r name v).defaultsOf c = h.defaultsOf c := by
  simp only [defaultsOf, class?_setField]

theorem DefaultsDistinct.write (hh : h.DefaultsDistinct) (c : Ref) (table : ClassTable)
    (name : String) (v : Ref) : (h.updateClass c (·.write table name v)).DefaultsDistinct := by
  intro d
  rcases h.payload_updateClass_cases c d (·.write table name v) with hsame | ⟨info, hinfo, hclass⟩
  · have hold := hh d
    rwa [defaultsOf, class?, ← hsame] at hold
  · have hold : info.defaults.keys.Nodup := by
      have hd := hh d
      rwa [defaultsOf, class?, hinfo] at hd
    rw [defaultsOf, class?, hclass]
    cases table with
    | methods => exact hold
    | defaults => exact Bindings.nodup_keys_set hold name v

end Heap

theorem Store.Arises.defaultsDistinct {cs : List Ref} {s : Store} (hs : s.Arises cs) :
    s.heap.DefaultsDistinct := by
  refine hs.heap_induction Heap.defaultsDistinct_initial ?_ ?_ ?_
  · intro cs s o _ ih hmade _
    exact ih.add hmade
  · intro cs s r name v _ ih c
    rw [Heap.defaultsOf_setField]
    exact ih c
  · intro cs s c v table name _ ih _ _
    exact ih.write c table name v

namespace Heap

variable {h : Heap} {c : Ref} {name : String} {v : Ref}

/-! ## Filling and searching -/

/-- The nearest class of an ancestry that gives a field a default gives it this one. -/
def NearestDefault (h : Heap) (c : Ref) (name : String) (v : Ref) : Prop :=
  ∃ before owner after, h.ancestry c = before ++ owner :: after ∧
    (∀ d ∈ before, h.defaultOf? d name = none) ∧ h.defaultOf? owner name = some v

theorem findDefault?_eq_some_iff : h.findDefault? c name = some v ↔ h.NearestDefault c name v := by
  unfold findDefault? NearestDefault
  rw [List.findSome?_eq_some_iff]
  constructor
  · rintro ⟨before, owner, after, hsplit, howner, hbefore⟩
    exact ⟨before, owner, after, hsplit, hbefore, howner⟩
  · rintro ⟨before, owner, after, hsplit, hbefore, howner⟩
    exact ⟨before, owner, after, hsplit, howner, hbefore⟩

theorem isSome_findDefault?_iff :
    (h.findDefault? c name).isSome ↔ ∃ d ∈ h.ancestry c, (h.defaultOf? d name).isSome :=
  List.findSome?_isSome_iff

theorem startingFields_eq (h : Heap) (c : Ref) :
    h.startingFields c = ((h.ancestry c).map h.defaultsOf).reverse.foldl Bindings.merge .empty := by
  rw [← List.map_reverse, List.foldl_map]
  rfl

/-- Instances start with the fields that the classes of the ancestry name, the root class first. -/
theorem keys_startingFields (h : Heap) (c : Ref) :
    (h.startingFields c).keys =
      ((h.ancestry c).reverse.flatMap fun d => (h.defaultsOf d).keys).eraseDups := by
  have hempty : (Bindings.empty : Bindings Ref).keys = ([] : List String).eraseDups := rfl
  rw [startingFields_eq, Bindings.keys_foldl_merge hempty, List.nil_append, ← List.map_reverse,
    List.flatMap_map]

/-- An instance starts with the defaults that its class finds. -/
theorem get?_startingFields (hh : h.DefaultsDistinct) (c : Ref) (name : String) :
    (h.startingFields c).get? name = h.findDefault? c name := by
  have hdistinct : ∀ table ∈ (h.ancestry c).map h.defaultsOf, table.keys.Nodup := by
    intro table htable
    obtain ⟨d, -, rfl⟩ := List.mem_map.mp htable
    exact hh d
  rw [startingFields_eq, Bindings.get?_foldl_reverse hdistinct, List.findSome?_map]
  simp only [Function.comp_def, get?_defaultsOf, findDefault?]

/-- A class shows a default under a name that no class of its ancestry has a method under. -/
theorem member?_of_nearestDefault (hc : (h.class? c).isSome = true)
    (hmethod : ∀ d ∈ h.ancestry c, h.methodOf? d name = none) (hv : h.NearestDefault c name v) :
    h.member? c name = some (v, h) := by
  obtain ⟨info, hinfo⟩ := Option.isSome_iff_exists.mp hc
  unfold member?
  rw [payload_of_class? hinfo]
  dsimp only
  rw [findMethod?_eq_none_iff.mpr hmethod, findDefault?_eq_some_iff.mpr hv]
  rfl

/-! ## New instances -/

/-- A new instance is no class. -/
theorem class?_allocInstance (cls d : Ref) : (h.allocInstance cls).2.class? d = h.class? d := by
  by_cases hd : d = h.objects.size
  · have hnone : h.payload h.objects.size = .null := by simp [payload, object, Array.getD]
    rw [hd, class?, class?, allocInstance, payload_add_self, hnone]
  · rw [class?, class?, allocInstance, h.payload_add_of_ne _ hd]

theorem fields_allocInstance (cls : Ref) :
    (h.allocInstance cls).2.fields h.objects.size = h.startingFields cls := by
  rw [fields, allocInstance, object_add_self]

/-- One object has been added, an instance that holds the defaults of its ancestry: under the names
of the root class first, each the default of the nearest class that has one. -/
structure MakesInstance (h : Heap) (c inst : Ref) (k : Heap) : Prop where
  fresh : inst = h.objects.size
  payload : k.payload inst = .instance c
  keys : (k.fields inst).keys =
    ((h.ancestry c).reverse.flatMap fun d => (h.defaultsOf d).keys).eraseDups
  get? : ∀ name v, (k.fields inst).get? name = some v ↔ h.NearestDefault c name v
  names : ∀ name, name ∈ (k.fields inst).keys ↔ ∃ d ∈ h.ancestry c, (h.defaultOf? d name).isSome
  others : ∀ r < h.objects.size, k.object r = h.object r

theorem makesInstance_allocInstance (hh : h.DefaultsDistinct) (c : Ref) :
    h.MakesInstance c h.objects.size (h.allocInstance c).2 where
  fresh := rfl
  payload := h.payload_add_self _
  keys := by rw [fields_allocInstance, keys_startingFields]
  get? name v := by
    rw [fields_allocInstance, get?_startingFields hh, findDefault?_eq_some_iff]
  names name := by
    rw [fields_allocInstance, ← Bindings.isSome_get?_iff, get?_startingFields hh,
      isSome_findDefault?_iff]
  others _ hr := h.object_add_of_lt _ hr

end Heap

namespace Run

/-- Without an `init` method, calling a class without arguments makes the instance and nothing else. -/
theorem takes_call_instantiable {evaluate : Evaluator} (hroom : evaluate.room.line = true)
    (site : Option (Option Loc)) {s : Store} {c : Ref} {info : ClassInfo}
    (hc : s.heap.class? c = some info)
    (hinstantiable : info.instantiable = true) (hinit : s.heap.findMethod? c "init" = none) :
    Takes (call evaluate c [] site) s s.heap.objects.size
      { s with heap := (s.heap.allocInstance c).2 } := by
  have hinit' : (s.heap.allocInstance c).2.findMethod? c "init" = none := by
    rw [Heap.findMethod?_congr_of_classes (Heap.class?_allocInstance c), hinit]
  obtain ⟨name, hname⟩ := exists_callName (fun items hitems => by
    cases (Heap.payload_of_class? hc).symm.trans hitems) evaluate.room
  refine Takes.listed ((takes_look _ s).bind ?_) hroom hname [] site
  rw [Heap.payload_of_class? hc]
  dsimp only
  unfold instantiate
  rw [if_pos hinstantiable]
  refine (takes_make _ s).bind ((takes_look _ _).bind ?_)
  dsimp only
  rw [hinit']
  exact takes_pure _ _

end Run

namespace Machine

variable {m : Machine}

/-- The machine after a field of an instance has been written: the field has its value, no class
shows anything else, and no other object has changed. -/
structure FieldWritten (m : Machine) (inst : Ref) (field : String) (w : Ref) (m' : Machine) : Prop where
  written : m'.Reads inst field w
  classes : ∀ c, (m.heap.class? c).isSome = true →
    ∀ name v, m'.Reads c name v ↔ m.Reads c name v
  others : ∀ r ≠ inst, m'.heap.object r = m.heap.object r

theorem fieldWritten_setMember {inst cls : Ref} (hinst : m.heap.payload inst = .instance cls)
    (field : String) (w : Ref) :
    m.FieldWritten inst field w { m with heap := m.heap.setMember inst field w } := by
  have hwrite : m.heap.setMember inst field w = m.heap.setField inst field w := by
    unfold Heap.setMember
    rw [hinst]
  rw [hwrite]
  have hsize : inst < m.heap.objects.size := m.heap.lt_of_payload_ne_null (by rw [hinst]; simp)
  refine ⟨?_, ?_, ?_⟩
  · refine reads_iff.mpr (Heap.member?_of_field ((m.heap.payload_setField ..).trans hinst) ?_)
    rw [Heap.fields_setField, if_pos ⟨rfl, hsize⟩, Bindings.get?_set_self]
  · intro c hc name v
    exact reads_congr_of_classes (fun d => Heap.class?_setField inst field w) hc
  · intro r hr
    rw [Heap.object_setField, if_neg fun h => hr h.1.symm]

/-- In every state that programs pass through, calling an instantiable class without an `init` method
in its ancestry makes an instance whose fields are the defaults of the nearest classes; the class shows
each of them that no method hides; and writing a field of an instance changes neither what classes
show nor any other object. -/
theorem defaults_seen_alike {cs : List Ref} (hm : m.store.Arises cs) {c : Ref} {info : ClassInfo}
    (hc : m.heap.class? c = some info) (hinstantiable : info.instantiable = true)
    (hinit : ∀ d ∈ m.heap.ancestry c, m.heap.methodOf? d "init" = none) :
    (∀ (evaluate : Evaluator) site, evaluate.room.line = true →
      ∃ inst m', Run.call evaluate c [] site m = .done inst m' ∧
      m.heap.MakesInstance c inst m'.heap ∧ m'.scope = m.scope ∧ m'.effects = m.effects ∧
      ∀ name v, m.heap.NearestDefault c name v →
        m'.Reads inst name v ∧
        ((∀ d ∈ m.heap.ancestry c, m.heap.methodOf? d name = none) →
          m.Reads c name v ∧ m'.Reads c name v)) ∧
    (∀ evaluate rounds loc loc' target value field m₀ m₁ inst w,
      Run.Operands evaluate target value m₀ inst w m₁ → m₁.heap.payload inst = .instance c →
      ∃ m', Run.evaluateLevel evaluate rounds (.assign loc (.member loc' target field) value) m₀ =
          .done w m' ∧
        m₁.FieldWritten inst field w m') := by
  have hsome : (m.heap.class? c).isSome = true := by rw [hc]; rfl
  refine ⟨?_, ?_⟩
  · intro evaluate site hroom
    obtain ⟨m', hcall, hstore, heffects⟩ :=
      Run.takes_call_instantiable hroom site hc hinstantiable
        (Heap.findMethod?_eq_none_iff.mpr hinit) m rfl
    have hheap : m'.heap = (m.heap.allocInstance c).2 := congrArg Store.heap hstore
    have hscope : m'.scope = m.scope := congrArg Store.scope hstore
    have hmade : m.heap.MakesInstance c m.heap.objects.size m'.heap :=
      hheap ▸ Heap.makesInstance_allocInstance hm.defaultsDistinct c
    refine ⟨_, m', hcall, hmade, hscope, heffects, ?_⟩
    intro name v hv
    refine ⟨reads_iff.mpr (Heap.member?_of_field hmade.payload ((hmade.get? name v).mpr hv)), ?_⟩
    intro hmethod
    have hread : m.Reads c name v := reads_iff.mpr (Heap.member?_of_nearestDefault hsome hmethod hv)
    have hclasses (d : Ref) : m'.heap.class? d = m.heap.class? d := by
      rw [hheap, Heap.class?_allocInstance]
    exact ⟨hread, (reads_congr_of_classes hclasses hsome).mpr hread⟩
  · intro evaluate rounds loc loc' target value field m₀ m₁ inst w h hinst
    exact ⟨_, Run.evaluateLevel_assign_member rounds loc loc' field h,
      fieldWritten_setMember hinst field w⟩

/-- A class that gives `y` and `x` defaults, and one below it that gives `x` and `z` defaults: its
instances start with `y`, `x` and `z`, and `x` is the lower class's. -/
theorem defaults_seen_alike_shadowed :
    let a := (Heap.initial.alloc (.classObject { name := "A", superclass := some 0 })).2
    let a := (a.updateClass 11 (·.write .defaults "y" 8)).updateClass 11 (·.write .defaults "x" 9)
    let b := (a.alloc (.classObject { name := "B", superclass := some 11 })).2
    let b := (b.updateClass 12 (·.write .defaults "x" 10)).updateClass 12 (·.write .defaults "z" 9)
    let m := { Machine.bare false with heap := b }
    m.store.Arises [] ∧ ∃ inst m', Run.call (Run.evaluate .standard) 12 [] none m = .done inst m' ∧
      (m'.heap.fields inst).keys = ["y", "x", "z"] ∧ m'.Reads inst "x" 10 ∧ m'.Reads 12 "x" 10 ∧
      m'.Reads inst "y" 8 ∧ m'.Reads 12 "y" 8 := by
  intro a₀ a b₀ b m
  let scope : Scope Ref := .withGlobals "<globals>"
  have ha₀ : Store.Arises [11] ⟨a₀, scope⟩ :=
    (Store.Arises.start false).begin "A" (by decide) (.inr rfl)
  have ha : Store.Arises [] ⟨a, scope⟩ :=
    ((ha₀.write (.default "y" 8) (by decide)).write (.default "x" 9) (by decide)).finish
  have hb₀ : Store.Arises [12] ⟨b₀, scope⟩ := ha.begin "B" (by decide) (.inl rfl)
  have hm : m.store.Arises [] :=
    ((hb₀.write (.default "x" 10) (by decide)).write (.default "z" 9) (by decide)).finish
  have hancestry : m.heap.ancestry 12 = [12, 11, 0] := by cbv
  have hmethods (name : String) (d : Ref) (hd : d ∈ m.heap.ancestry 12) :
      m.heap.methodOf? d name = none := by
    have hcases : d = 12 ∨ d = 11 ∨ d = 0 := by simpa [hancestry] using hd
    rcases hcases with rfl | rfl | rfl <;> rfl
  obtain ⟨inst, m', hcall, hmade, -, -, hreads⟩ :=
    (defaults_seen_alike hm (c := 12) rfl rfl (hmethods "init")).1 (Run.evaluate .standard) none rfl
  have hx := hreads "x" 10 ⟨[], 12, [11, 0], hancestry, (by simp), rfl⟩
  have hy := hreads "y" 8 ⟨[12], 11, [0], hancestry, (by simp; rfl), rfl⟩
  refine ⟨hm, inst, m', hcall, hmade.keys.trans ?_, hx.1, (hx.2 (hmethods "x")).2, hy.1,
    (hy.2 (hmethods "y")).2⟩
  rw [hancestry]
  decide

end Machine

end TreeScript
