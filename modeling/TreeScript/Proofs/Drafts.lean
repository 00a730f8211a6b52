import TreeScript.Proofs.Discipline.Evaluation

/-!
# Classes under definition

While the body of a class is evaluated its tables are filled step by step, and
any code may run in between. No frame and no value refers to the class in that
time, not even the class itself, so that code cannot get hold of it. The classes
under definition, one inside the body of the other, are what a store keeps to
itself; all else that is there is free for programs to hold.
-/

namespace TreeScript

namespace Store

variable {s t : Store} {cs : List Ref} {c : Ref} {p : Place}

/-- Nothing refers to what is not there, and the values that all programs share are there. -/
structure Intact (s : Store) : Prop where
  closed : s.Closed s.Has
  shared : Heap.initial.objects.size ≤ s.heap.objects.size

theorem intact_bare (tracing : Bool) : (Machine.bare tracing).store.Intact := by
  refine ⟨?_, Nat.le_refl _⟩
  have hobjects : ∀ r < Heap.initial.objects.size, ∀ q ∈ (Heap.initial.object r).places,
      q = .object BuiltinClass.object.ref := by decide
  intro p q hp hq
  cases p with
  | frame f =>
    cases Nat.lt_one_iff.mp hp
    cases hq
  | object r =>
    cases hobjects r hp q hq
    exact BuiltinClass.isShared_ref .object

/-- No frame and no value leads to an object. -/
structure Hides (s : Store) (c : Ref) : Prop where
  unreferenced : ∀ p, .object c ∉ s.places p
  unreached : ∀ p, p ≠ .object c → ¬ s.Reaches (· = p) (.object c)

/-- What nothing refers to is within reach of itself alone. -/
theorem hides_of_unreferenced (hc : ∀ p, .object c ∉ s.places p) : s.Hides c := by
  refine ⟨hc, ?_⟩
  intro p hp hreach
  cases hreach with
  | root h => exact hp h.symm
  | link _ hq => exact hc _ hq

/-- What programs may hold while some classes are under definition. -/
def Free (s : Store) (cs : List Ref) (p : Place) : Prop := s.Has p ∧ ∀ c ∈ cs, p ≠ .object c

instance (s : Store) (cs : List Ref) : DecidablePred (s.Free cs) :=
  fun p => inferInstanceAs (Decidable (s.Has p ∧ ∀ c ∈ cs, p ≠ .object c))

theorem Free.of_grows (h : s.Grows t) (hp : s.Free cs p) : t.Free cs p :=
  ⟨hp.1.of_grows h, hp.2⟩

/-- A frame is never a class under definition. -/
theorem free_frame {f : FrameId} (hf : s.Has (.frame f)) : s.Free cs (.frame f) :=
  ⟨hf, fun _ _ => Place.noConfusion⟩

/-- The store is intact, and hides the classes that are under definition. -/
structure Defines (s : Store) (cs : List Ref) : Prop where
  intact : s.Intact
  nodup : cs.Nodup
  made : ∀ c ∈ cs, s.Has (.object c) ∧ ¬ Heap.IsShared c
  unreferenced : ∀ c ∈ cs, ∀ p, .object c ∉ s.places p

theorem Intact.defines_nil (hs : s.Intact) : s.Defines [] :=
  ⟨hs, .nil, (fun _ hc => nomatch hc), (fun _ hc => nomatch hc)⟩

theorem Intact.defines (hs : s.Intact) (hhas : s.Has (.object c)) (hshared : ¬ Heap.IsShared c)
    (hc : s.Hides c) : s.Defines [c] := by
  refine ⟨hs, by simp, ?_, ?_⟩
  · intro d hd
    cases List.mem_singleton.mp hd
    exact ⟨hhas, hshared⟩
  · intro d hd
    cases List.mem_singleton.mp hd
    exact hc.unreferenced

namespace Defines

theorem hides (hs : s.Defines cs) (hc : c ∈ cs) : s.Hides c :=
  hides_of_unreferenced (hs.unreferenced c hc)

/-- Nothing refers to a class under definition, so what anything refers to is free. -/
theorem free_of_mem_places (hs : s.Defines cs) {q : Place} (hp : s.Has p)
    (hq : q ∈ s.places p) : s.Free cs q := by
  refine ⟨hs.intact.closed p q hp hq, ?_⟩
  rintro c hc rfl
  exact hs.unreferenced c hc p hq

theorem closed (hs : s.Defines cs) : s.Closed (s.Free cs) :=
  fun _ _ hp hq => hs.free_of_mem_places hp.1 hq

theorem free_shared (hs : s.Defines cs) {r : Ref} (hr : Heap.IsShared r) :
    s.Free cs (.object r) := by
  refine ⟨Nat.lt_of_lt_of_le hr hs.intact.shared, ?_⟩
  intro c hc hrc
  cases hrc
  exact (hs.made r hc).2 hr

/-- A place that is new holds no class under definition. -/
theorem free_new (hs : s.Defines cs) (ht : t.Has (.object s.heap.objects.size)) :
    t.Free cs (.object s.heap.objects.size) := by
  refine ⟨ht, ?_⟩
  intro c hc heq
  cases heq
  exact Nat.lt_irrefl _ (hs.made _ hc).1

/-- A change that brings in nothing but what is free. -/
theorem change (hs : s.Defines cs) (hst : s.Grows t)
    (hplaces : ∀ p q, q ∈ t.places p → q ∈ s.places p ∨ s.Free cs q) : t.Defines cs where
  intact :=
    { closed := hs.intact.closed.grow hst fun p q hq => (hplaces p q hq).imp_right And.left
      shared := Nat.le_trans hs.intact.shared hst.objects }
  nodup := hs.nodup
  made c hc := ⟨(hs.made c hc).1.of_grows hst, (hs.made c hc).2⟩
  unreferenced c hc p hp :=
    (hplaces p _ hp).elim (hs.unreferenced c hc p) fun hfree => hfree.2 c hc rfl

theorem enter (hs : s.Defines cs) (f : FrameId) :
    Defines { s with scope := s.scope.enter f } cs :=
  hs.change (s.grows_scope (s.scope.grows_enter f)) fun _ _ hq => .inl hq

theorem newFrame (hs : s.Defines cs) (name : String) {parent : FrameId}
    (hparent : s.Free cs (.frame parent)) :
    Defines { s with scope := (s.scope.newFrame name (some parent)).2 } cs := by
  refine hs.change (s.grows_scope (s.scope.grows_newFrame name _)) ?_
  intro p q hq
  rcases s.mem_places_newFrame hq with hq | rfl
  · exact .inl hq
  · exact .inr hparent

theorem bind (hs : s.Defines cs) (f : FrameId) (name : String) {v : Ref}
    (hv : s.Free cs (.object v)) : Defines { s with scope := s.scope.defineIn f name v } cs := by
  refine hs.change (s.grows_scope (s.scope.grows_defineIn f name v)) ?_
  intro p q hq
  rcases s.mem_places_defineIn hq with hq | rfl
  · exact .inl hq
  · exact .inr hv

theorem add (hs : s.Defines cs) {o : Object} (ho : ∀ p ∈ o.places, s.Free cs p) :
    Defines { s with heap := (s.heap.add o).2 } cs :=
  hs.change (s.grows_heap (by simp)) fun _ q hq => (s.mem_places_add hq).imp_right (ho q)

theorem setField (hs : s.Defines cs) (r : Ref) (name : String) {v : Ref}
    (hv : s.Free cs (.object v)) : Defines { s with heap := s.heap.setField r name v } cs := by
  refine hs.change (s.grows_heap (by simp)) ?_
  intro p q hq
  rcases s.mem_places_setField hq with hq | rfl
  · exact .inl hq
  · exact .inr hv

theorem writeClass (hs : s.Defines cs) (c : Ref) (table : ClassTable) (name : String) {v : Ref}
    (hv : s.Free cs (.object v)) :
    Defines { s with heap := s.heap.updateClass c (·.write table name v) } cs := by
  refine hs.change (s.grows_heap (by simp)) ?_
  intro p q hq
  rcases s.mem_places_writeClass hq with hq | rfl
  · exact .inl hq
  · exact .inr hv

/-- A class that was just made is hidden: what there was cannot refer to it, and it refers to its
superclass alone. -/
theorem begin (hs : s.Defines cs) (name : String) {parent : Ref}
    (hparent : s.Free cs (.object parent)) :
    Defines { s with heap := (s.heap.alloc (.classObject { name, superclass := some parent })).2 }
      (s.heap.objects.size :: cs) := by
  let o : Object := { payload := .classObject { name, superclass := some parent } }
  have hadded := hs.add (o := o) fun p hp => Object.mem_places_newClass hp ▸ hparent
  -- nothing can refer to a place that is not there yet
  have hnew : ∀ p, .object s.heap.objects.size ∉ s.places p := by
    intro p hp
    by_cases hhas : s.Has p
    · exact Nat.lt_irrefl _ (hs.intact.closed p _ hhas hp)
    · rw [s.places_eq_nil_of_not_has hhas] at hp
      cases hp
  refine ⟨hadded.intact, ?_, ?_, ?_⟩
  · exact List.nodup_cons.mpr ⟨fun hc => Nat.lt_irrefl _ (hs.made _ hc).1, hs.nodup⟩
  · refine List.forall_mem_cons.mpr ⟨⟨?_, ?_⟩, hadded.made⟩
    · simp [Store.Has, Heap.alloc]
    · exact Nat.not_lt_of_ge hs.intact.shared
  · refine List.forall_mem_cons.mpr ⟨?_, hadded.unreferenced⟩
    intro p hp
    rcases s.mem_places_add (o := o) hp with hp | hp
    · exact hnew p hp
    · cases Object.mem_places_newClass hp
      exact Nat.lt_irrefl _ hparent.1

/-- A class that is no longer under definition is free. -/
theorem finish (hs : s.Defines (c :: cs)) : s.Defines cs ∧ s.Free cs (.object c) := by
  have hrest {d : Ref} (hd : d ∈ cs) : d ∈ c :: cs := List.mem_cons_of_mem c hd
  refine ⟨⟨hs.intact, hs.nodup.of_cons, ?_, ?_⟩, (hs.made c List.mem_cons_self).1, ?_⟩
  · exact fun d hd => hs.made d (hrest hd)
  · exact fun d hd => hs.unreferenced d (hrest hd)
  · rintro d hd heq
    cases heq
    exact (List.nodup_cons.mp hs.nodup).1 hd

end Defines

end Store

open Store

/-! ## Operations while classes are under definition -/

/-- What the operations keep, as programs use them while classes are under definition: values are
free, objects are such as programs make, and only the innermost class takes entries. -/
structure Store.Drafting (Inv : List Ref → Store → Prop) : Prop where
  defines {cs : List Ref} {s : Store} : Inv cs s → s.Defines cs
  enter {cs : List Ref} {s : Store} (f : FrameId) : Inv cs s →
    Inv cs { s with scope := s.scope.enter f }
  newFrame {cs : List Ref} {s : Store} {parent : FrameId} (name : String) : Inv cs s →
    s.Has (.frame parent) → Inv cs { s with scope := (s.scope.newFrame name (some parent)).2 }
  bind {cs : List Ref} {s : Store} {f : FrameId} {v : Ref} (name : String) : Inv cs s →
    s.Has (.frame f) → s.Free cs (.object v) →
    Inv cs { s with scope := s.scope.defineIn f name v }
  add {cs : List Ref} {s : Store} {o : Object} : Inv cs s → s.heap.Produces o →
    (∀ p ∈ o.places, s.Free cs p) → Inv cs { s with heap := (s.heap.add o).2 }
  setField {cs : List Ref} {s : Store} {r v : Ref} (name : String) : Inv cs s →
    s.Free cs (.object r) → s.Free cs (.object v) →
    Inv cs { s with heap := s.heap.setField r name v }
  begin {cs : List Ref} {s : Store} {parent : Ref} (name : String) : Inv cs s →
    s.Free cs (.object parent) → s.heap.IsSuperclass parent →
    Inv (s.heap.objects.size :: cs)
      { s with heap := (s.heap.alloc (.classObject { name, superclass := some parent })).2 }
  write {cs : List Ref} {s : Store} {c v : Ref} {table : ClassTable} {name : String} :
    Inv (c :: cs) s → s.heap.ClassEntry c table name v → s.Free (c :: cs) (.object v) →
    Inv (c :: cs) { s with heap := s.heap.updateClass c (·.write table name v) }
  finish {cs : List Ref} {s : Store} {c : Ref} : Inv (c :: cs) s → Inv cs s

theorem Store.Defines.drafting : Drafting fun cs s => s.Defines cs where
  defines hs := hs
  enter f hs := hs.enter f
  newFrame name hs hparent := hs.newFrame name (free_frame hparent)
  bind {_ _ f _} name hs _ hv := hs.bind f name hv
  add hs _ ho := hs.add ho
  setField {_ _ r _} name hs _ hv := hs.setField r name hv
  begin name hs hparent _ := hs.begin name hparent
  write {_ _ c _ table name} hs _ hv := hs.writeClass c table name hv
  finish hs := hs.finish.1

/-- Programs hold what is free, and bind names in the frames that are there. -/
def Store.Drafting.stages {Inv : List Ref → Store → Prop} (h : Drafting Inv) :
    Discipline.Stages where
  stage cs :=
    { Inv := Inv cs
      Holds := fun s p => s.Free cs p
      Active := fun s f => s.Has (.frame f)
      holds_mono := fun h hp => hp.of_grows h
      active_mono := fun h hf => has_frame_of_grows h hf
      closed := fun hs => (h.defines hs).closed
      holds_globals := fun {s} _ => free_frame s.scope.globals_lt
      holds_shared := fun hs hr => (h.defines hs).free_shared hr
      holds_active := fun _ hf => free_frame hf
      enter := fun f hs => h.enter f hs
      newFrame := fun name hs hparent => ⟨h.newFrame name hs hparent.1, by simp [Store.Has]⟩
      bind := fun hs hf hv => h.bind _ hs (hf.elim id fun hf => hf.1.1) hv
      add := fun hs hmade ho =>
        ⟨h.add hs hmade ho, (h.defines hs).free_new (by simp [Store.Has])⟩
      setField := fun name hs hr hv => h.setField name hs hr hv }
  Draft _ _ := True
  draft_mono _ _ := trivial
  begins name hs hparent hsuper := ⟨h.begin name hs hparent hsuper, trivial, fun _ hf => hf⟩
  holds_entries {_ c _ _} hs _ hp :=
    (h.defines hs).free_of_mem_places ((h.defines hs).made c List.mem_cons_self).1 hp
  writes hs _ hentry hv := h.write hs hentry hv
  ends hs _ := ⟨h.finish hs, (h.defines hs).finish.2⟩
  holds_frame hf := free_frame hf.1
  cramped h := h

end TreeScript
