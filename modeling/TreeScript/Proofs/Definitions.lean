import TreeScript.Proofs.BoundMethods
import TreeScript.Proofs.CallList
import TreeScript.Proofs.CodeEquality
import TreeScript.Proofs.LastingValues

/-!
# Defining a name again

A frame binds functions to names, and so does the method table of a class while its body is
evaluated. Defined again and again, a name comes to stand for one function of each list of
parameters: the last that was defined with it, at the place of the first. Each definition makes a
new value, so what the name stood for before keeps its functions.
-/

namespace TreeScript

namespace Function

/-- Functions whose parameters differ in places alone, of which the later one takes the place of the
earlier one. -/
def Rivals (f g : Function) : Prop :=
  Pattern.reviseAll .bare f.params = Pattern.reviseAll .bare g.params

/-- Parameters are compared to find out which functions are rivals. -/
theorem sameAll_iff_rivals {f g : Function} :
    Pattern.sameAll f.params g.params = true ↔ f.Rivals g :=
  Pattern.sameAll_iff _ _

instance (f g : Function) : Decidable (f.Rivals g) := decidable_of_iff _ sameAll_iff_rivals

theorem Rivals.refl (f : Function) : f.Rivals f := rfl

theorem Rivals.symm {f g : Function} (h : f.Rivals g) : g.Rivals f := Eq.symm h

theorem Rivals.trans {f g k : Function} (hfg : f.Rivals g) (hgk : g.Rivals k) : f.Rivals k :=
  Eq.trans hfg hgk

/-- How many definitions came before the first with the parameters of a function. -/
def firstOf (defs : List Function) (fn : Function) : Nat := defs.findIdx fun d => d.Rivals fn

/-- One function for each list of parameters among some definitions: the last one with these
parameters, in the order in which the lists first appeared. -/
structure Merges (defs fns : List Function) : Prop where
  covers : ∀ d ∈ defs, ∃ g ∈ fns, d.Rivals g
  last : ∀ g ∈ fns, ∃ before after, defs = before ++ g :: after ∧ ∀ d ∈ after, ¬ d.Rivals g
  ordered : fns.Pairwise fun f g => firstOf defs f < firstOf defs g

theorem firstOf_congr (defs : List Function) {f g : Function} (h : f.Rivals g) :
    firstOf defs f = firstOf defs g := by
  have hsame : (fun d : Function => decide (d.Rivals f)) = fun d => decide (d.Rivals g) :=
    funext fun d => decide_eq_decide.mpr ⟨fun hd => hd.trans h, fun hd => hd.trans h.symm⟩
  rw [firstOf, firstOf, hsame]

namespace Merges

variable {defs fns : List Function}

theorem nil : Merges [] [] :=
  ⟨fun _ hd => absurd hd List.not_mem_nil, fun _ hg => absurd hg List.not_mem_nil, .nil⟩

theorem mem_defs (h : Merges defs fns) {g : Function} (hg : g ∈ fns) : g ∈ defs := by
  obtain ⟨before, after, rfl, -⟩ := h.last g hg
  simp

/-- No two of the functions have the same parameters. -/
theorem distinct (h : Merges defs fns) : fns.Pairwise fun f g => ¬ f.Rivals g :=
  h.ordered.imp fun hlt hrivals => Nat.ne_of_lt hlt (firstOf_congr defs hrivals)

end Merges

theorem insertInto_cons (fn g : Function) (fns : List Function) :
    fn.insertInto (g :: fns) = if g.Rivals fn then fn :: fns else g :: fn.insertInto fns := by
  rw [insertInto]
  exact if_congr sameAll_iff_rivals rfl rfl

theorem insertInto_of_rival {fn g : Function} {before after : List Function}
    (hbefore : ∀ f ∈ before, ¬ f.Rivals fn) (hg : g.Rivals fn) :
    fn.insertInto (before ++ g :: after) = before ++ fn :: after := by
  induction before with
  | nil => exact (insertInto_cons ..).trans (if_pos hg)
  | cons f before ih =>
    obtain ⟨hf, hbefore⟩ := List.forall_mem_cons.mp hbefore
    exact (insertInto_cons ..).trans ((if_neg hf).trans (congrArg (f :: ·) (ih hbefore)))

theorem insertInto_of_no_rival {fn : Function} {fns : List Function}
    (hfns : ∀ f ∈ fns, ¬ f.Rivals fn) : fn.insertInto fns = fns ++ [fn] := by
  induction fns with
  | nil => rfl
  | cons f fns ih =>
    obtain ⟨hf, hfns⟩ := List.forall_mem_cons.mp hfns
    exact (insertInto_cons ..).trans ((if_neg hf).trans (congrArg (f :: ·) (ih hfns)))

theorem firstOf_lt_length {defs : List Function} {f : Function} (hf : f ∈ defs) :
    firstOf defs f < defs.length :=
  List.findIdx_lt_length_of_exists ⟨f, hf, decide_eq_true (.refl f)⟩

theorem firstOf_append_of_mem {defs : List Function} {f : Function} (hf : f ∈ defs)
    (more : List Function) : firstOf (defs ++ more) f = firstOf defs f := by
  rw [firstOf, List.findIdx_append]
  exact if_pos (firstOf_lt_length hf)

theorem length_le_firstOf_append {defs : List Function} {f : Function}
    (hf : ∀ d ∈ defs, ¬ d.Rivals f) (more : List Function) :
    defs.length ≤ firstOf (defs ++ more) f := by
  have hnone : ¬ defs.findIdx (fun d => d.Rivals f) < defs.length := by
    rw [List.findIdx_lt_length]
    rintro ⟨d, hd, hrivals⟩
    exact hf d hd (of_decide_eq_true hrivals)
  rw [firstOf, List.findIdx_append, if_neg hnone]
  exact Nat.le_add_left _ _

namespace Merges

variable {defs fns : List Function} {fn : Function}

/-- The last definition stays the last one with its parameters if no rival follows. -/
theorem last_append {g : Function} (h : Merges defs fns) (hg : g ∈ fns) (hrival : ¬ fn.Rivals g) :
    ∃ before after, defs ++ [fn] = before ++ g :: after ∧ ∀ d ∈ after, ¬ d.Rivals g := by
  obtain ⟨before, after, hdefs, hafter⟩ := h.last g hg
  refine ⟨before, after ++ [fn], by rw [hdefs, List.append_assoc, List.cons_append], ?_⟩
  intro d hd
  rcases List.mem_append.mp hd with hd | hd
  · exact hafter d hd
  · exact List.mem_singleton.mp hd ▸ hrival

theorem insert_rival {g : Function} {before after : List Function}
    (h : Merges defs (before ++ g :: after)) (hg : g.Rivals fn) :
    Merges (defs ++ [fn]) (before ++ fn :: after) := by
  have hmem (a f : Function) : f ∈ before ++ a :: after ↔ f = a ∨ f ∈ before ++ after := by
    simp [or_left_comm]
  have hold (f : Function) (hf : f ∈ before ++ after) : f ∈ before ++ g :: after :=
    (hmem g f).mpr (.inr hf)
  -- the rivals of the new function are those of `g`, and `g` was the only one of them
  have hother : ∀ f ∈ before ++ after, ¬ fn.Rivals f := by
    obtain ⟨-, hrest, hbefore⟩ := List.pairwise_append.mp h.distinct
    intro f hf hrivals
    rcases List.mem_append.mp hf with hf | hf
    · exact hbefore f hf g List.mem_cons_self (hrivals.symm.trans hg.symm)
    · exact (List.pairwise_cons.mp hrest).1 f hf (hg.trans hrivals)
  refine ⟨?_, ?_, ?_⟩
  · intro d hd
    rcases List.mem_append.mp hd with hd | hd
    · obtain ⟨f, hf, hdf⟩ := h.covers d hd
      rcases (hmem g f).mp hf with rfl | hf
      · exact ⟨fn, by simp, hdf.trans hg⟩
      · exact ⟨f, (hmem fn f).mpr (.inr hf), hdf⟩
    · exact ⟨fn, by simp, List.mem_singleton.mp hd ▸ .refl d⟩
  · intro f hf
    rcases (hmem fn f).mp hf with rfl | hf
    · exact ⟨defs, [], rfl, fun d hd => absurd hd List.not_mem_nil⟩
    · exact h.last_append (hold f hf) (hother f hf)
  · -- every function has the place that it had, and the new one that of its rival
    have hplace (f : Function) (hf : f ∈ before ++ g :: after) :
        firstOf (defs ++ [fn]) f = firstOf defs f :=
      firstOf_append_of_mem (h.mem_defs hf) _
    have hplaces : (before ++ fn :: after).map (firstOf (defs ++ [fn])) =
        (before ++ g :: after).map (firstOf defs) := by
      rw [← List.map_congr_left hplace, List.map_append, List.map_append, List.map_cons,
        List.map_cons, firstOf_congr _ hg]
    exact List.pairwise_map.mp (hplaces ▸ List.pairwise_map.mpr h.ordered)

theorem insert_last (h : Merges defs fns) (hfns : ∀ f ∈ fns, ¬ f.Rivals fn) :
    Merges (defs ++ [fn]) (fns ++ [fn]) := by
  have hdefs : ∀ d ∈ defs, ¬ d.Rivals fn := by
    intro d hd hrivals
    obtain ⟨g, hg, hdg⟩ := h.covers d hd
    exact hfns g hg (hdg.symm.trans hrivals)
  refine ⟨?_, ?_, List.pairwise_append.mpr ⟨?_, List.pairwise_singleton _ _, ?_⟩⟩
  · intro d hd
    rcases List.mem_append.mp hd with hd | hd
    · obtain ⟨g, hg, hdg⟩ := h.covers d hd
      exact ⟨g, List.mem_append_left _ hg, hdg⟩
    · exact ⟨fn, by simp, List.mem_singleton.mp hd ▸ .refl d⟩
  · intro g hg
    rcases List.mem_append.mp hg with hg | hg
    · exact h.last_append hg fun hrivals => hfns g hg hrivals.symm
    · cases List.mem_singleton.mp hg
      exact ⟨defs, [], rfl, fun d hd => absurd hd List.not_mem_nil⟩
  · refine h.ordered.imp_of_mem fun hf hg hlt => ?_
    rwa [firstOf_append_of_mem (h.mem_defs hf), firstOf_append_of_mem (h.mem_defs hg)]
  · intro f hf g hg
    cases List.mem_singleton.mp hg
    rw [firstOf_append_of_mem (h.mem_defs hf)]
    exact Nat.lt_of_lt_of_le (firstOf_lt_length (h.mem_defs hf)) (length_le_firstOf_append hdefs _)

/-- A further definition takes the place of its rival, or comes last. -/
theorem insert (h : Merges defs fns) (fn : Function) :
    Merges (defs ++ [fn]) (fn.insertInto fns) := by
  by_cases hrival : ∃ g ∈ fns, g.Rivals fn
  · obtain ⟨g, hmem, hg⟩ := hrival
    obtain ⟨before, after, rfl⟩ := List.append_of_mem hmem
    have hbefore : ∀ f ∈ before, ¬ f.Rivals fn := by
      intro f hf hrivals
      exact (List.pairwise_append.mp h.distinct).2.2 f hf g List.mem_cons_self
        (hrivals.trans hg.symm)
    rw [insertInto_of_rival hbefore hg]
    exact h.insert_rival hg
  · have hfns : ∀ f ∈ fns, ¬ f.Rivals fn := fun f hf hrivals => hrival ⟨f, hf, hrivals⟩
    rw [insertInto_of_no_rival hfns]
    exact h.insert_last hfns

end Merges

theorem insertInto_ne_nil (fn : Function) (fns : List Function) : fn.insertInto fns ≠ [] := by
  cases fns with
  | nil => exact List.cons_ne_nil _ _
  | cons g fns =>
    rw [insertInto]
    split <;> exact List.cons_ne_nil _ _

theorem length_le_insertInto (fn : Function) (fns : List Function) :
    fns.length ≤ (fn.insertInto fns).length := by
  induction fns with
  | nil => exact Nat.zero_le _
  | cons g fns ih =>
    rw [insertInto]
    split
    · exact Nat.le_refl _
    · exact Nat.succ_le_succ ih

end Function

/-- The value of functions of one name: a function if there is one, else an overload set. -/
def Payload.ofFunctions (name : String) : List Function → Payload
  | [fn] => .function fn
  | fns => .overloads name fns

theorem Payload.ofFunctions_of_two_le (name : String) {fns : List Function}
    (hfns : 2 ≤ fns.length) : ofFunctions name fns = .overloads name fns := by
  match fns, hfns with
  | _ :: _ :: _, _ => rfl

theorem Payload.isCode_ofFunctions (name : String) (fns : List Function) :
    (ofFunctions name fns).IsCode := by
  unfold ofFunctions
  split
  · exact .function _
  · exact .overloads _ _

theorem Payload.IsCode.ne_null {p : Payload} (hp : p.IsCode) : p ≠ .null := by
  rintro rfl
  cases hp

namespace Heap

variable {h : Heap} {fn : Function}

theorem foldDefinition_of_not_isCode {existing : Option Ref}
    (hold : ∀ v, existing = some v → ¬ (h.payload v).IsCode) :
    h.foldDefinition existing fn = .function fn := by
  cases existing with
  | none => rfl
  | some v =>
    rw [foldDefinition, Option.map_some]
    cases hv : h.payload v with
    | function g => exact absurd (hv ▸ .function g) (hold v rfl)
    | overloads name fns => exact absurd (hv ▸ .overloads name fns) (hold v rfl)
    | _ => rfl

/-- A definition makes the value of what was bound and of what is defined. -/
theorem foldDefinition_ofFunctions {v : Ref} {fns : List Function} (hfns : fns ≠ [])
    (hv : h.payload v = Payload.ofFunctions fn.name fns) :
    h.foldDefinition (some v) fn = Payload.ofFunctions fn.name (fn.insertInto fns) := by
  rw [foldDefinition, Option.map_some, hv]
  cases fns with
  | nil => contradiction
  | cons g rest =>
    cases rest with
    | nil =>
      dsimp only [Payload.ofFunctions]
      rw [Function.insertInto]
      split <;> rfl
    | cons g' rest =>
      have htwo : 2 ≤ (fn.insertInto (g :: g' :: rest)).length :=
        Nat.le_trans (by simp) (fn.length_le_insertInto _)
      exact (Payload.ofFunctions_of_two_le fn.name htwo).symm

end Heap

theorem Heap.class?_updateClass_self (h : Heap) {c : Ref} (f : ClassInfo → ClassInfo)
    {info : ClassInfo} (hinfo : h.class? c = some info) :
    (h.updateClass c f).class? c = some (f info) := by
  have hpayload : h.payload c = .classObject info := payload_of_class? hinfo
  have hc : c < h.objects.size := h.lt_of_payload_ne_null (by simp [hpayload])
  have hget : h.objects[c].payload = .classObject info := by
    simpa [payload, object, Array.getD, hc] using hpayload
  simp [class?, updateClass, payload, object, Array.getD, hc, Array.getElem_modify, hget]

theorem Heap.methodOf?_updateClass_congr (h : Heap) {c : Ref} {f : ClassInfo → ClassInfo}
    {name : String} (hf : ∀ info, (f info).methods.get? name = info.methods.get? name) :
    (h.updateClass c f).methodOf? c name = h.methodOf? c name := by
  rcases h.payload_updateClass_cases c c f with hsame | ⟨info, hinfo, hclass⟩
  · rw [methodOf?, class?, hsame]
    rfl
  · rw [methodOf?, class?, hclass, methodOf?, class?, hinfo]
    exact hf info

theorem Heap.class?_of_isCode {h : Heap} {r : Ref} (hcode : (h.payload r).IsCode) :
    h.class? r = none := by
  rw [Heap.class?]
  generalize h.payload r = p at hcode
  cases hcode <;> rfl

/-! ## What lasts -/

/-- All values but classes are what they were, and classes are classes still. -/
structure Store.LastsInto (s t : Store) : Prop where
  grows : s.Grows t
  payload : ∀ r, s.Has (.object r) → s.heap.class? r = none → t.heap.payload r = s.heap.payload r
  classes : ∀ c, (s.heap.class? c).isSome = true → (t.heap.class? c).isSome = true

namespace Store

variable {s t u : Store}

theorem LastsInto.refl (s : Store) : s.LastsInto s := ⟨.refl s, fun _ _ _ => rfl, fun _ hc => hc⟩

theorem LastsInto.trans (hst : s.LastsInto t) (htu : t.LastsInto u) : s.LastsInto u where
  grows := hst.grows.trans htu.grows
  payload r hr hclass := by
    have hpayload := hst.payload r hr hclass
    refine (htu.payload r (hr.of_grows hst.grows) ?_).trans hpayload
    rw [Heap.class?, hpayload]
    exact hclass
  classes c hc := htu.classes c (hst.classes c hc)

theorem has_of_isSome_class? {c : Ref} (hc : (s.heap.class? c).isSome = true) :
    s.Has (.object c) :=
  s.heap.lt_of_payload_ne_null (Heap.payload_ne_null_of_isSome hc)

theorem KeepsValues.lastsInto (h : s.KeepsValues t) : s.LastsInto t where
  grows := h.grows
  payload r hr _ := h.payload r hr
  classes c hc := by
    rw [Heap.class?, h.payload c (has_of_isSome_class? hc)]
    exact hc

theorem lastsInto_updateClass (s : Store) (c : Ref) (f : ClassInfo → ClassInfo) :
    s.LastsInto { s with heap := s.heap.updateClass c f } where
  grows := s.grows_heap (by simp)
  payload r _ hclass := by
    rcases s.heap.payload_updateClass_cases c r f with hsame | ⟨info, hinfo, -⟩
    · exact hsame
    · rw [Heap.class?, hinfo] at hclass
      cases hclass
  classes d hd := by simpa using hd

/-- What a name stands for lasts as it is, and nothing else comes to be code. -/
theorem LastsInto.isCode_iff (h : s.LastsInto t) {r : Ref} (hr : s.Has (.object r)) :
    (t.heap.payload r).IsCode ↔ (s.heap.payload r).IsCode := by
  cases hclass : s.heap.class? r with
  | none => rw [h.payload r hr hclass]
  | some info =>
    have hs : ¬ (s.heap.payload r).IsCode := fun hcode => by
      rw [Heap.class?_of_isCode hcode] at hclass
      cases hclass
    have ht : ¬ (t.heap.payload r).IsCode := fun hcode => by
      have hsome := h.classes r (hclass ▸ rfl)
      rw [Heap.class?_of_isCode hcode] at hsome
      cases hsome
    exact iff_of_false ht hs

theorem LastsInto.payload_of_isCode (h : s.LastsInto t) {r : Ref} (hr : s.Has (.object r))
    (hcode : (s.heap.payload r).IsCode) : t.heap.payload r = s.heap.payload r :=
  h.payload r hr (Heap.class?_of_isCode hcode)

end Store

/-! ## Tables -/

/-- Where functions are bound to names: a frame, or the methods of a class. -/
inductive Table where
  | frame (f : FrameId)
  | methods (c : Ref)

namespace Table

def entry (s : Store) (name : String) : Table → Option Ref
  | .frame f => (s.scope.frame f).bindings.get? name
  | .methods c => s.heap.methodOf? c name

def IsThere (s : Store) : Table → Prop
  | .frame f => s.Has (.frame f)
  | .methods c => (s.heap.class? c).isSome = true

def write (s : Store) (name : String) (v : Ref) : Table → Store
  | .frame f => { s with scope := s.scope.defineIn f name v }
  | .methods c => { s with heap := s.heap.updateClass c (·.write .methods name v) }

/-- The store after a function is defined in a table. -/
def define (s : Store) (fn : Function) (t : Table) : Store :=
  t.write { s with heap := (s.heap.alloc (s.heap.foldDefinition (t.entry s fn.name) fn)).2 }
    fn.name s.heap.objects.size

/-- A function of some name is defined in a table, by code in a frame or in the body of a class, at
any depth of evaluation. -/
inductive Defines (name : String) (fn : Function) (m m' : Machine) : Table → Prop
  | frame {limits : Limits} {loc : Option Loc} {params : List Pattern} {body : Expr} {v : Ref}
    (hfn : fn = { name, params, body, captured := some m.scope.head })
    (h : Run.evaluate limits (.function loc (some name) params body) m = .done v m') :
    Defines name fn m m' (.frame m.scope.head)
  | methods {limits : Limits} {c : Ref} {loc : Option Loc} {params : List Pattern} {body : Expr}
    (hfn : fn = { name, params, body, captured := some m.scope.head })
    (h : Run.defineMembers (Run.evaluate limits) c [.function loc (some name) params body] m =
      .done () m') :
    Defines name fn m m' (.methods c)

/-- Something else happens: the name is left alone, and all values last. -/
structure Passes (name : String) (s s' : Store) (t : Table) : Prop where
  lasts : s.LastsInto s'
  entry : t.entry s' name = t.entry s name

/-- Definitions of a name, with other things in between. -/
inductive History (name : String) (m : Machine) (t : Table) : List Function → Machine → Prop
  | start : History name m t [] m
  | defines {defs : List Function} {fn : Function} {m₁ m₂ : Machine}
    (h : History name m t defs m₁) (hdefines : t.Defines name fn m₁ m₂) :
    History name m t (defs ++ [fn]) m₂
  | passes {defs : List Function} {m₁ m₂ : Machine}
    (h : History name m t defs m₁) (hpasses : t.Passes name m₁.store m₂.store) :
    History name m t defs m₂

section Steps

variable {s s' : Store} {t : Table} {fn : Function} {name : String}

theorem isThere_of_lastsInto (h : s.LastsInto s') (ht : t.IsThere s) : t.IsThere s' := by
  cases t with
  | frame f => exact Store.has_frame_of_grows h.grows ht
  | methods c => exact h.classes c ht

theorem entry_write (ht : t.IsThere s) (name : String) (v : Ref) :
    t.entry (t.write s name v) name = some v := by
  cases t with
  | frame f =>
    have hframe := s.scope.frame_defineIn_self name v ht
    exact (congrArg (·.bindings.get? name) hframe).trans (Bindings.get?_set_self _ _ _)
  | methods c =>
    obtain ⟨info, hinfo⟩ := Option.isSome_iff_exists.mp ht
    have hclass := s.heap.class?_updateClass_self (·.write .methods name v) hinfo
    exact (congrArg (·.bind (·.methods.get? name)) hclass).trans (Bindings.get?_set_self _ _ _)

theorem entry_write_of_ne {other : String} (hother : other ≠ name) (v : Ref) :
    t.entry (t.write s name v) other = t.entry s other := by
  cases t with
  | frame f =>
    show ((s.scope.defineIn f name v).frame f).bindings.get? other = _
    rw [Scope.frame_defineIn]
    split
    · exact Bindings.get?_set_of_ne _ hother v
    · rfl
  | methods c =>
    exact s.heap.methodOf?_updateClass_congr fun info => Bindings.get?_set_of_ne _ hother v

theorem lastsInto_write (s : Store) (t : Table) (name : String) (v : Ref) :
    s.LastsInto (t.write s name v) := by
  cases t with
  | frame f =>
    exact ⟨s.grows_scope (s.scope.grows_defineIn f name v), fun _ _ _ => rfl, fun _ hc => hc⟩
  | methods c => exact s.lastsInto_updateClass c _

theorem lastsInto_alloc (s : Store) (p : Payload) :
    s.LastsInto { s with heap := (s.heap.alloc p).2 } :=
  ((Store.KeepsValues.refl s).add _).lastsInto

theorem lastsInto_define (s : Store) (t : Table) (fn : Function) : s.LastsInto (t.define s fn) :=
  (lastsInto_alloc s _).trans (lastsInto_write _ t _ _)

theorem entry_define (ht : t.IsThere s) (fn : Function) :
    t.entry (t.define s fn) fn.name = some s.heap.objects.size :=
  entry_write (isThere_of_lastsInto (lastsInto_alloc s _) ht) _ _

theorem entry_define_of_ne (ht : t.IsThere s) {fn : Function} {other : String}
    (hother : other ≠ fn.name) : t.entry (t.define s fn) other = t.entry s other := by
  refine (entry_write_of_ne hother _).trans ?_
  cases t with
  | frame f => rfl
  | methods c =>
    have hpayload := s.heap.payload_alloc_of_lt
      (s.heap.foldDefinition ((methods c).entry s fn.name) fn) (Store.has_of_isSome_class? ht)
    show Heap.methodOf? _ c other = s.heap.methodOf? c other
    rw [Heap.methodOf?, Heap.class?, hpayload]
    rfl

/-- The value that a definition makes. -/
theorem payload_define (ht : t.IsThere s) (fn : Function) :
    (t.define s fn).heap.payload s.heap.objects.size =
      s.heap.foldDefinition (t.entry s fn.name) fn := by
  cases t with
  | frame f => exact s.heap.payload_alloc_self _
  | methods c =>
    have hc : c ≠ s.heap.objects.size := Nat.ne_of_lt (Store.has_of_isSome_class? ht)
    refine (Heap.payload_updateClass_of_ne _ _ hc).trans ?_
    exact s.heap.payload_alloc_self _

end Steps

end Table

theorem Run.done_of_bind_done {α β : Type} {x : Run α} {f : α → Run β} {m m' : Machine} {b : β}
    (h : (x >>= f) m = .done b m') : ∃ a m₁, x m = .done a m₁ ∧ f a m₁ = .done b m' := by
  rw [bind_apply] at h
  cases hx : x m with
  | done a m₁ => exact ⟨a, m₁, rfl, by rwa [hx] at h⟩
  | failed fault m₁ => rw [hx] at h; cases h
  | exhausted => rw [hx] at h; cases h

namespace Table

/-! ## Definitions in code -/

section Code

variable {limits : Limits} {name : String} {fn : Function} {m m' : Machine} {t : Table}

/-- Code that defines a function always has it for its value. -/
theorem evaluate_function (limits : Limits) (hname : name ≠ "") (loc : Option Loc)
    (params : List Pattern) (body : Expr) (m : Machine) :
    ∃ m', Run.evaluate limits (.function loc (some name) params body) m =
        .done m.heap.objects.size m' ∧
      m'.store = (frame m.scope.head).define m.store
        { name, params, body, captured := some m.scope.head } := by
  obtain ⟨nesting, hnesting⟩ := Nat.exists_eq_succ_of_ne_zero (Nat.ne_of_gt limits.nesting_pos)
  have hlevel : Run.evaluateLevel (Run.evaluateAt limits nesting) limits.rounds
      (.function loc (some name) params body) = (do
        let captured ← Run.lookScope (·.head)
        Run.defineFunction { name, params, body, captured := some captured }) := by
    rw [Run.evaluateLevel]
    simp only [if_neg hname]
  rw [Run.evaluate, hnesting, Run.evaluateAt]
  dsimp only
  rw [hlevel]
  exact ⟨_, rfl, rfl⟩

theorem Defines.store (hname : name ≠ "") (h : t.Defines name fn m m') :
    fn.name = name ∧ m'.store = t.define m.store fn := by
  cases h with
  | @frame limits loc params body v hfn h =>
    subst hfn
    obtain ⟨m'', hdone, hstore⟩ := evaluate_function limits hname loc params body m
    cases h.symm.trans hdone
    exact ⟨rfl, hstore⟩
  | methods hfn h =>
    subst hfn
    cases h
    exact ⟨rfl, rfl⟩

theorem exists_defines (hname : name ≠ "") (loc : Option Loc)
    (params : List Pattern) (body : Expr) (m : Machine) :
    ∃ m', (frame m.scope.head).Defines name
        { name, params, body, captured := some m.scope.head } m m' ∧
      m'.scope.head = m.scope.head := by
  obtain ⟨m', hdone, hstore⟩ := evaluate_function .standard hname loc params body m
  exact ⟨m', .frame rfl hdone, congrArg (·.scope.head) hstore⟩

theorem keepsValues_of_machine? {e : Expr} (h : (Run.evaluate limits e m).machine? = some m') :
    m.store.KeepsValues m'.store := by
  have hkeeps := Run.evaluateAt_keepsValues limits limits.nesting e m
  rw [show Run.evaluateAt limits limits.nesting = Run.evaluate limits from rfl] at hkeeps
  cases hend : Run.evaluate limits e m with
  | done v m₁ =>
    rw [hend] at h hkeeps
    cases h
    exact hkeeps
  | failed fault m₁ =>
    rw [hend] at h hkeeps
    cases h
    exact hkeeps
  | exhausted =>
    rw [hend] at h
    cases h

/-- Any evaluation that leaves the binding of a name alone may come between definitions of it. -/
theorem passes_evaluate {e : Expr} (h : (Run.evaluate limits e m).machine? = some m')
    (hentry : t.entry m'.store name = t.entry m.store name) : t.Passes name m.store m'.store :=
  ⟨(keepsValues_of_machine? h).lastsInto, hentry⟩

/-- No evaluation has a part in the methods of a class under definition. -/
theorem passes_evaluate_methods {c : Ref} {e : Expr} (hc : (methods c).IsThere m.store)
    (h : (Run.evaluate limits e m).machine? = some m') :
    (methods c).Passes name m.store m'.store := by
  refine passes_evaluate h ?_
  have hpayload := (keepsValues_of_machine? h).payload c (Store.has_of_isSome_class? hc)
  show Heap.methodOf? _ c name = Heap.methodOf? _ c name
  rw [Heap.methodOf?, Heap.class?, hpayload]
  rfl

end Code

section Histories

variable {limits : Limits} {name : String} {m m₁ : Machine} {t : Table} {defs : List Function}

/-- A name stands in a table for one function of each list of parameters. -/
def Stands (s : Store) (name : String) (defs : List Function) (t : Table) : Prop :=
  ∃ v fns, t.entry s name = some v ∧ s.Has (.object v) ∧ fns ≠ [] ∧
    s.heap.payload v = .ofFunctions name fns ∧ Function.Merges defs fns

theorem History.lasts (hname : name ≠ "") (h : t.History name m defs m₁) :
    m.store.LastsInto m₁.store := by
  induction h with
  | start => exact .refl _
  | defines _ hdefines ih =>
    rw [(hdefines.store hname).2]
    exact ih.trans (lastsInto_define _ _ _)
  | passes _ hpasses ih => exact ih.trans hpasses.lasts

/-- A definition adds to what the name stands for. -/
theorem stands_define {s : Store} {fn : Function} (ht : t.IsThere s)
    (hs : defs = [] ∧ (∀ v, t.entry s fn.name = some v → ¬ (s.heap.payload v).IsCode) ∨
      t.Stands s fn.name defs) :
    t.Stands (t.define s fn) fn.name (defs ++ [fn]) := by
  obtain ⟨fns, hmerges, hfold⟩ : ∃ fns, Function.Merges defs fns ∧
      s.heap.foldDefinition (t.entry s fn.name) fn = .ofFunctions fn.name (fn.insertInto fns) := by
    rcases hs with ⟨rfl, hnot⟩ | ⟨v, fns, hentry, -, hfns, hpayload, hmerges⟩
    · exact ⟨[], .nil, Heap.foldDefinition_of_not_isCode hnot⟩
    · exact ⟨fns, hmerges, hentry ▸ Heap.foldDefinition_ofFunctions hfns hpayload⟩
  have hpayload := (payload_define ht fn).trans hfold
  refine ⟨s.heap.objects.size, _, entry_define ht fn, ?_, fn.insertInto_ne_nil fns, hpayload,
    hmerges.insert fn⟩
  refine Heap.lt_of_payload_ne_null _ ?_
  rw [hpayload]
  exact (Payload.isCode_ofFunctions _ _).ne_null

/-- What lasts and is not bound again stands as it stood. -/
theorem Passes.stands {s s' : Store} (h : t.Passes name s s') (hs : t.Stands s name defs) :
    t.Stands s' name defs := by
  obtain ⟨v, fns, hentry, hhas, hfns, hpayload, hmerges⟩ := hs
  have hcode : (s.heap.payload v).IsCode := hpayload ▸ Payload.isCode_ofFunctions name fns
  exact ⟨v, fns, h.entry.trans hentry, hhas.of_grows h.lasts.grows, hfns,
    (h.lasts.payload_of_isCode hhas hcode).trans hpayload, hmerges⟩

theorem History.stands (hname : name ≠ "") (ht : t.IsThere m.store)
    (hstart : ∀ v, t.entry m.store name = some v →
      m.store.Has (.object v) ∧ ¬ (m.heap.payload v).IsCode)
    (h : t.History name m defs m₁) :
    defs = [] ∧ t.entry m₁.store name = t.entry m.store name ∨ t.Stands m₁.store name defs := by
  induction h with
  | start => exact .inl ⟨rfl, rfl⟩
  | @defines defs fn m₁ m₂ h hdefines ih =>
    obtain ⟨rfl, hstore⟩ := hdefines.store hname
    have hlasts := h.lasts hname
    refine .inr (hstore ▸ stands_define (isThere_of_lastsInto hlasts ht) (ih.imp_left ?_))
    rintro ⟨hdefs, hentry⟩
    refine ⟨hdefs, fun v hv hcode => ?_⟩
    obtain ⟨hhas, hnot⟩ := hstart v (hentry ▸ hv)
    exact hnot ((hlasts.isCode_iff hhas).mp hcode)
  | passes h hpasses ih =>
    refine ih.imp ?_ hpasses.stands
    rintro ⟨hdefs, hentry⟩
    exact ⟨hdefs, hpasses.entry.trans hentry⟩

/-! ## Bodies of classes -/

/-- The parameters and body of a member that defines a method of some name. -/
def definition? (name : String) : Expr → Option (List Pattern × Expr)
  | .function _ (some n) params body => if n = name then some (params, body) else none
  | _ => none

theorem eq_function_of_definition? {e : Expr} {code : List Pattern × Expr}
    (h : definition? name e = some code) :
    ∃ loc params body, e = .function loc (some name) params body ∧ code = (params, body) := by
  unfold definition? at h
  split at h
  · rename_i loc n params body
    split at h
    · rename_i hn
      subst hn
      exact ⟨loc, params, body, rfl, (Option.some.inj h).symm⟩
    · cases h
  · cases h

variable {c : Ref}

/-- A member of a class defines a method or a default, or is evaluated for its effects. -/
theorem member_cases (e : Expr) :
    (∃ loc n params body, e = .function loc (some n) params body) ∨
      (∃ loc loc' n value, e = .assign loc (.name loc' n) value) ∨
      (∀ n, definition? n e = none) ∧ ∀ evaluate c es, Run.defineMembers evaluate c (e :: es) =
        (do let _ ← evaluate e; Run.defineMembers evaluate c es) := by
  cases e with
  | function loc n params body =>
    cases n with
    | some n => exact .inl ⟨loc, n, params, body, rfl⟩
    | none => exact .inr (.inr ⟨fun _ => rfl, fun _ _ _ => rfl⟩)
  | assign loc target value =>
    cases target with
    | name loc' n => exact .inr (.inl ⟨loc, loc', n, value, rfl⟩)
    | _ => exact .inr (.inr ⟨fun _ => rfl, fun _ _ _ => rfl⟩)
  | _ => exact .inr (.inr ⟨fun _ => rfl, fun _ _ _ => rfl⟩)

theorem defineMembers_cons (evaluate : Evaluator) (c : Ref) (e : Expr) (es : List Expr) :
    Run.defineMembers evaluate c (e :: es) =
      (do Run.defineMembers evaluate c [e]; Run.defineMembers evaluate c es) := by
  rcases member_cases e with ⟨loc, n, params, body, rfl⟩ | ⟨loc, loc', n, value, rfl⟩ | ⟨-, hrun⟩
  · simp only [Run.defineMembers, bind_assoc, pure_bind]
  · simp only [Run.defineMembers, bind_assoc, pure_bind]
  · rw [hrun, hrun]
    simp only [Run.defineMembers, bind_assoc, pure_bind]

theorem passes_member {e : Expr} {m' : Machine} (hc : (methods c).IsThere m.store)
    (hother : definition? name e = none)
    (h : Run.defineMembers (Run.evaluate limits) c [e] m = .done () m') :
    (methods c).Passes name m.store m'.store := by
  rcases member_cases e with ⟨loc, n, params, body, rfl⟩ | ⟨loc, loc', n, value, rfl⟩ | ⟨-, hrun⟩
  · have hne : name ≠ n := by
      rintro rfl
      simp [definition?] at hother
    cases h
    let fn : Function := { name := n, params, body, captured := some m.scope.head }
    exact ⟨lastsInto_define m.store (methods c) fn, entry_define_of_ne hc hne⟩
  · obtain ⟨v, m₁, hvalue, hdefault⟩ := Run.done_of_bind_done h
    have hpasses : (methods c).Passes name m.store m₁.store :=
      passes_evaluate_methods hc (congrArg Outcome.machine? hvalue)
    cases hdefault
    refine ⟨hpasses.lasts.trans (m₁.store.lastsInto_updateClass c _), ?_⟩
    have hmethods : ∀ info : ClassInfo,
        (info.write .defaults n v).methods.get? name = info.methods.get? name := fun _ => rfl
    exact (m₁.heap.methodOf?_updateClass_congr hmethods).trans hpasses.entry
  · rw [hrun] at h
    obtain ⟨v, m₁, hvalue, hrest⟩ := Run.done_of_bind_done h
    cases hrest
    exact passes_evaluate_methods hc (congrArg Outcome.machine? hvalue)

/-- To go through the body of a class is to define the methods of a name one after the other. -/
theorem history_defineMembers (hname : name ≠ "") (hc : (methods c).IsThere m.store)
    {es : List Expr} {m' : Machine} (h : (methods c).History name m defs m₁)
    (hrun : Run.defineMembers (Run.evaluate limits) c es m₁ = .done () m') :
    ∃ more, (methods c).History name m (defs ++ more) m' ∧
      more.map (fun fn => (fn.params, fn.body)) = es.filterMap (definition? name) := by
  induction es generalizing m₁ defs with
  | nil =>
    cases hrun
    exact ⟨[], (List.append_nil defs).symm ▸ h, rfl⟩
  | cons e es ih =>
    rw [defineMembers_cons] at hrun
    obtain ⟨⟨⟩, m₂, hmember, hrest⟩ := Run.done_of_bind_done hrun
    have hc₁ := isThere_of_lastsInto (h.lasts hname) hc
    cases he : definition? name e with
    | none =>
      obtain ⟨more, hmore, hcode⟩ := ih (h.passes (passes_member hc₁ he hmember)) hrest
      exact ⟨more, hmore, by rw [List.filterMap_cons_none he, hcode]⟩
    | some code =>
      obtain ⟨loc, params, body, rfl, rfl⟩ := eq_function_of_definition? he
      obtain ⟨more, hmore, hcode⟩ := ih (h.defines (.methods rfl hmember)) hrest
      let fn : Function := { name, params, body, captured := some m₁.scope.head }
      refine ⟨fn :: more, ?_, ?_⟩
      · rwa [List.append_cons]
      · rw [List.map_cons, hcode, List.filterMap_cons_some he]

/-! ## Sequences of definitions -/

/-- After some definitions, a name that did not stand for code before stands for one function of
each list of parameters, the last that was defined with it, in the order in which the lists first
appeared. Whatever is defined later, the value lasts as it is. To go on with the body of a class is
to define the methods that its members define, one after the other. -/
theorem definitions_merge (hname : name ≠ "") (hm : m.store.Intact) (ht : t.IsThere m.store)
    (hstart : ∀ v, t.entry m.store name = some v → ¬ (m.heap.payload v).IsCode)
    (h : t.History name m defs m₁) (hdefs : defs ≠ []) {later : List Function}
    {m₂ : Machine} (hlater : t.History name m₁ later m₂) :
    ∃ v fns, t.entry m₁.store name = some v ∧ m₁.heap.payload v = .ofFunctions name fns ∧
      Function.Merges defs fns ∧ m₂.heap.payload v = m₁.heap.payload v ∧
      ∀ c limits es m', t = methods c →
        Run.defineMembers (Run.evaluate limits) c es m₁ = .done () m' →
          ∃ more, t.History name m (defs ++ more) m' ∧
            more.map (fun fn => (fn.params, fn.body)) = es.filterMap (definition? name) := by
  have hhas (v : Ref) (hv : t.entry m.store name = some v) : m.store.Has (.object v) := by
    cases t with
    | frame f => exact hm.closed.binding ht (Bindings.mem_values_of_get? hv)
    | methods c => exact hm.closed.method (Store.has_of_isSome_class? ht) hv
  rcases h.stands hname ht fun v hv => ⟨hhas v hv, hstart v hv⟩ with
    ⟨hnil, -⟩ | ⟨v, fns, hentry, hv, -, hpayload, hmerges⟩
  · exact absurd hnil hdefs
  · refine ⟨v, fns, hentry, hpayload, hmerges, ?_, ?_⟩
    · exact (hlater.lasts hname).payload_of_isCode hv (hpayload ▸ Payload.isCode_ofFunctions name fns)
    · rintro c limits es m' rfl hrun
      exact history_defineMembers hname ht h hrun

/-- A function of one argument, one of none, and again one of one argument. -/
def redefinedOnce : List Function :=
  [{ name := "f", params := [.name none "x"], body := .boolean none true, captured := some 0 },
    { name := "f", params := [], body := .null none, captured := some 0 },
    { name := "f", params := [.name (some ⟨1, "d"⟩) "x"], body := .boolean none false,
      captured := some 0 }]

/-- The name comes to stand for the functions that were not defined again. -/
theorem definitions_merge_redefinedOnce :
    let m := Machine.bare false
    "f" ≠ "" ∧ m.store.Intact ∧ (frame 0).IsThere m.store ∧ (frame 0).entry m.store "f" = none ∧
      ∃ m₁ v fns, (frame 0).History "f" m redefinedOnce m₁ ∧
        (frame 0).entry m₁.store "f" = some v ∧ m₁.heap.payload v = .ofFunctions "f" fns ∧
        Function.Merges redefinedOnce fns := by
  intro m
  have hname : "f" ≠ "" := by decide
  have hthere : (frame 0).IsThere m.store := Nat.one_pos
  have hstart : (frame 0).entry m.store "f" = none := rfl
  obtain ⟨m₁, h₁, hhead₁⟩ := exists_defines hname none [.name none "x"]
    (.boolean none true) m
  obtain ⟨m₂, h₂, hhead₂⟩ := exists_defines hname none [] (.null none) m₁
  obtain ⟨m₃, h₃, -⟩ := exists_defines hname none [.name (some ⟨1, "d"⟩) "x"]
    (.boolean none false) m₂
  rw [hhead₂.trans hhead₁] at h₃
  rw [hhead₁] at h₂
  have h : (frame 0).History "f" m redefinedOnce m₃ :=
    ((History.start.defines h₁).defines h₂).defines h₃
  obtain ⟨v, fns, hentry, hpayload, hmerges, -⟩ := definitions_merge hname
    (Store.intact_bare false) hthere (fun v hv => by rw [hstart] at hv; cases hv) h (by decide)
    .start
  exact ⟨hname, Store.intact_bare false, hthere, hstart, m₃, v, fns, h, hentry, hpayload, hmerges⟩

end Histories

end Table

end TreeScript
