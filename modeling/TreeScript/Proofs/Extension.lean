import TreeScript.Proofs.CallList
import TreeScript.Proofs.Reached

/-!
# Stores that have only gained

A store extends another if the frames and objects of that one are all in it, as they were. Whatever
is read off what was there is the same in both: what a value is and equals, which classes it
descends from, and what a name means to code below a frame. So computations that only make new
frames and values do not disturb each other.
-/

namespace TreeScript

/-! ## Scopes -/

namespace Scope

variable {α : Type} {s t u : Scope α}

@[simp] theorem chain_enter (s : Scope α) (g f : FrameId) : (s.enter g).chain f = s.chain f := by
  induction f using Nat.strongRecOn with
  | ind f ih =>
    rw [chain_eq, chain_eq s, show (s.enter g).parent? f = s.parent? f from rfl]
    cases s.parent? f with
    | none => rfl
    | some p => simp [ih p.1 p.2]

/-- A name is what the nearest frame of the active chain binds it to, or else the global frame. -/
theorem lookup?_eq (s : Scope α) (name : String) :
    s.lookup? name = (((s.chain s.head).map s.frame).findSome? (·.bindings.get? name)).or
      ((s.frame s.globals).bindings.get? name) := by
  unfold lookup? owner? ownerFrom
  induction s.chain s.head with
  | nil =>
    cases h : (s.frame s.globals).bindings.get? name <;> simp [bindsIn, Bindings.contains, h]
  | cons f rest ih =>
    rw [List.find?_cons, List.map_cons, List.findSome?_cons]
    cases h : (s.frame f).bindings.get? name with
    | none => simpa [bindsIn, Bindings.contains, h] using ih
    | some v => simp [bindsIn, Bindings.contains, h]

theorem lookup?_enter (s : Scope α) (f : FrameId) (name : String) :
    (s.enter f).lookup? name = (((s.chain f).map s.frame).findSome? (·.bindings.get? name)).or
      ((s.frame s.globals).bindings.get? name) := by
  rw [← s.chain_enter f f]
  exact (s.enter f).lookup?_eq name

/-- A frame sees what it binds, and else what its parent sees. -/
theorem lookup?_of_parent {f p : FrameId} (hparent : (s.frame f).parent = some p) (hp : p < f)
    (name : String) :
    (s.enter f).lookup? name =
      ((s.frame f).bindings.get? name).or ((s.enter p).lookup? name) := by
  have hchain : s.chain f = f :: s.chain p := by
    rw [chain_eq, parent?, hparent]
    simp [hp]
  rw [lookup?_enter, lookup?_enter, hchain, List.map_cons, List.findSome?_cons]
  cases (s.frame f).bindings.get? name <;> rfl

/-- The frames that were there are as they were; the head may be anywhere. -/
structure ExtendedBy (s t : Scope α) : Prop where
  size : s.frames.size ≤ t.frames.size
  globals : t.globals = s.globals
  frame : ∀ f < s.frames.size, t.frame f = s.frame f

namespace ExtendedBy

theorem refl (s : Scope α) : s.ExtendedBy s := ⟨Nat.le_refl _, rfl, fun _ _ => rfl⟩

theorem trans (hst : s.ExtendedBy t) (htu : t.ExtendedBy u) : s.ExtendedBy u where
  size := Nat.le_trans hst.size htu.size
  globals := htu.globals.trans hst.globals
  frame f hf := (htu.frame f (Nat.lt_of_lt_of_le hf hst.size)).trans (hst.frame f hf)

theorem enter (h : s.ExtendedBy t) (f : FrameId) : s.ExtendedBy (t.enter f) :=
  ⟨h.size, h.globals, h.frame⟩

theorem newFrame (h : s.ExtendedBy t) (name : String) (parent : Option FrameId) :
    s.ExtendedBy (t.newFrame name parent).2 where
  size := Nat.le_trans h.size (by simp)
  globals := h.globals
  frame f hf :=
    (t.frame_newFrame_of_lt name parent (Nat.lt_of_lt_of_le hf h.size)).trans (h.frame f hf)

/-- Frames that were not there at first may still come to bind names. -/
theorem defineIn (h : s.ExtendedBy t) {f : FrameId} (hf : s.frames.size ≤ f) (name : String)
    (v : α) : s.ExtendedBy (t.defineIn f name v) where
  size := by simpa using h.size
  globals := h.globals
  frame g hg :=
    (t.frame_defineIn_of_ne name v (Nat.ne_of_gt (Nat.lt_of_lt_of_le hg hf))).trans (h.frame g hg)

variable (h : s.ExtendedBy t) {f : FrameId} (hf : f < s.frames.size)

include h hf

theorem chain : t.chain f = s.chain f := by
  induction f using Nat.strongRecOn with
  | ind f ih =>
    rw [chain_eq, chain_eq s, parent?, parent?, h.frame f hf]
    cases hp : (s.frame f).parent with
    | none => rfl
    | some p =>
      by_cases hpf : p < f
      · simp [hpf, ih p hpf (Nat.lt_trans hpf hf)]
      · simp [hpf]

/-- A name means the same to code below a frame that was there. -/
theorem lookup? (name : String) : (t.enter f).lookup? name = (s.enter f).lookup? name := by
  have hframes : (t.chain f).map t.frame = (s.chain f).map s.frame := by
    rw [h.chain hf]
    refine List.map_congr_left fun g hg => h.frame g ?_
    exact Nat.lt_of_le_of_lt (s.le_of_mem_chain hg) hf
  rw [lookup?_enter, lookup?_enter, hframes, h.globals, h.frame _ s.globals_lt]

end ExtendedBy

end Scope

/-! ## Heaps -/

namespace Heap

variable {h k l : Heap}

/-- The objects that were there are as they were, down to their fields. -/
structure ExtendedBy (h k : Heap) : Prop where
  size : h.objects.size ≤ k.objects.size
  object : ∀ r < h.objects.size, k.object r = h.object r

namespace ExtendedBy

theorem refl (h : Heap) : h.ExtendedBy h := ⟨Nat.le_refl _, fun _ _ => rfl⟩

theorem trans (hk : h.ExtendedBy k) (hl : k.ExtendedBy l) : h.ExtendedBy l where
  size := Nat.le_trans hk.size hl.size
  object r hr := (hl.object r (Nat.lt_of_lt_of_le hr hk.size)).trans (hk.object r hr)

theorem add (hk : h.ExtendedBy k) (o : Object) : h.ExtendedBy (k.add o).2 where
  size := Nat.le_trans hk.size (by simp)
  object r hr := (k.object_add_of_lt o (Nat.lt_of_lt_of_le hr hk.size)).trans (hk.object r hr)

variable (hk : h.ExtendedBy k) {r : Ref} (hr : r < h.objects.size)

include hk hr

theorem payload : k.payload r = h.payload r := congrArg Object.payload (hk.object r hr)

theorem class? : k.class? r = h.class? r := by
  rw [Heap.class?, Heap.class?, hk.payload hr]

theorem classOf : k.classOf r = h.classOf r := by
  rw [Heap.classOf, Heap.classOf, hk.payload hr]

theorem isSubclass (c : Ref) : k.isSubclass r c = h.isSubclass r c := by
  have hancestry : k.ancestry r = h.ancestry r :=
    ancestry_congr fun d hd => hk.class? (Nat.lt_of_le_of_lt (h.le_of_mem_ancestry hd) hr)
  rw [Heap.isSubclass, Heap.isSubclass, hancestry]

end ExtendedBy

end Heap

/-! ## Stores -/

namespace Store

variable {s t u : Store}

/-- Null and the truth values are what they are in every program, lists are made of what was there
before them, and nothing refers to what is not there. -/
structure WellFormed (s : Store) : Prop extends s.Intact where
  lists : s.heap.ListsOrdered
  null : s.heap.payload Heap.nullRef = .null
  truth : ∀ b, s.heap.payload (Heap.ofBool b) = .boolean b

theorem Reached.payload_of_shared (hs : s.Reached) {r : Ref} (hr : Heap.IsShared r)
    (hclass : Heap.initial.class? r = none) : s.heap.payload r = Heap.initial.payload r := by
  induction hs with
  | start tracing => rfl
  | enter f hs ih => exact ih
  | newFrame name hs hparent ih => exact ih
  | bind name hs hf hv ih => exact ih
  | @add s o hs ho ih =>
    exact (s.heap.payload_add_of_lt o (Nat.lt_of_lt_of_le hr hs.shared_le)).trans ih
  | @setField s t v name hs ht hv ih => exact (s.heap.payload_setField t r name v).trans ih
  | @writeClass s c v table name hs hc hv ih =>
    rcases s.heap.payload_updateClass_cases c r (·.write table name v) with hsame | ⟨info, hinfo, -⟩
    · exact hsame.trans ih
    · -- a class it was never
      rw [ih] at hinfo
      rw [Heap.class?, hinfo] at hclass
      cases hclass

theorem Reached.wellFormed (hs : s.Reached) : s.WellFormed where
  toIntact := hs.intact
  lists := hs.listsOrdered
  null := hs.payload_of_shared Heap.isShared_nullRef rfl
  truth b := by
    rw [hs.payload_of_shared (Heap.isShared_ofBool b) (by cases b <;> rfl)]
    cases b <;> rfl

theorem WellFormed.has_item (hs : s.WellFormed) {r i : Ref} {items : List Ref}
    (hr : s.Has (.object r)) (hitems : s.heap.payload r = .list items) (hi : i ∈ items) :
    s.Has (.object i) := by
  apply hs.closed.payload hr
  rw [hitems]
  exact List.mem_map_of_mem hi

/-- All that was there is as it was, and there may be more. -/
structure ExtendedBy (s t : Store) : Prop where
  heap : s.heap.ExtendedBy t.heap
  scope : s.scope.ExtendedBy t.scope

namespace ExtendedBy

theorem refl (s : Store) : s.ExtendedBy s := ⟨.refl _, .refl _⟩

theorem trans (hst : s.ExtendedBy t) (htu : t.ExtendedBy u) : s.ExtendedBy u :=
  ⟨hst.heap.trans htu.heap, hst.scope.trans htu.scope⟩

variable (h : s.ExtendedBy t)

include h

theorem has {p : Place} (hp : s.Has p) : t.Has p := by
  cases p with
  | frame f => exact Nat.lt_of_lt_of_le hp h.scope.size
  | object r => exact Nat.lt_of_lt_of_le hp h.heap.size

variable (hs : s.WellFormed)

include hs

theorem null : t.heap.payload Heap.nullRef = .null :=
  (h.heap.payload (Nat.lt_of_lt_of_le Heap.isShared_nullRef hs.shared)).trans hs.null

theorem truth (b : Bool) : t.heap.payload (Heap.ofBool b) = .boolean b :=
  (h.heap.payload (Nat.lt_of_lt_of_le (Heap.isShared_ofBool b) hs.shared)).trans (hs.truth b)

theorem same {a b : Ref} (ha : s.Has (.object a)) (hb : s.Has (.object b)) :
    t.heap.same a b = s.heap.same a b := by
  induction a using Nat.strongRecOn generalizing b with
  | ind a ih =>
    rw [Heap.same, Heap.same, h.heap.payload ha, h.heap.payload hb]
    cases hpa : s.heap.payload a with
    | list as =>
      cases hpb : s.heap.payload b with
      | list bs =>
        rw [Bool.eq_iff_iff]
        simp only [Bool.and_eq_true, List.all_eq_true]
        refine and_congr_right fun _ => forall₂_congr fun p hp => ?_
        obtain ⟨hi, hj⟩ := List.of_mem_zip hp
        by_cases hlt : p.1 < a
        · simp only [dif_pos hlt, ih p.1 hlt (hs.has_item ha hpa hi) (hs.has_item hb hpb hj)]
        · simp only [dif_neg hlt]
      | _ => rfl
    | _ => cases s.heap.payload b <;> rfl

/-- What was there is nested as deep as before. -/
theorem reach {r : Ref} (hr : s.Has (.object r)) : t.heap.reach r = s.heap.reach r := by
  induction r using Nat.strongRecOn with
  | ind r ih =>
    have hcode : t.heap.codeDepth r = s.heap.codeDepth r := by
      rw [Heap.codeDepth, Heap.codeDepth, h.heap.payload hr]
    rw [Heap.reach, Heap.reach, h.heap.payload hr]
    cases hp : s.heap.payload r with
    | list items =>
      have hitems : (items.map fun i => if _h : i < r then t.heap.reach i else 0) =
          items.map fun i => if _h : i < r then s.heap.reach i else 0 := by
        refine List.map_congr_left fun i hi => ?_
        by_cases hir : i < r
        · rw [dif_pos hir, dif_pos hir, ih i hir (hs.has_item hr hp hi)]
        · rw [dif_neg hir, dif_neg hir]
      dsimp only
      rw [hitems]
    | _ => exact hcode

/-- The lists that were there are still younger than their items. -/
theorem ordered {r : Ref} (hr : s.Has (.object r)) : t.heap.Ordered r := by
  induction r using Nat.strongRecOn with
  | ind r ih =>
    refine .intro (fun items hitems i hi => ?_) fun items hitems i hi => ?_
    · exact hs.lists r items ((h.heap.payload hr).symm.trans hitems) i hi
    · have hold := (h.heap.payload hr).symm.trans hitems
      exact ih i (hs.lists r items hold i hi) (hs.has_item hr hold hi)

theorem isSubclass_classOf {v : Ref} (hv : s.Has (.object v)) (c : Ref) :
    t.heap.isSubclass (t.heap.classOf v) c = s.heap.isSubclass (s.heap.classOf v) c := by
  have hshared (r : Ref) (hr : Heap.IsShared r) : s.Has (.object r) :=
    Nat.lt_of_lt_of_le hr hs.shared
  rw [h.heap.classOf hv, h.heap.isSubclass (hs.closed.classOf hshared hv)]

theorem frameName {fn : Function} (hfn : ∀ p ∈ fn.places, s.Has p) :
    fn.frameName t.heap = fn.frameName s.heap := by
  unfold Function.frameName
  cases hself : fn.self with
  | none => rfl
  | some self =>
    have hhas : s.Has (.object self) := hfn _ (by simp [Function.places, hself])
    have hshared (r : Ref) (hr : Heap.IsShared r) : s.Has (.object r) :=
      Nat.lt_of_lt_of_le hr hs.shared
    dsimp only
    rw [Heap.className, Heap.className, h.heap.classOf hhas,
      h.heap.class? (hs.closed.classOf hshared hhas)]

end ExtendedBy

end Store

/-! ## Machines -/

namespace Machine

variable {m m₁ m₂ : Machine}

/-- New frames and values are all that is different; the head may be elsewhere, and calls that an
earlier fault has left may be forgotten. -/
structure ExtendedBy (m m' : Machine) : Prop where
  store : m.store.ExtendedBy m'.store
  effects : m'.effects = m.effects
  active : m'.active = m.active
  tracing : m'.tracing = m.tracing
  traced : m'.traced = m.traced
  calls : m'.calls = m.calls ∨ m'.calls = m.callsOnEntry

namespace ExtendedBy

theorem refl (m : Machine) : m.ExtendedBy m := ⟨.refl _, rfl, rfl, rfl, rfl, .inl rfl⟩

theorem trans (h₁ : m.ExtendedBy m₁) (h₂ : m₁.ExtendedBy m₂) : m.ExtendedBy m₂ where
  store := h₁.store.trans h₂.store
  effects := h₂.effects.trans h₁.effects
  active := h₂.active.trans h₁.active
  tracing := h₂.tracing.trans h₁.tracing
  traced := h₂.traced.trans h₁.traced
  calls := by
    rcases h₂.calls with hcalls | hcalls
    · rw [hcalls]
      exact h₁.calls
    · rw [hcalls, callsOnEntry, callsOnEntry, h₁.active]
      split
      · exact .inr rfl
      · next hactive => simpa only [callsOnEntry, if_neg hactive] using h₁.calls

theorem payload (h : m.ExtendedBy m₁) {r : Ref} (hr : m.store.Has (.object r)) :
    m₁.heap.payload r = m.heap.payload r :=
  h.store.heap.payload hr

theorem alloc (m : Machine) (p : Payload) :
    m.ExtendedBy { m with heap := (m.heap.alloc p).2 } :=
  ⟨⟨(Heap.ExtendedBy.refl m.heap).add _, .refl _⟩, rfl, rfl, rfl, rfl, .inl rfl⟩

/-- A change of the scope that leaves its frames as they were. -/
theorem withScope (h : m.ExtendedBy m₁) {scope : Scope Ref}
    (hscope : m.scope.ExtendedBy scope) : m.ExtendedBy { m₁ with scope } :=
  ⟨⟨h.store.heap, hscope⟩, h.effects, h.active, h.tracing, h.traced, h.calls⟩

end ExtendedBy

/-- New frames and values are all that is different, and the active chain is the same. -/
structure Undisturbed (m m' : Machine) : Prop extends m.ExtendedBy m' where
  head : m'.scope.head = m.scope.head

theorem Undisturbed.refl (m : Machine) : m.Undisturbed m := ⟨.refl m, rfl⟩

end Machine

end TreeScript
