import TreeScript.Proofs.Discipline.Evaluation

/-!
# Evaluation is confined to its reach

A program holds what it reaches from the head of the active chain, from the
global frame and from the shared values, and what it makes itself. Everything
else is out of its hands: it stays as it is, and nothing the program makes,
binds or writes refers to it. So what is old and within reach afterwards was
within reach before.
-/

namespace TreeScript

namespace Store

/-- What lies within reach of the roots of the store. -/
def Reachable (s : Store) : Place → Prop := s.Reaches s.Root

/-- What a program started in the store may come to hold: what is within its reach, and whatever
is made later. -/
def Allows (s : Store) (p : Place) : Prop := s.Reachable p ∨ ¬ s.Has p

/-- What does not exist yet refers to nothing. -/
theorem closed_allows (s : Store) : s.Closed s.Allows := by
  intro p q hp hq
  rcases hp with hp | hp
  · exact .inl (s.closed_reaches s.Root p q hp hq)
  · rw [s.places_eq_nil_of_not_has hp] at hq
    cases hq

/-- The store has become another without anything out of reach being touched or referred to. -/
structure Spares (s t : Store) : Prop where
  grows : s.Grows t
  closed : t.Closed s.Allows
  frame : ∀ f, ¬ s.Allows (.frame f) → t.scope.frame f = s.scope.frame f
  object : ∀ r, ¬ s.Allows (.object r) → t.heap.object r = s.heap.object r

/-- What is out of reach is the same afterwards, and what is old and within reach afterwards, also
from a value, was within reach before. -/
structure Confined (s t : Store) (value : Option Ref) : Prop where
  frame : ∀ f, s.Has (.frame f) → ¬ s.Reachable (.frame f) → t.scope.frame f = s.scope.frame f
  object : ∀ r, s.Has (.object r) → ¬ s.Reachable (.object r) → t.heap.object r = s.heap.object r
  reachable : ∀ p, s.Has p → t.Reaches (fun q => t.Root q ∨ ∃ v ∈ value, q = .object v) p →
    s.Reachable p

namespace Spares

variable {s t : Store}

theorem refl (s : Store) : s.Spares s :=
  ⟨.refl s, s.closed_allows, fun _ _ => rfl, fun _ _ => rfl⟩

/-- The head is the one root that could change. -/
theorem root (h : s.Spares t) (hhead : s.Allows (.frame t.scope.head)) {p : Place}
    (hp : t.Root p) : s.Allows p := by
  cases hp with
  | head => exact hhead
  | globals =>
    rw [h.grows.scope.globals]
    exact .inl (.root .globals)
  | shared hr => exact .inl (.root (.shared hr))

theorem confined (h : s.Spares t) (hhead : s.Allows (.frame t.scope.head)) {value : Option Ref}
    (hvalue : ∀ v ∈ value, s.Allows (.object v)) : s.Confined t value where
  frame f hhas hreach := h.frame f fun hf => hf.elim hreach fun hnew => hnew hhas
  object r hhas hreach := h.object r fun hr => hr.elim hreach fun hnew => hnew hhas
  reachable p hhas hp := by
    have hroots : ∀ q, (t.Root q ∨ ∃ v ∈ value, q = .object v) → s.Allows q := by
      rintro q (hq | ⟨v, hv, rfl⟩)
      · exact h.root hhead hq
      · exact hvalue v hv
    exact (h.closed.of_reaches hroots hp).resolve_right fun hnew => hnew hhas

/-- A change that brings in nothing but what is allowed, and touches only what is allowed. -/
theorem change (h : s.Spares t) {u : Store} (hgrows : t.Grows u)
    (hplaces : ∀ p q, q ∈ u.places p → q ∈ t.places p ∨ s.Allows q)
    (hframe : ∀ f, ¬ s.Allows (.frame f) → u.scope.frame f = t.scope.frame f)
    (hobject : ∀ r, ¬ s.Allows (.object r) → u.heap.object r = t.heap.object r) :
    s.Spares u where
  grows := h.grows.trans hgrows
  closed p q hp hq := (hplaces p q hq).elim (h.closed p q hp) id
  frame f hf := (hframe f hf).trans (h.frame f hf)
  object r hr := (hobject r hr).trans (h.object r hr)

theorem new_frame (h : s.Spares t) : s.Allows (.frame t.scope.frames.size) :=
  .inr (Nat.not_lt_of_ge h.grows.scope.size)

theorem new_object (h : s.Spares t) : s.Allows (.object t.heap.objects.size) :=
  .inr (Nat.not_lt_of_ge h.grows.objects)

theorem enter (h : s.Spares t) (f : FrameId) : s.Spares { t with scope := t.scope.enter f } :=
  h.change (t.grows_scope (t.scope.grows_enter f)) (fun _ _ hq => .inl hq) (fun _ _ => rfl)
    fun _ _ => rfl

theorem newFrame (h : s.Spares t) (name : String) {parent : FrameId}
    (hparent : s.Allows (.frame parent)) :
    s.Spares { t with scope := (t.scope.newFrame name (some parent)).2 } := by
  refine h.change (t.grows_scope (t.scope.grows_newFrame name _)) ?_ ?_ fun _ _ => rfl
  · intro p q hq
    rcases t.mem_places_newFrame hq with hq | rfl
    · exact .inl hq
    · exact .inr hparent
  · intro f hf
    exact t.scope.frame_newFrame_of_ne name _ fun hnew => hf (hnew ▸ h.new_frame)

theorem defineIn (h : s.Spares t) {f : FrameId} {name : String} {v : Ref}
    (hf : s.Allows (.frame f)) (hv : s.Allows (.object v)) :
    s.Spares { t with scope := t.scope.defineIn f name v } := by
  refine h.change (t.grows_scope (t.scope.grows_defineIn f name v)) ?_ ?_ fun _ _ => rfl
  · intro p q hq
    rcases t.mem_places_defineIn hq with hq | rfl
    · exact .inl hq
    · exact .inr hv
  · intro g hg
    exact t.scope.frame_defineIn_of_ne name v fun hfg => hg (hfg ▸ hf)

theorem add (h : s.Spares t) {o : Object} (ho : ∀ p ∈ o.places, s.Allows p) :
    s.Spares { t with heap := (t.heap.add o).2 } := by
  refine h.change (t.grows_heap (by simp)) ?_ (fun _ _ => rfl) ?_
  · intro p q hq
    exact (t.mem_places_add hq).imp_right (ho q)
  · intro r hr
    exact t.heap.object_add_of_ne o fun hnew => hr (hnew ▸ h.new_object)

theorem setField (h : s.Spares t) {r v : Ref} (name : String) (hr : s.Allows (.object r))
    (hv : s.Allows (.object v)) : s.Spares { t with heap := t.heap.setField r name v } := by
  refine h.change (t.grows_heap (by simp)) ?_ (fun _ _ => rfl) ?_
  · intro p q hq
    rcases t.mem_places_setField hq with hq | rfl
    · exact .inl hq
    · exact .inr hv
  · intro u hu
    exact t.heap.object_setField_of_ne name v fun hru => hu (hru ▸ hr)

theorem writeClass (h : s.Spares t) {c v : Ref} (table : ClassTable) (name : String)
    (hc : s.Allows (.object c)) (hv : s.Allows (.object v)) :
    s.Spares { t with heap := t.heap.updateClass c (·.write table name v) } := by
  refine h.change (t.grows_heap (by simp)) ?_ (fun _ _ => rfl) ?_
  · intro p q hq
    rcases t.mem_places_writeClass hq with hq | rfl
    · exact .inl hq
    · exact .inr hv
  · intro u hu
    exact t.heap.object_updateClass_of_ne _ fun hcu => hu (hcu ▸ hc)

end Spares

end Store

open Store Discipline

/-- A program started in a given store holds what the store allows, binds names and defines
classes there alone, and spares the rest. -/
def Discipline.confinement (s₀ : Store) : Discipline.Uniform where
  Inv := s₀.Spares
  Holds _ p := s₀.Allows p
  Active _ f := s₀.Allows (.frame f)
  Draft _ c := s₀.Allows (.object c)
  holds_mono _ hp := hp
  active_mono _ hf := hf
  draft_mono _ hc := hc
  closed h := h.closed
  holds_globals h := by
    rw [h.grows.scope.globals]
    exact .inl (.root .globals)
  holds_shared _ hr := .inl (.root (.shared hr))
  holds_active _ hf := hf
  holds_draft _ hc := hc
  enter f h := h.enter f
  newFrame name h hparent := ⟨h.newFrame name hparent, h.new_frame⟩
  bind h hf hv := h.defineIn (hf.elim id And.left) hv
  add h _ ho := ⟨h.add ho, h.new_object⟩
  draft h _ := h.new_object
  setField name h hr hv := h.setField name hr hv
  writeClass table name h hc hv := h.writeClass table name hc hv

namespace Run

theorem confined_of_respects {m : Machine} {o : Outcome Ref}
    (h : (confinement m.store).Respects m.store o (confinement m.store).HoldsValue) :
    o.Ends (fun v m' => m.store.Confined m'.store (some v))
      (fun _ m' => m.store.Confined m'.store none) := by
  have hhead : m.store.Allows (.frame m.scope.head) := .inl (.root .head)
  refine h.imp ?_ ?_
  · intro v m' h
    refine h.1.inv.confined (h.1.head ▸ hhead) ?_
    intro w hw
    exact Option.mem_some.mp hw ▸ h.2
  · intro e m' h
    exact h.inv.confined (h.holds_head hhead) fun _ hw => nomatch hw

/-- However the evaluation of an expression ends, or that of a pattern, each old frame and object
that was out of reach is the same afterwards, and each that is within reach afterwards, also from
the value, was within reach before. -/
theorem confined_evaluate (limits : Limits) (m : Machine) :
    (∀ e, (evaluate limits e m).Ends (fun v m' => m.store.Confined m'.store (some v))
      (fun _ m' => m.store.Confined m'.store none)) ∧
    (∀ p, (evaluatePattern p m).Ends (fun v m' => m.store.Confined m'.store (some v))
      (fun _ m' => m.store.Confined m'.store none)) := by
  have hinv : (confinement m.store).Inv m.store := Spares.refl m.store
  have hhead : (confinement m.store).Active m.store m.scope.head := .inl (.root .head)
  constructor
  · intro e
    exact confined_of_respects ((respects_evaluate limits).run e m ⟨hinv, hhead⟩)
  · intro p
    exact confined_of_respects (respects_evaluatePattern p hinv)

end Run

end TreeScript
