import TreeScript.Proofs.Discipline.Runner
import TreeScript.Proofs.Drafts
import TreeScript.Proofs.ValueEquality

/-!
# Stores that programs reach

A store is reached if it comes from the store that every program starts from by
the primitive operations, each with frames and objects that exist. Every state
that a program passes through has such a store, since evaluation does nothing to
the store but these operations. So what the operations keep holds of all states.
-/

namespace TreeScript

namespace Store

inductive Reached : Store → Prop
  | start (tracing : Bool) : Reached (Machine.bare tracing).store
  | enter {s : Store} (f : FrameId) (hs : Reached s) :
    Reached { s with scope := s.scope.enter f }
  | newFrame {s : Store} {parent : FrameId} (name : String) (hs : Reached s)
    (hparent : s.Has (.frame parent)) :
    Reached { s with scope := (s.scope.newFrame name (some parent)).2 }
  | bind {s : Store} {f : FrameId} {v : Ref} (name : String) (hs : Reached s)
    (hf : s.Has (.frame f)) (hv : s.Has (.object v)) :
    Reached { s with scope := s.scope.defineIn f name v }
  | add {s : Store} {o : Object} (hs : Reached s) (ho : ∀ p ∈ o.places, s.Has p) :
    Reached { s with heap := (s.heap.add o).2 }
  | setField {s : Store} {r v : Ref} (name : String) (hs : Reached s) (hr : s.Has (.object r))
    (hv : s.Has (.object v)) : Reached { s with heap := s.heap.setField r name v }
  | writeClass {s : Store} {c v : Ref} (table : ClassTable) (name : String) (hs : Reached s)
    (hc : s.Has (.object c)) (hv : s.Has (.object v)) :
    Reached { s with heap := s.heap.updateClass c (·.write table name v) }

namespace Reached

variable {s : Store}

/-- What a reached store refers to exists. -/
theorem closed (hs : s.Reached) : s.Closed s.Has := by
  induction hs with
  | start tracing => exact (intact_bare tracing).closed
  | enter f hs ih => exact ih
  | @newFrame s parent name hs hparent ih =>
    refine ih.grow (s.grows_scope (s.scope.grows_newFrame name _)) fun p q hq => ?_
    rcases s.mem_places_newFrame hq with hq | rfl
    · exact .inl hq
    · exact .inr hparent
  | @bind s f v name hs hf hv ih =>
    refine ih.grow (s.grows_scope (s.scope.grows_defineIn f name v)) fun p q hq => ?_
    rcases s.mem_places_defineIn hq with hq | rfl
    · exact .inl hq
    · exact .inr hv
  | @add s o hs ho ih =>
    exact ih.grow (s.grows_heap (by simp)) fun p q hq => (s.mem_places_add hq).imp_right (ho q)
  | @setField s r v name hs hr hv ih =>
    refine ih.grow (s.grows_heap (by simp)) fun p q hq => ?_
    rcases s.mem_places_setField hq with hq | rfl
    · exact .inl hq
    · exact .inr hv
  | @writeClass s c v table name hs hc hv ih =>
    refine ih.grow (s.grows_heap (by simp)) fun p q hq => ?_
    rcases s.mem_places_writeClass hq with hq | rfl
    · exact .inl hq
    · exact .inr hv

/-- The values that all programs share are there. -/
theorem shared_le (hs : s.Reached) : Heap.initial.objects.size ≤ s.heap.objects.size := by
  induction hs with
  | start tracing => exact Nat.le_refl _
  | enter f hs ih => exact ih
  | newFrame name hs hparent ih => exact ih
  | bind name hs hf hv ih => exact ih
  | add hs ho ih => exact Nat.le_trans ih (by simp)
  | setField name hs hr hv ih => exact Nat.le_trans ih (by simp)
  | writeClass table name hs hc hv ih => exact Nat.le_trans ih (by simp)

theorem intact (hs : s.Reached) : s.Intact := ⟨hs.closed, hs.shared_le⟩

/-- A value that is no class holds values that were there before it; only its fields may come to
hold younger ones. -/
theorem lt_of_mem_payload (hs : s.Reached) {r q : Ref} (hr : s.heap.class? r = none)
    (hq : .object q ∈ (s.heap.payload r).places) : q < r := by
  induction hs with
  | start tracing =>
    have hinitial : ∀ r < Heap.initial.objects.size, Heap.initial.class? r = none →
        (Heap.initial.payload r).places = [] := by decide
    by_cases hsize : r < Heap.initial.objects.size
    · replace hq : .object q ∈ (Heap.initial.payload r).places := hq
      rw [hinitial r hsize hr] at hq
      cases hq
    · have hpayload : (Machine.bare tracing).store.heap.payload r = .null := by
        simp [Machine.store, Machine.bare, Heap.payload, Heap.object, Array.getD, hsize]
      rw [hpayload] at hq
      cases hq
  | enter f hs ih => exact ih hr hq
  | newFrame name hs hparent ih => exact ih hr hq
  | bind name hs hf hv ih => exact ih hr hq
  | @add s o hs ho ih =>
    by_cases hnew : r = s.heap.objects.size
    · -- a new object holds only what was there before it
      subst hnew
      rw [Heap.payload_add_self] at hq
      exact ho (.object q) (List.mem_append_left _ hq)
    · rw [Heap.class?, s.heap.payload_add_of_ne o hnew] at hr
      rw [s.heap.payload_add_of_ne o hnew] at hq
      exact ih hr hq
  | @setField s t v name hs ht hv ih =>
    rw [Heap.class?, Heap.payload_setField] at hr
    rw [Heap.payload_setField] at hq
    exact ih hr hq
  | @writeClass s c v table name hs hc hv ih =>
    rcases s.heap.payload_updateClass_cases c r (·.write table name v) with hsame | ⟨info, _, hclass⟩
    · rw [Heap.class?, hsame] at hr
      rw [hsame] at hq
      exact ih hr hq
    · rw [Heap.class?, hclass] at hr
      cases hr

/-- A list is made of values that are there already. -/
theorem listsOrdered (hs : s.Reached) : s.heap.ListsOrdered := by
  intro r items hr i hi
  apply hs.lt_of_mem_payload
  · rw [Heap.class?, hr]
  · rw [hr]
    exact List.mem_map_of_mem hi

end Reached

end Store

open Store

/-- A program holds and changes what exists, and keeps to the primitive operations. -/
def Discipline.reached : Discipline.Uniform where
  Inv := Store.Reached
  Holds s p := s.Has p
  Active s f := s.Has (.frame f)
  Draft s c := s.Has (.object c)
  holds_mono h hp := hp.of_grows h
  active_mono h hf := has_frame_of_grows h hf
  draft_mono h hc := Has.of_grows h hc
  closed h := h.closed
  holds_globals {s} _ := s.scope.globals_lt
  holds_shared h hr := Nat.lt_of_lt_of_le hr h.shared_le
  holds_active _ hf := hf
  holds_draft _ hc := hc
  enter f h := h.enter f
  newFrame name h hparent := ⟨h.newFrame name hparent, by simp [Store.Has]⟩
  bind h hf hv := h.bind _ (hf.elim id And.left) hv
  add h _ ho := ⟨h.add ho, by simp [Store.Has]⟩
  draft h _ := by simp [Store.Has, Heap.alloc]
  setField name h hr hv := h.setField name hr hv
  writeClass table name h hc hv := h.writeClass table name hc hv

namespace Machine

/-- A machine in which programs can go on: its store is reached, and the head exists. -/
def Reached (m : Machine) : Prop := Discipline.reached.Ready m.store

end Machine

namespace Run

open Discipline

/-- However an evaluation or call ends, its end is a reached machine again. -/
theorem reached_evaluate (limits : Limits) {m : Machine} (hm : m.Reached) (e : Expr) :
    (evaluate limits e m).Ends (fun v m' => m'.Reached ∧ m'.store.Has (.object v))
      (fun _ m' => m'.Reached) :=
  ((respects_evaluate limits).run e m hm).imp (fun _ _ h => ⟨h.1.ready hm, h.2⟩)
    fun _ _ h => h.ready hm id

theorem reached_call (limits : Limits) {m : Machine} (hm : m.Reached) {callee : Ref}
    {args : List Ref} (site : Option (Option Loc)) (hcallee : m.store.Has (.object callee))
    (hargs : ∀ v ∈ args, m.store.Has (.object v)) :
    (call (evaluate limits) callee args site m).Ends
      (fun v m' => m'.Reached ∧ m'.store.Has (.object v)) (fun _ m' => m'.Reached) :=
  (respects_call (respects_evaluate limits) site hm.inv hcallee hargs).imp
    (fun _ _ h => ⟨h.1.ready hm, h.2⟩) fun _ _ h => h.ready hm id

end Run

namespace Runner

open Discipline

theorem reached_new (library tracing : Bool) : (new library tracing).machine.Reached :=
  ready_new library tracing ⟨.start tracing, Nat.one_pos⟩

/-- Programs, one after the other, run from reached machines to reached machines. -/
theorem reached_run {r : Runner} (hr : r.machine.Reached) (program : List Expr) :
    (r.run program).2.machine.Reached :=
  ready_run respects_evaluate id hr program

theorem reached_runDocument {r : Runner} (hr : r.machine.Reached) (text : String)
    (format : Option String) : (r.runDocument text format).2.machine.Reached :=
  ready_runDocument respects_evaluate id hr text format

end Runner

end TreeScript
