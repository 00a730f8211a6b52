import TreeScript.Proofs.Discipline.Runner
import TreeScript.Proofs.Drafts

/-!
# Stores that arise

A store arises if it comes from the store that every program starts from by the
primitive operations as programs use them: objects are added that programs make,
with values that are free; a class is under definition from when it is made until
its body has ended, and only then do its tables take entries. Every state that a
program passes through has such a store, also while classes are under definition
inside each other. So what the operations keep holds of all states.
-/

namespace TreeScript

namespace Store

/-- The stores that arise, each with the classes that are under definition, innermost first. -/
inductive Arises : List Ref → Store → Prop
  | start (tracing : Bool) : Arises [] (Machine.bare tracing).store
  | enter {cs : List Ref} {s : Store} (f : FrameId) (hs : Arises cs s) :
    Arises cs { s with scope := s.scope.enter f }
  | newFrame {cs : List Ref} {s : Store} {parent : FrameId} (name : String) (hs : Arises cs s)
    (hparent : s.Has (.frame parent)) :
    Arises cs { s with scope := (s.scope.newFrame name (some parent)).2 }
  | bind {cs : List Ref} {s : Store} {f : FrameId} {v : Ref} (name : String) (hs : Arises cs s)
    (hf : s.Has (.frame f)) (hv : s.Free cs (.object v)) :
    Arises cs { s with scope := s.scope.defineIn f name v }
  | add {cs : List Ref} {s : Store} {o : Object} (hs : Arises cs s) (hmade : s.heap.Produces o)
    (ho : ∀ p ∈ o.places, s.Free cs p) : Arises cs { s with heap := (s.heap.add o).2 }
  | setField {cs : List Ref} {s : Store} {r v : Ref} (name : String) (hs : Arises cs s)
    (hr : s.Free cs (.object r)) (hv : s.Free cs (.object v)) :
    Arises cs { s with heap := s.heap.setField r name v }
  | begin {cs : List Ref} {s : Store} {parent : Ref} (name : String) (hs : Arises cs s)
    (hparent : s.Free cs (.object parent)) (hsuper : s.heap.IsSuperclass parent) :
    Arises (s.heap.objects.size :: cs)
      { s with heap := (s.heap.alloc (.classObject { name, superclass := some parent })).2 }
  | write {cs : List Ref} {s : Store} {c v : Ref} {table : ClassTable} {name : String}
    (hs : Arises (c :: cs) s) (hentry : s.heap.ClassEntry c table name v)
    (hv : s.Free (c :: cs) (.object v)) :
    Arises (c :: cs) { s with heap := s.heap.updateClass c (·.write table name v) }
  | finish {cs : List Ref} {s : Store} {c : Ref} (hs : Arises (c :: cs) s) : Arises cs s

namespace Arises

variable {cs : List Ref} {s : Store}

theorem defines (hs : s.Arises cs) : s.Defines cs := by
  induction hs with
  | start tracing => exact (intact_bare tracing).defines_nil
  | enter f hs ih => exact ih.enter f
  | newFrame name hs hparent ih => exact ih.newFrame name (free_frame hparent)
  | @bind cs s f v name hs hf hv ih => exact ih.bind f name hv
  | add hs hmade ho ih => exact ih.add ho
  | @setField cs s r v name hs hr hv ih => exact ih.setField r name hv
  | begin name hs hparent hsuper ih => exact ih.begin name hparent
  | @write cs s c v table name hs hentry hv ih => exact ih.writeClass c table name hv
  | finish hs ih => exact ih.finish.1

/-- What holds of the heap at first, and is kept when an object is added that programs make, when a
field is written and when a class under definition takes an entry, holds of every heap. -/
theorem heap_induction {P : Heap → Prop} (hs : s.Arises cs) (start : P .initial)
    (add : ∀ {cs : List Ref} {s : Store} {o : Object}, s.Arises cs → P s.heap →
      s.heap.Produces o → (∀ p ∈ o.places, s.Free cs p) → P (s.heap.add o).2)
    (setField : ∀ {cs : List Ref} {s : Store} (r : Ref) (name : String) (v : Ref), s.Arises cs →
      P s.heap → P (s.heap.setField r name v))
    (write : ∀ {cs : List Ref} {s : Store} {c v : Ref} {table : ClassTable} {name : String},
      s.Arises (c :: cs) → P s.heap → s.heap.ClassEntry c table name v →
      s.Free (c :: cs) (.object v) → P (s.heap.updateClass c (·.write table name v))) :
    P s.heap := by
  induction hs with
  | start tracing => exact start
  | enter f hs ih => exact ih
  | newFrame name hs hparent ih => exact ih
  | bind name hs hf hv ih => exact ih
  | add hs hmade ho ih => exact add hs ih hmade ho
  | setField name hs hr hv ih => exact setField _ name _ hs ih
  | begin name hs hparent hsuper ih =>
    exact add hs ih (.class name hsuper) fun p hp => Object.mem_places_newClass hp ▸ hparent
  | write hs hentry hv ih => exact write hs ih hentry hv
  | finish hs ih => exact ih

theorem drafting : Drafting Arises where
  defines := defines
  enter f hs := hs.enter f
  newFrame name hs hparent := hs.newFrame name hparent
  bind name hs hf hv := hs.bind name hf hv
  add hs hmade ho := hs.add hmade ho
  setField name hs hr hv := hs.setField name hr hv
  begin name hs hparent hsuper := hs.begin name hparent hsuper
  write hs hentry hv := hs.write hentry hv
  finish hs := hs.finish

end Arises

end Store

open Store

/-- A program holds what is free, and keeps to the primitive operations. -/
def Discipline.arising : Discipline.Stages := Arises.drafting.stages

theorem Store.Arises.allocInstance {cs : List Ref} {s : Store} {c : Ref} (hs : s.Arises cs)
    (hclass : (s.heap.class? c).isSome = true) (hc : s.Free cs (.object c)) :
    Arises cs { s with heap := (s.heap.allocInstance c).2 } :=
  (Discipline.makes_allocInstance (D := Discipline.arising.stage cs) hs hclass hc).follows.inv

/-- A machine in which programs can go on, while some classes are under definition: its store
arises, and the head exists. -/
def Machine.Arises (cs : List Ref) (m : Machine) : Prop := (Discipline.arising.stage cs).Ready m.store

namespace Run

open Discipline

/-- However an evaluation or call ends, and whatever classes are under definition, its end is a
machine that arises. -/
theorem arises_evaluate (limits : Limits) {cs : List Ref} {m : Machine} (hm : m.Arises cs) (e : Expr) :
    (evaluate limits e m).Ends (fun v m' => m'.Arises cs ∧ m'.store.Free cs (.object v))
      (fun _ m' => m'.Arises cs) :=
  ((arising.respects_evaluate limits cs).run e m hm).imp (fun _ _ h => ⟨h.1.ready hm, h.2⟩)
    fun _ _ h => h.ready hm And.left

theorem arises_call (limits : Limits) {cs : List Ref} {m : Machine} (hm : m.Arises cs) {callee : Ref}
    {args : List Ref} (site : Option (Option Loc)) (hcallee : m.store.Free cs (.object callee))
    (hargs : ∀ v ∈ args, m.store.Free cs (.object v)) :
    (call (evaluate limits) callee args site m).Ends
      (fun v m' => m'.Arises cs ∧ m'.store.Free cs (.object v)) (fun _ m' => m'.Arises cs) :=
  (respects_call (arising.respects_evaluate limits cs) site hm.inv hcallee hargs).imp
    (fun _ _ h => ⟨h.1.ready hm, h.2⟩) fun _ _ h => h.ready hm And.left

end Run

namespace Runner

open Discipline

theorem arises_new (library tracing : Bool) : (new library tracing).machine.Arises [] :=
  ready_new library tracing ⟨.start tracing, Nat.one_pos⟩

/-- Programs, one after the other, run from machines that arise to machines that arise. -/
theorem arises_run {r : Runner} (hr : r.machine.Arises []) (program : List Expr) :
    (r.run program).2.machine.Arises [] :=
  ready_run (fun limits => arising.respects_evaluate limits []) And.left hr program

theorem arises_runDocument {r : Runner} (hr : r.machine.Arises []) (text : String)
    (format : Option String) : (r.runDocument text format).2.machine.Arises [] :=
  ready_runDocument (fun limits => arising.respects_evaluate limits []) And.left hr text format

end Runner

end TreeScript
