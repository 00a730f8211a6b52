import TreeScript.Machine.CallLaws
import TreeScript.Proofs.Relocation

/-!
# Correspondences

A correspondence relates computations on code to computations on the same code
moved to other places. Its laws speak of the primitive operations alone: each
corresponds to itself, or to the same operation on moved code, and sequences of
related computations are related. What is read off the heap may differ by the
places in it, and so may the patterns that a trace shows.

Evaluation then corresponds to evaluation of the moved code, whatever the
relation says of the two. A relation that takes no notice of the second
computation is a property of the first.
-/

namespace TreeScript

structure Correspondence where
  place : Option Loc → Option Loc
  keepsWritable : KeepsWritable place
  Rel : {α : Type} → Run α → Run α → Prop
  pure {α : Type} (a : α) : Rel (Pure.pure a) (Pure.pure a)
  bind {α β : Type} {x y : Run α} {f g : α → Run β} : Rel x y → (∀ a, Rel (f a) (g a)) →
    Rel (x >>= f) (y >>= g)
  complain {α : Type} (c : Complaint) : Rel (Run.complain (α := α) c) (Run.complain c)
  /-- Complaints are made with the calls under way, so no other fault is one. -/
  fail {α : Type} {e : Fault} : (∀ c trace, e ≠ .complaint c trace) →
    Rel (Run.fail (α := α) e) (Run.fail e)
  exhausted {α : Type} : Rel (fun _ => (.exhausted : Outcome α)) fun _ => .exhausted
  ensuring {α : Type} {x y : Run α} {last last' : Run Unit} : Rel x y → Rel last last' →
    Rel (Run.ensuring x last) (Run.ensuring y last')
  /-- What the rest of the second computation gets to see may be in other places. -/
  look {α β : Type} {f g : Heap → α} {t : α → α} {k k' : α → Run β} :
    (∀ h, g (h.revise (.moving place)) = t (f h)) → (∀ a, Rel (k a) (k' (t a))) →
    Rel (Run.look f >>= k) (Run.look g >>= k')
  lookScope {α : Type} (f : Scope Ref → α) : Rel (Run.lookScope f) (Run.lookScope f)
  make {f g : Heap → Ref × Heap} :
    (∀ h, g (h.revise (.moving place)) = ((f h).1, (f h).2.revise (.moving place))) →
    Rel (Run.make f) (Run.make g)
  changeHeap {f : Heap → Heap} :
    (∀ h, f (h.revise (.moving place)) = (f h).revise (.moving place)) →
    Rel (Run.changeHeap f) (Run.changeHeap f)
  changeScope (f : Scope Ref → Scope Ref) : Rel (Run.changeScope f) (Run.changeScope f)
  newFrame (name : String) (parent : FrameId) :
    Rel (Run.newFrame name parent) (Run.newFrame name parent)
  popFrame : Rel Run.popFrame Run.popFrame
  /-- Programs print, and record nothing else. -/
  emit (message : String) : Rel (Run.emit .stdout message) (Run.emit .stdout message)
  choice (fits : Bool) (name shown shown' : String) :
    Rel (Run.trace fits fun _ => Run.choiceLine name shown)
      (Run.trace fits fun _ => Run.choiceLine name shown')
  body {x y : Run Ref} (frame : FrameId) (name : String) (count : Nat) : Rel x y →
    Rel (Run.bracketed frame name count x) (Run.bracketed frame name count y)
  setPlace (l : Option Loc) : Rel (Run.setPlace l) (Run.setPlace (place l))
  entered {α : Type} {x y : Run α} : Rel x y → Rel (Run.entered x) (Run.entered y)
  listed {x y : Run Ref} (room : Room) (callee : Ref) (args : List Ref)
    (site : Option (Option Loc)) : Rel x y →
    Rel (Run.listed room callee args site x) (Run.listed room callee args (site.map place) y)

namespace Correspondence

variable (C : Correspondence)

/-- The revision that moves code to where the second computation has it. -/
def moved : Revision := .moving C.place

variable {α β : Type}

/-! ## Looking -/

/-- What does not depend on places is seen alike. -/
theorem look_bind {f : Heap → α} {k k' : α → Run β} (hf : ∀ h, f (h.revise C.moved) = f h)
    (hk : ∀ a, C.Rel (k a) (k' a)) : C.Rel (Run.look f >>= k) (Run.look f >>= k') :=
  C.look (t := id) hf hk

theorem look_same {f : Heap → α} (hf : ∀ h, f (h.revise C.moved) = f h) :
    C.Rel (Run.look f) (Run.look f) := by
  rw [← bind_pure (Run.look f)]
  exact C.look_bind hf C.pure

/-- Something is found in the one heap if it is found in the other, and there is the same want of
room. -/
theorem lookDeep {f : Heap → Option α} (hf : ∀ h, f (h.revise C.moved) = f h) :
    C.Rel (Run.lookDeep f) (Run.lookDeep f) := by
  rw [Run.lookDeep_eq]
  refine C.look_bind hf fun found? => ?_
  cases found? with
  | some a => exact C.pure a
  | none => exact C.fail fun _ _ => Fault.noConfusion

theorem display (room : Room) (v : Ref) : C.Rel (Run.display room v) (Run.display room v) :=
  C.lookDeep fun h => h.display?_revise C.moved room.shown v

theorem payload_bind {k k' : Payload → Run β} (v : Ref)
    (hk : ∀ p, C.Rel (k p) (k' (p.revise C.moved))) :
    C.Rel (Run.look (·.payload v) >>= k) (Run.look (·.payload v) >>= k') :=
  C.look (fun h => h.payload_revise _ v) hk

/-! ## Making and binding -/

theorem alloc (p : Payload) : C.Rel (Run.alloc p) (Run.alloc (p.revise C.moved)) :=
  C.make fun h => h.alloc_revise C.moved p

theorem allocNumber (x : Float) : C.Rel (Run.allocNumber x) (Run.allocNumber x) :=
  C.alloc (.number x)

theorem defineIn (frame : FrameId) (name : String) (v : Ref) :
    C.Rel (Run.defineIn frame name v) (Run.defineIn frame name v) :=
  C.changeScope _

/-! ## Frames -/

theorem inFrame (f : FrameId) {x y : Run α} (h : C.Rel x y) :
    C.Rel (Run.inFrame f x) (Run.inFrame f y) := by
  refine C.bind (C.lookScope _) fun head => ?_
  exact C.bind (C.changeScope _) fun _ => C.ensuring h (C.changeScope _)

theorem inNewFrame (name : String) {x y : Run α} (h : C.Rel x y) :
    C.Rel (Run.inNewFrame name x) (Run.inNewFrame name y) :=
  C.bind (C.changeScope _) fun _ => C.ensuring h C.popFrame

/-! ## Calls -/

/-- Expressions are evaluated as they are evaluated in other places, and there is as much room. -/
structure Evaluates (evaluate evaluate' : Evaluator) : Prop where
  run : ∀ e, C.Rel (evaluate e) (evaluate' (e.revise C.moved))
  room : evaluate'.room = evaluate.room

end Correspondence

end TreeScript
