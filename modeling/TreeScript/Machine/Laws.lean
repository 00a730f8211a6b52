import TreeScript.Machine.Basic

/-!
# Laws of computations

Computations form a lawful monad: a fault or an endless loop ends a sequence
where it arises, and the machine is handed from step to step. Running inside
another frame gives the head of the active chain back, however the run ends.
-/

namespace TreeScript.Run

variable {α β : Type}

theorem bind_apply (x : Run α) (f : α → Run β) (m : Machine) :
    (x >>= f) m =
      match x m with
      | .done a m => f a m
      | .failed e m => .failed e m
      | .exhausted => .exhausted := rfl

theorem look_bind (f : Heap → α) (k : α → Run β) (m : Machine) :
    (look f >>= k) m = k (f m.heap) m := rfl

theorem alloc_bind (p : Payload) (k : Ref → Run β) (m : Machine) :
    (alloc p >>= k) m = k m.heap.objects.size { m with heap := (m.heap.alloc p).2 } := rfl

/-- What was not found for want of room. -/
def orTooDeep : Option α → Run α
  | some a => Pure.pure a
  | none => fail .nestingTooDeep

theorem lookDeep_eq (f : Heap → Option α) : lookDeep f = look f >>= orTooDeep := by
  funext m
  rw [look_bind, lookDeep]
  cases f m.heap <;> rfl

theorem lookDeep_bind (f : Heap → Option α) (k : α → Run β) (m : Machine) :
    (lookDeep f >>= k) m =
      match f m.heap with
      | some a => k a m
      | none => .failed .nestingTooDeep m := by
  rw [bind_apply, lookDeep]
  cases f m.heap <;> rfl

theorem lookScope_bind (f : Scope Ref → α) (k : α → Run β) (m : Machine) :
    (lookScope f >>= k) m = k (f m.scope) m := rfl

theorem bind_done {x : Run α} {m m' : Machine} {a : α} (h : x m = .done a m') (f : α → Run β) :
    (x >>= f) m = f a m' := by
  rw [bind_apply, h]

theorem bind_failed {x : Run α} {m m' : Machine} {e : Fault} (h : x m = .failed e m')
    (f : α → Run β) : (x >>= f) m = .failed e m' := by
  rw [bind_apply, h]

theorem bind_exhausted {x : Run α} {m : Machine} (h : x m = .exhausted) (f : α → Run β) :
    (x >>= f) m = .exhausted := by
  rw [bind_apply, h]

/-- What is made sure of comes after a value as it comes after a fault. -/
theorem ensuring_apply (x : Run α) (last : Run Unit) (m : Machine) :
    ensuring x last m =
      match x m with
      | .done a m => (last >>= fun _ => Pure.pure a) m
      | .failed e m => (last >>= fun _ => fail e) m
      | .exhausted => .exhausted := by
  unfold ensuring
  cases x m with
  | done a m' =>
    dsimp only
    rw [bind_apply]
    cases last m' <;> rfl
  | failed e m' =>
    dsimp only
    rw [bind_apply]
    cases last m' <;> rfl
  | exhausted => rfl

theorem ensuring_ensuring_change (x : Run α) (f : Machine → Machine) (last : Run Unit) :
    ensuring (ensuring x (change f)) last = ensuring x (change f >>= fun _ => last) := by
  funext m
  simp only [ensuring, change, bind_apply]
  cases x m <;> rfl

theorem bind_pure_apply (x : Run α) (m : Machine) : (x >>= fun a => Pure.pure a) m = x m := by
  rw [bind_apply]
  cases x m <;> rfl

theorem bind_bind_apply {γ : Type} (x : Run α) (f : α → Run β) (g : β → Run γ) (m : Machine) :
    (x >>= f >>= g) m = (x >>= fun a => f a >>= g) m := by
  simp only [bind_apply]
  cases x m <;> rfl

instance : LawfulMonad Run :=
  LawfulMonad.mk' Run (fun x => funext (bind_pure_apply x)) (fun _ _ => rfl)
    (fun x f g => funext (bind_bind_apply x f g))

end TreeScript.Run

namespace TreeScript

/-- What holds of a value, or of a fault, and the machine left behind. -/
def Outcome.Ends {α : Type} (o : Outcome α) (onValue : α → Machine → Prop)
    (onFault : Fault → Machine → Prop) : Prop :=
  match o with
  | .done a m => onValue a m
  | .failed e m => onFault e m
  | .exhausted => True

theorem Outcome.Ends.imp {α : Type} {o : Outcome α} {V V' : α → Machine → Prop}
    {F F' : Fault → Machine → Prop} (h : o.Ends V F) (hV : ∀ a m, V a m → V' a m)
    (hF : ∀ e m, F e m → F' e m) : o.Ends V' F' := by
  cases o with
  | done a m => exact hV a m h
  | failed e m => exact hF e m h
  | exhausted => trivial

def Outcome.fault? {α : Type} : Outcome α → Option Fault
  | .failed e _ => some e
  | _ => none

theorem Outcome.failed_of_fault? {α : Type} {o : Outcome α} {e : Fault} (h : o.fault? = some e) :
    ∃ m, o = .failed e m := by
  cases o with
  | failed e' m =>
    cases h
    exact ⟨m, rfl⟩
  | _ => cases h

/-- The machine that an outcome leaves behind. -/
def Outcome.machine? {α : Type} : Outcome α → Option Machine
  | .done _ m => some m
  | .failed _ m => some m
  | .exhausted => none

end TreeScript
