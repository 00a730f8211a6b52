import TreeScript.Proofs.Discipline.Evaluation
import TreeScript.Runner

/-!
# Programs under a discipline

A discipline that expressions are evaluated under holds between programs too, if
the machine without any name bound is as it wants it: runners start with
built-in classes and functions bound, and run one program after the other.
-/

namespace TreeScript.Discipline

open Run Runner

variable {D : Discipline}

theorem ready_defineBuiltin {m : Machine} (hm : D.Ready m.store) (name : String) {value : Ref}
    (hvalue : D.HoldsValue m.store value) : D.Ready (defineBuiltin m name value).store := by
  have h := respects_define (m := m) name hm hvalue
  exact h.1.ready hm

theorem ready_defineNative {m : Machine} (hm : D.Ready m.store) (name : String)
    (arity : Option Nat) (code : Intrinsic) :
    D.Ready (defineNative m name arity code).2.store := by
  have h := respects_alloc (m := m) hm.inv (.native name arity code) fun q hq => nomatch hq
  exact ready_defineBuiltin (h.1.ready hm) name h.2

theorem ready_foldl {α : Type} {f : Machine → α → Machine}
    (hf : ∀ m a, D.Ready m.store → D.Ready (f m a).store) (entries : List α) {m : Machine}
    (hm : D.Ready m.store) : D.Ready (entries.foldl f m).store := by
  induction entries generalizing m with
  | nil => exact hm
  | cons entry entries ih => exact ih (hf m entry hm)

theorem ready_new (library tracing : Bool) (hbare : D.Ready (Machine.bare tracing).store) :
    D.Ready (new library tracing).machine.store := by
  have hclasses := ready_foldl (f := fun m c => defineBuiltin m c.name c.ref)
    (fun m c hm => ready_defineBuiltin hm c.name (D.holds_shared hm.inv c.isShared_ref))
    BuiltinClass.all hbare
  exact ready_foldl (fun m entry hm => ready_defineNative hm entry.1 (some 1) entry.2) _ hclasses

variable (heval : ∀ limits, D.Evaluates (evaluate limits))
  (hactive : ∀ {s f}, D.Holds s (.frame f) → D.Active s f) {r : Runner}
  (hr : D.Ready r.machine.store)

include heval hactive hr

/-- Programs, one after the other, run from ready machines to ready machines, if names may be bound
in every frame that is held: a fault may leave any of these as the head. -/
theorem ready_run (program : List Expr) : D.Ready (r.run program).2.machine.store := by
  have hend : D.Respects r.machine.store
      (evaluateProgram r.limits program { r.machine with effects := #[], calls := [] })
      D.HoldsValue :=
    respects_evaluateLast (heval r.limits) program hr (D.holds_shared hr.inv Heap.isShared_nullRef)
  unfold run
  dsimp only
  cases hrun : evaluateProgram r.limits program { r.machine with effects := #[], calls := [] } with
  | done v m =>
    rw [hrun] at hend
    exact hend.1.ready hr
  | failed fault m =>
    rw [hrun] at hend
    dsimp only
    split <;> exact hend.ready hr hactive
  | exhausted => exact hr

theorem ready_runDocument (text : String) (format : Option String) :
    D.Ready (r.runDocument text format).2.machine.store := by
  unfold runDocument
  dsimp only
  cases loadProgram text format r.origin r.nans r.limits.documents with
  | ok loaded =>
    obtain ⟨program, nans⟩ := loaded
    exact ready_run (r := { r with machine := { r.machine with effects := #[] }, nans }) heval
      hactive hr program
  | error fault =>
    dsimp only
    split <;> exact hr

end TreeScript.Discipline
