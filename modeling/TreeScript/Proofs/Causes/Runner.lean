import TreeScript.Proofs.Causes.Evaluation
import TreeScript.Proofs.Records

/-!
# Causes of faults of runs

What a runner stores is what it was given: its built-in functions have no code,
and a program is stored by its parts. So the faults of a run have their causes in
its program, or in code that the runner has stored before.
-/

namespace TreeScript

namespace Run

variable {K : Ingredient → Prop} {S : Standing} {m : Machine} {settle : Settling}
  (hS : S.Admits K settle)

include hS

/-- Wherever the machine stands at first, a fault arises at one of the places of the code, unless
nothing can be taken up at all. -/
theorem ends_evaluateSettling (limits : Limits) {e : Expr} (he : e.MadeOf K)
    (hm : m.heap.StoresOnly K) :
    (evaluateSettling settle limits e m).Ends (fun _ m' => m'.heap.StoresOnly K) fun fault m' =>
      fault = .nestingTooDeep ∨ S.during m'.place ∧ fault.HasCause K S.after m'.place := by
  unfold evaluateSettling
  cases limits.nesting with
  | zero => exact .inl rfl
  | succ nesting =>
    let x : Run Ref := entered do
      setPlace e.loc
      evaluateLevel (evaluateAtSettling settle limits nesting) limits.rounds e
    -- taking up an expression, the machine leaves its place
    have hplace : x m = x { m with place := e.loc } := rfl
    have hx : Caused K S x { m with place := e.loc } := .entered fun m' _ hm' =>
      caused_evaluateLevel (caused_evaluateAtSettling hS limits nesting) hS.code limits.rounds
        he (m := { m' with place := e.loc }) he.loc ⟨hm'.stores, hS.code e.loc he.loc⟩
    have hend := hx ⟨hm, hS.code e.loc he.loc⟩
    rw [← hplace] at hend
    show (settled settle x m).Ends _ _
    unfold settled
    cases h : x m with
    | done v m' =>
      rw [h] at hend
      exact hend.stores
    | failed fault m' =>
      rw [h] at hend
      exact .inr ⟨hend.1.stands, hend.2⟩
    | exhausted => trivial

theorem ends_evaluateProgramSettling (limits : Limits) {program : List Expr}
    (hprogram : ∀ e ∈ program, e.MadeOf K) (hm : m.heap.StoresOnly K) :
    (evaluateProgramSettling settle limits program m).Ends (fun _ m' => m'.heap.StoresOnly K)
      fun fault m' =>
        fault = .nestingTooDeep ∨ S.during m'.place ∧ fault.HasCause K S.after m'.place := by
  unfold evaluateProgramSettling
  generalize Heap.nullRef = last
  induction program generalizing last m with
  | nil => exact hm
  | cons e program ih =>
    rw [List.forall_mem_cons] at hprogram
    have hend := ends_evaluateSettling hS limits hprogram.1 hm
    rw [evaluateLast, bind_apply]
    cases h : evaluateSettling settle limits e m with
    | done v m' =>
      rw [h] at hend
      exact ih hprogram.2 hend v
    | failed fault m' =>
      rw [h] at hend
      exact hend
    | exhausted => trivial

end Run

/-- Whether an outcome is a fault of which this holds, and of the machine left behind. -/
def Outcome.failsWith {α : Type} (o : Outcome α) (p : Fault → Machine → Bool) : Bool :=
  match o with
  | .done _ _ => false
  | .failed e m => p e m
  | .exhausted => false

theorem Outcome.failed_of_failsWith {α : Type} {o : Outcome α} {p : Fault → Machine → Bool}
    (h : o.failsWith p = true) : ∃ e m, o = .failed e m ∧ p e m = true := by
  cases o with
  | failed e m => exact ⟨e, m, rfl, h⟩
  | done v m => contradiction
  | exhausted => contradiction

namespace Runner

open Run

variable {K : Ingredient → Prop} {r : Runner}

theorem storesOnly_new (library tracing : Bool) :
    (new library tracing).machine.heap.StoresOnly K := by
  have hclasses : (BuiltinClass.all.foldl (fun m c => defineBuiltin m c.name c.ref)
      (Machine.bare tracing)).heap.StoresOnly K :=
    List.foldlRecOn (motive := fun m : Machine => m.heap.StoresOnly K) _ _ Heap.storesOnly_initial
      fun _ hm _ _ => hm
  exact List.foldlRecOn (motive := fun m : Machine => m.heap.StoresOnly K) _ _ hclasses
    fun _ hm entry _ => Heap.StoresOnly.alloc hm (p := .native entry.1 (some 1) entry.2)
      (Payload.madeOf_of_plain rfl)

/-- A program is stored by its parts. -/
theorem storesOnly_run (hr : r.machine.heap.StoresOnly K) {program : List Expr}
    (hprogram : ∀ e ∈ program, e.MadeOf K) : (r.run program).2.machine.heap.StoresOnly K := by
  have hend := caused_evaluateLast (caused_evaluate r.limits) hprogram Heap.nullRef
    (started r.machine) ⟨hr, trivial⟩
  rw [run_eq, evaluateProgram]
  cases h : evaluateLast (evaluate r.limits) Heap.nullRef program (started r.machine) with
  | done v m =>
    rw [h] at hend
    exact hend.stores
  | failed fault m =>
    rw [h] at hend
    unfold conclude
    dsimp only
    cases report r.limits m fault <;> exact hend.1.stores
  | exhausted => exact hr

/-- An ingredient of a program, or of code that a runner has stored before. -/
def Mentions (r : Runner) (program : List Expr) (i : Ingredient) : Prop :=
  i ∈ Expr.allIngredients program ∨ r.machine.heap.Stores i

theorem mentions_madeOf (r : Runner) (program : List Expr) :
    ∀ e ∈ program, e.MadeOf (r.Mentions program) :=
  Expr.forall_allIngredients.mp fun _ hi => .inl hi

/-- A new runner has no code stored. -/
theorem mentions_new (library tracing : Bool) (program : List Expr) (i : Ingredient) :
    (new library tracing).Mentions program i ↔ i ∈ Expr.allIngredients program := by
  refine ⟨fun h => h.resolve_right ?_, .inl⟩
  rintro ⟨v, fn, hfn, hi⟩
  exact storesOnly_new (K := fun _ => False) library tracing v fn hfn i hi

theorem storesOnly_mentions (r : Runner) (program : List Expr) :
    r.machine.heap.StoresOnly (r.Mentions program) :=
  r.machine.heap.storesOnly_stores.mono fun _ => .inr

end Runner

end TreeScript
