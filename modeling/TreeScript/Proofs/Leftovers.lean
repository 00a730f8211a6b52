import TreeScript.Proofs.Records
import TreeScript.Proofs.Reports

/-!
# What earlier runs leave over

Besides the heap and the scope, a run leaves on its machine the effects that were
recorded, the calls of a fault and the place at which the machine came to stand.
The next run takes no notice of them: effects and calls are forgotten before
anything is evaluated, and an expression that is taken up puts the machine at its
own place. So the same document has the same result after any earlier runs.

A document that is refused is never run. Its report replaces the effects, but the
calls of an earlier fault stay on the list.
-/

namespace TreeScript

/-- What earlier runs have left on a machine besides the heap and the scope. -/
structure Leftovers where
  effects : Array Effect
  calls : List Call
  place : Option Loc

/-- The machine after other earlier runs, which have made the same of the heap and the scope. -/
def Machine.withLeftovers (m : Machine) (l : Leftovers) : Machine :=
  { m with effects := l.effects, calls := l.calls, place := l.place }

namespace Run

/-- Taking up an expression puts the machine at its place, wherever it stood. -/
theorem evaluate_withPlace (limits : Limits) (e : Expr) (m : Machine) (place : Option Loc) :
    evaluate limits e { m with place } = evaluate limits e m := by
  unfold evaluate
  obtain ⟨nesting, hnesting⟩ := Nat.exists_eq_add_of_le' limits.nesting_pos
  rw [hnesting]
  rfl

theorem evaluateLast_cons_withPlace (limits : Limits) (last : Ref) (e : Expr) (es : List Expr)
    (m : Machine) (place : Option Loc) :
    evaluateLast (evaluate limits) last (e :: es) { m with place } =
      evaluateLast (evaluate limits) last (e :: es) m := by
  rw [evaluateLast, bind_apply, bind_apply, evaluate_withPlace]

end Run

namespace Runner

def withLeftovers (r : Runner) (l : Leftovers) : Runner :=
  { r with machine := r.machine.withLeftovers l }

/-- One runner is left like the other but for the place at which its machine stands, with these
calls on its list. -/
def LeftLike (other one : Runner) (calls : List Call) : Prop :=
  ∃ place, other = one.withLeftovers ⟨one.machine.effects, calls, place⟩

/-- One run of a program ends as another does, whatever the two runners had left over. -/
def RunsAlike (other one : Except RunFault RunResult × Runner) : Prop :=
  other.1 = one.1 ∧
    (one.1 ≠ .error .exhausted → LeftLike other.2 one.2 one.2.machine.calls)

theorem runsAlike_of_eq {other one : Except RunFault RunResult × Runner} (h : other = one) :
    RunsAlike other one :=
  h ▸ ⟨rfl, fun _ => ⟨_, rfl⟩⟩

section Running

variable {r : Runner} (l : Leftovers)

/-- A run begins with neither effects nor calls; only the place is left over. -/
theorem started_withLeftovers (m : Machine) (l : Leftovers) :
    started (m.withLeftovers l) = { started m with place := l.place } := rfl

theorem run_withLeftovers (program : List Expr) :
    RunsAlike ((r.withLeftovers l).run program) (r.run program) := by
  rw [run_eq, run_eq, withLeftovers, started_withLeftovers]
  cases program with
  | nil =>
    -- nothing is taken up, so the machine stands where it stood before
    exact ⟨rfl, fun _ => ⟨l.place, rfl⟩⟩
  | cons e es =>
    have heval : evaluateProgram r.limits (e :: es) { started r.machine with place := l.place } =
        evaluateProgram r.limits (e :: es) (started r.machine) :=
      Run.evaluateLast_cons_withPlace _ Heap.nullRef e es (started r.machine) l.place
    rw [heval]
    by_cases hend : evaluateProgram r.limits (e :: es) (started r.machine) = .exhausted
    · rw [hend]
      exact ⟨rfl, fun h => absurd rfl h⟩
    · exact runsAlike_of_eq (conclude_of_machine r _ hend)

end Running

/-! ## Running a document -/

theorem runDocument_of_loaded {r : Runner} {text : String} {format : Option String}
    {program : List Expr} {nans : Nat}
    (h : loadProgram text format r.origin r.nans r.limits.documents = .ok (program, nans)) :
    r.runDocument text format =
      run { r with machine := { r.machine with effects := #[] }, nans } program := by
  unfold runDocument
  rw [h]

theorem runDocument_of_refused {r : Runner} {text : String} {format : Option String}
    {fault : DocumentFault}
    (h : loadProgram text format r.origin r.nans r.limits.documents = .error fault) :
    r.runDocument text format = r.refuse fault := by
  unfold runDocument
  rw [h]
  rfl

theorem refuse_withLeftovers (r : Runner) (l : Leftovers) (fault : DocumentFault) :
    ((r.withLeftovers l).refuse fault).1 = (r.refuse fault).1 ∧
      LeftLike ((r.withLeftovers l).refuse fault).2 (r.refuse fault).2 l.calls := by
  unfold refuse
  split
  · exact ⟨rfl, l.place, rfl⟩
  · exact ⟨rfl, l.place, rfl⟩

theorem calls_refuse (r : Runner) (fault : DocumentFault) :
    (r.refuse fault).2.machine.calls = r.machine.calls := by
  unfold refuse
  split <;> rfl

/-- After any earlier runs that have led to the same heap and scope, a document has the same result,
and the same effects, heap and scope are left behind. If the document has a program, then so are the
same calls, whatever calls were left over; if it is refused, the calls that were left over are still
on the list. -/
theorem runDocument_forgets (r : Runner) (l : Leftovers) (text : String)
    (format : Option String) :
    let one := r.runDocument text format
    let other := (r.withLeftovers l).runDocument text format
    other.1 = one.1 ∧
      (∀ loaded, loadProgram text format r.origin r.nans r.limits.documents = .ok loaded →
        one.1 ≠ .error .exhausted → LeftLike other.2 one.2 one.2.machine.calls) ∧
      ∀ fault, loadProgram text format r.origin r.nans r.limits.documents = .error fault →
        LeftLike other.2 one.2 l.calls ∧ one.2.machine.calls = r.machine.calls := by
  intro one other
  cases hload : loadProgram text format r.origin r.nans r.limits.documents with
  | ok loaded =>
    obtain ⟨program, nans⟩ := loaded
    -- both runs start without effects; what else was left over is as it was
    let start : Runner := { r with machine := { r.machine with effects := #[] }, nans }
    have hone : one = start.run program := runDocument_of_loaded hload
    have hother : other = (start.withLeftovers { l with effects := #[] }).run program :=
      runDocument_of_loaded (r := r.withLeftovers l) hload
    have halike : RunsAlike other one := by
      rw [hone, hother]
      exact run_withLeftovers (r := start) _ program
    refine ⟨halike.1, fun _ _ hend => halike.2 hend, fun fault h => ?_⟩
    cases h
  | error fault =>
    have hone : one = r.refuse fault := runDocument_of_refused hload
    have hother : other = (r.withLeftovers l).refuse fault :=
      runDocument_of_refused (r := r.withLeftovers l) hload
    rw [hone, hother]
    obtain ⟨hresult, hleft⟩ := refuse_withLeftovers r l fault
    refine ⟨hresult, fun loaded h => ?_, fun _ _ => ⟨hleft, r.calls_refuse fault⟩⟩
    cases h

/-! ## A fault and a document that is refused -/

/-- A function of which every call fails, and a call of it. -/
def failingCall : List Expr :=
  [.function none (some "boom") [] (.name none "missing"), .call none (.name none "boom") []]

/-- The call that failed is forgotten when a document is run. -/
theorem runDocument_forgets_call :
    let r : Runner := ((new true false).run failingCall).2
    let clean := r.withLeftovers ⟨#[], [], none⟩
    r.machine.trace = ["boom"] ∧
      (clean.runDocument "null" (some "json")).1 = (r.runDocument "null" (some "json")).1 ∧
      (clean.runDocument "null" (some "json")).2.LeftLike
        (r.runDocument "null" (some "json")).2 [] := by
  intro r clean
  obtain ⟨hresult, hloaded, -⟩ := runDocument_forgets r ⟨#[], [], none⟩ "null" (some "json")
  have hload :
      (loadProgram "null" (some "json") r.origin r.nans r.limits.documents).isOk = true := by
    decide +kernel
  have hend : (r.runDocument "null" (some "json")).1.isOk = true := by decide +kernel
  have hcalls : (r.runDocument "null" (some "json")).2.machine.calls = [] := by decide +kernel
  refine ⟨by decide +kernel, hresult, ?_⟩
  cases h : loadProgram "null" (some "json") r.origin r.nans r.limits.documents with
  | error fault =>
    rw [h] at hload
    contradiction
  | ok loaded =>
    refine hcalls ▸ hloaded loaded h fun hexhausted => ?_
    rw [hexhausted] at hend
    contradiction

/-- The call that failed is still on the list after a document that is no document, which leaves
nothing on a list that was empty. -/
theorem refused_keeps_trace :
    let r : Runner := ((new true false).run failingCall).2
    (r.runDocument "[" (some "json")).2.machine.trace = ["boom"] ∧
      ((r.withLeftovers ⟨#[], [], none⟩).runDocument "[" (some "json")).2.machine.trace = [] := by
  decide +kernel

end Runner

end TreeScript
