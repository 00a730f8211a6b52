import Mathlib.Data.Set.Finite.Lattice
import TreeScript.Proofs.Causes.Runner
import TreeScript.Proofs.Places
import TreeScript.Proofs.Settling

/-!
# The place of a fault

A report names the place at which the machine stands when a fault arises. That is
the place of the innermost expression under evaluation if no evaluation has
finished since the machine came there. So it is for faults that arise before
anything is evaluated, and a call comes back to its own place before it is made.
Operators and the readings of members and items do not come back from their parts:
a fault of theirs is reported at a place in an operand, or in the body of a function
that was called there.
-/

namespace TreeScript

/-! ## A place that is not in the code -/

theorem Heap.finite_stores (h : Heap) : {i | h.Stores i}.Finite := by
  let stored : List Ingredient := (List.range h.objects.size).flatMap fun v =>
    (h.payload v).functions.flatMap Function.ingredients
  refine (List.finite_toSet stored).subset ?_
  rintro i ⟨v, fn, hfn, hi⟩
  have hv : v < h.objects.size := h.lt_of_payload_ne_null fun hnull => by
    rw [hnull] at hfn
    cases hfn
  exact List.mem_flatMap.mpr ⟨v, List.mem_range.mpr hv, List.mem_flatMap.mpr ⟨fn, hfn, hi⟩⟩

namespace Runner

open Run

theorem exists_unmentioned (r : Runner) (program : List Expr) :
    ∃ mark, ¬ r.Mentions program (.place mark) := by
  have hfinite : {i | r.Mentions program i}.Finite :=
    (List.finite_toSet (Expr.allIngredients program)).union r.machine.heap.finite_stores
  have hlines : Function.Injective fun line : Nat => Ingredient.place (some ⟨line, ""⟩) := by
    intro line line' h
    have hline : (line : Int) = line' := by simpa using h
    exact Int.ofNat.inj hline
  obtain ⟨i, ⟨line, rfl⟩, hi⟩ := (Set.infinite_range_of_injective hlines).exists_notMem_finite hfinite
  exact ⟨_, hi⟩

/-! ## Runs with the place settled -/

/-- If finished evaluations leave the machine so, a run of a program ends in a fault, at a place. -/
def FailsAt (r : Runner) (settle : Settling) (program : List Expr) (fault : Fault)
    (place : Option Loc) : Prop :=
  ∃ m, evaluateProgramSettling settle r.limits program (started r.machine) = .failed fault m ∧
    m.place = place

/-- When the fault arises, the machine stands where a finished evaluation has left it, wherever that
is. -/
def FailsLate (r : Runner) (program : List Expr) (fault : Fault) : Prop :=
  ∀ mark, r.FailsAt (.goTo mark) program fault mark

section FailsAt

variable {r : Runner} {settle settle' : Settling} {program : List Expr} {fault : Fault}
  {place place' : Option Loc}

theorem FailsAt.unique (h : r.FailsAt settle program fault place)
    (h' : r.FailsAt settle program fault place') : place = place' := by
  obtain ⟨m, hm, rfl⟩ := h
  obtain ⟨m', hm', rfl⟩ := h'
  rw [hm] at hm'
  cases hm'
  rfl

theorem marked_evaluateProgram (r : Runner) (settle : Settling) (program : List Expr)
    (mark : Option Loc) :
    (evaluateProgramSettling settle r.limits program (started r.machine)).Marked mark
      (evaluateProgramSettling (.goTo mark) r.limits program (started r.machine)) :=
  marks_evaluateProgramSettling settle r.limits program _ _ ⟨_, .inr rfl⟩

theorem FailsAt.marked (h : r.FailsAt settle program fault place) (mark : Option Loc) :
    r.FailsAt (.goTo mark) program fault mark ∨ r.FailsAt (.goTo mark) program fault place := by
  obtain ⟨m, hm, rfl⟩ := h
  have hmarked := r.marked_evaluateProgram settle program mark
  rw [hm] at hmarked
  cases hmark : evaluateProgramSettling (.goTo mark) r.limits program (started r.machine) <;>
    rw [hmark] at hmarked <;> cases hmarked
  next hmarked =>
    obtain ⟨traced, hplace⟩ := hmarked
    exact hplace.imp (fun h => ⟨_, hmark, h⟩) fun h => ⟨_, hmark, h⟩

theorem FailsAt.settled (h : r.FailsAt settle program fault place) (settle' : Settling) :
    ∃ place', r.FailsAt settle' program fault place' := by
  obtain ⟨p, m, hm, -⟩ : ∃ p, r.FailsAt (.goTo none) program fault p :=
    (h.marked none).elim (fun h => ⟨_, h⟩) fun h => ⟨_, h⟩
  have hmarked := r.marked_evaluateProgram settle' program none
  rw [hm] at hmarked
  cases hsettled : evaluateProgramSettling settle' r.limits program (started r.machine) <;>
    rw [hsettled] at hmarked <;> cases hmarked
  exact ⟨_, _, hsettled, rfl⟩

/-- Unless the fault is late, it arises at the same place wherever finished evaluations leave the
machine. -/
theorem FailsAt.place_eq (h : r.FailsAt settle program fault place)
    (h' : r.FailsAt settle' program fault place') (hlate : ¬ r.FailsLate program fault) :
    place = place' := by
  -- some mark is not where the fault arises, so no finished evaluation has put the machine there
  obtain ⟨mark, hmark⟩ := not_forall.mp hlate
  have hplace := (h.marked mark).resolve_left hmark
  have hplace' := (h'.marked mark).resolve_left hmark
  exact hplace.unique hplace'

/-- A fault has its cause in the program, or in code that was stored before. -/
theorem FailsAt.hasCause (h : r.FailsAt settle program fault place) {S : Standing}
    (hS : S.Admits (r.Mentions program) settle) (hfault : fault ≠ .nestingTooDeep) :
    S.during place ∧ fault.HasCause (r.Mentions program) S.after place := by
  obtain ⟨m, hm, rfl⟩ := h
  have hend := ends_evaluateProgramSettling (m := started r.machine) hS r.limits
    (r.mentions_madeOf program) (r.storesOnly_mentions program)
  rw [hm] at hend
  exact hend.resolve_left hfault

/-- A fault arises at a place in the code, unless a finished evaluation may lead elsewhere. -/
theorem FailsAt.mentions (h : r.FailsAt settle program fault place)
    (hsettle : ∀ before after, r.Mentions program (.place before) →
      r.Mentions program (.place after) → r.Mentions program (.place (settle before after)))
    (hfault : fault ≠ .nestingTooDeep) : r.Mentions program (.place place) := by
  let S : Standing := ⟨fun l => r.Mentions program (.place l), fun _ => True⟩
  have hS : S.Admits (r.Mentions program) settle := ⟨fun _ => id, hsettle, fun _ _ => trivial⟩
  exact (h.hasCause hS hfault).1

/-- A fault that arises before anything is evaluated does not arise at a mark outside the code. -/
theorem not_failsLate (hfault : fault.isPrompt = true) : ¬ r.FailsLate program fault := by
  intro hlate
  obtain ⟨mark, hmark⟩ := r.exists_unmentioned program
  have hS : Standing.anywhere.Admits (r.Mentions program) (.goTo mark) :=
    ⟨fun _ _ => trivial, fun _ _ _ _ => trivial, fun _ _ => trivial⟩
  have hdeep : fault ≠ .nestingTooDeep := by
    rintro rfl
    contradiction
  -- nothing was evaluated since an expression was taken up, so its place is the mark
  exact hmark (((hlate mark).hasCause hS hdeep).2.prompt hfault)

/-- A fault that arises after parts are evaluated arises at every mark. -/
theorem FailsAt.failsLate (h : r.FailsAt settle program fault place) (hfault : fault.isLate = true) :
    r.FailsLate program fault := by
  intro mark
  obtain ⟨p, hp⟩ := h.settled (.goTo mark)
  have hS : Standing.Admits ⟨fun _ => True, (· = mark)⟩ (r.Mentions program) (.goTo mark) :=
    ⟨fun _ _ => trivial, fun _ _ _ _ => trivial, fun _ _ => rfl⟩
  have hdeep : fault ≠ .nestingTooDeep := by
    rintro rfl
    contradiction
  have hplace : p = mark := (hp.hasCause hS hdeep).2.late hfault
  exact hplace ▸ hp

end FailsAt

/-! ## Reports -/

/-- A run with a report has failed where the report says. -/
theorem failsAt_of_run {r : Runner} {program : List Expr} {fault : Fault} {text : String}
    (hrun : (r.run program).1 = .ok (.failure fault text)) :
    ∃ calls reported, text = reportAt fault calls reported ∧
      r.FailsAt .stay program fault reported := by
  unfold FailsAt
  rw [evaluateProgramSettling_stay]
  rw [run_eq] at hrun
  cases h : evaluateProgram r.limits program (started r.machine) with
  | failed e m =>
    rw [h] at hrun
    unfold conclude report at hrun
    dsimp only at hrun
    split at hrun
    · next report heq =>
      cases hrun
      split at heq
      · split at heq
        · next calls _ =>
          cases heq
          exact ⟨calls, m.place, rfl, m, rfl, rfl⟩
        · cases heq
      · cases heq
    · cases hrun
  | done v m =>
    rw [h] at hrun
    cases hrun
  | exhausted =>
    rw [h] at hrun
    cases hrun

/-- The report of a run names the place in the code at which the machine stands. That is the place of
the innermost expression under evaluation, unless a finished evaluation has left the machine there. No
evaluation has if the fault arises before anything is evaluated, and one always has if it arises after
the parts of an expression are. -/
theorem reported_place {r : Runner} {program : List Expr} {fault : Fault} {text : String}
    (hrun : (r.run program).1 = .ok (.failure fault text)) (hfault : fault ≠ .nestingTooDeep) :
    ∃ calls reported innermost, text = reportAt fault calls reported ∧
      r.FailsAt .stay program fault reported ∧ r.FailsAt .goBack program fault innermost ∧
      r.Mentions program (.place reported) ∧ r.Mentions program (.place innermost) ∧
      (¬ r.FailsLate program fault → reported = innermost) ∧
      (fault.isPrompt = true → ¬ r.FailsLate program fault) ∧
      (fault.isLate = true → r.FailsLate program fault) := by
  obtain ⟨calls, reported, htext, hreported⟩ := failsAt_of_run hrun
  obtain ⟨innermost, hinnermost⟩ := hreported.settled .goBack
  refine ⟨calls, reported, innermost, htext, hreported, hinnermost, ?_, ?_, ?_, not_failsLate, ?_⟩
  · exact hreported.mentions (fun _ _ _ hafter => hafter) hfault
  · exact hinnermost.mentions (fun _ _ hbefore _ => hbefore) hfault
  · exact hreported.place_eq hinnermost
  · exact hreported.failsLate

/-! ## Two faults -/

/-- Ends in a fault outside all calls, where the machine stands at a place. -/
def failsOutside (o : Outcome Ref) (fault : Fault) (place : Option Loc) : Bool :=
  o.failsWith fun e m => decide (e = fault ∧ m.place = place ∧ m.calls = [])

theorem failed_of_failsOutside {o : Outcome Ref} {fault : Fault} {place : Option Loc}
    (h : failsOutside o fault place = true) :
    ∃ m, o = .failed fault m ∧ m.place = place ∧ m.calls = [] := by
  obtain ⟨e, m, hm, he⟩ := Outcome.failed_of_failsWith h
  obtain ⟨rfl, hplace, hcalls⟩ := of_decide_eq_true he
  exact ⟨m, hm, hplace, hcalls⟩

theorem run_of_failsOutside {r : Runner} {program : List Expr} {fault : Fault} (loc : Loc)
    (hloc : loc.isWritable = true)
    (h : failsOutside (evaluateProgram r.limits program (started r.machine)) fault loc = true) :
    (r.run program).1 = .ok (.failure fault (reportAt fault "" loc)) := by
  obtain ⟨m, hm, hplace, hcalls⟩ := failed_of_failsOutside h
  have hreport : report r.limits m fault = .ok (reportAt fault "" loc) := by
    simp [report, callsLine?, hplace, hcalls, hloc, reportAt]
  rw [run_eq, hm, conclude]
  simp only [hreport]

/-- A list of which the second item is a name that is not bound. -/
def unboundItem : List Expr :=
  [.list (some ⟨1, "d"⟩) [.string (some ⟨2, "d"⟩) "a", .name (some ⟨3, "d"⟩) "x"]]

/-- The report names the place of the name, which was taken up after another item. -/
theorem reported_place_unbound :
    ((new true false).run unboundItem).1 =
      .ok (.failure (.complaint (.unboundVariable "x") [])
        "NameError: undefined variable x\n(line 3, d)") ∧
    ∃ calls place, "NameError: undefined variable x\n(line 3, d)" =
        reportAt (.complaint (.unboundVariable "x") []) calls place ∧
      (new true false).FailsAt .goBack unboundItem (.complaint (.unboundVariable "x") []) place := by
  have hrun : ((new true false).run unboundItem).1 =
      .ok (.failure (.complaint (.unboundVariable "x") [])
        "NameError: undefined variable x\n(line 3, d)") :=
    run_of_failsOutside ⟨3, "d"⟩ (by decide +kernel) (by decide +kernel)
  obtain ⟨calls, reported, innermost, htext, -, hinnermost, -, -, hplace, hprompt, -⟩ :=
    reported_place hrun (by simp)
  exact ⟨hrun, calls, reported, htext, hplace (hprompt rfl) ▸ hinnermost⟩

/-- A difference of which the left side is a text. -/
def subtraction : List Expr :=
  [.operator (some ⟨1, "d"⟩) "-" (.string (some ⟨2, "d"⟩) "a") (.null (some ⟨3, "d"⟩))]

/-- The operator fails, and the report names the place of its operand. -/
theorem operator_reported_at_operand :
    (∀ l, (new true false).Mentions subtraction (.place l) → l ≠ none) ∧
    ((new true false).run subtraction).1 =
      .ok (.failure (.complaint .wrongType []) "CallException: invalid type\n(line 2, d)") ∧
    (new true false).FailsAt .goBack subtraction (.complaint .wrongType []) (some ⟨1, "d"⟩) := by
  refine ⟨fun l hl => ?_, run_of_failsOutside ⟨2, "d"⟩ (by decide +kernel)
    (by decide +kernel), ?_⟩
  · simp [mentions_new, subtraction, Expr.allIngredients, Expr.ingredients] at hl
    rcases hl with rfl | rfl | rfl <;> simp
  · have hfails : failsOutside (evaluateProgramSettling .goBack .standard subtraction
        (started (new true false).machine)) (.complaint .wrongType []) (some ⟨1, "d"⟩) = true := by
      decide +kernel
    obtain ⟨m, hm, hplace, -⟩ := failed_of_failsOutside hfails
    exact ⟨m, hm, hplace⟩

end Runner

end TreeScript
