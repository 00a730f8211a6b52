import TreeScript.Proofs.BoundMethods
import TreeScript.Proofs.BuiltCode
import TreeScript.Proofs.Causes.Runner
import TreeScript.Proofs.HeadRestored
import TreeScript.Proofs.Reached
import TreeScript.Proofs.Reports

/-!
# Declared faults

Programs that are built from data and have no templates fail in the ways that
are declared, and in no others: with complaints of the language, with faults of
division and of powers where code divides or takes powers, with nesting that is
too deep. There are two exceptions. The choice of an overload is written out for
the trace, and that fails if a parameter is at a place without a written form. And
where a call breaks off for want of room, the blocks around it may find no frame to
close; such programs come so near to nesting too deep that they would fail by it
with a few levels less.
-/

namespace TreeScript

namespace Fault

/-- The kinds of faults that programs without templates may end in. -/
def declaredKinds : List String :=
  ["CallException", "NameError", "InvalidOperationException", "ZeroDivisionError", "OverflowError",
    "ValueError", "RecursionError"]

/-- A fault of a declared kind, with what its kind takes in the code; or that of closing a frame with
nothing below it, if the levels of evaluation are spent. -/
structure IsDeclared (Spent : Prop) (Mentioned : Ingredient → Prop) (f : Fault) : Prop where
  kind : f.kindName ∈ declaredKinds ∨ ∃ stack, f = .emptyStack stack
  emptied : ∀ stack, f = .emptyStack stack → Spent
  division : f.kindName = "ZeroDivisionError" → Mentioned (.operator "/")
  overflow : f.kindName = "OverflowError" → Mentioned (.operator "^")
  /-- Parameters are written out when a function of an overload set is chosen. -/
  value : f.kindName = "ValueError" → Mentioned (.operator "^") ∨
    f = .placeUnwritable ∧ ∃ ps, Mentioned (.params ps) ∧ ps.all (·.isWritable) = false
  operation : f.kindName = "InvalidOperationException" → ∃ symbol,
    Mentioned (.operator symbol) ∧ Operator.ofSymbol? symbol = none ∨
      Mentioned (.unary symbol) ∧ UnaryOperator.ofSymbol? symbol = none

variable {Spent : Prop} {K : Ingredient → Prop}

theorem isDeclared_of_complaint {c : Complaint} (trace : List String) (hc : c.HasCause K)
    (hodd : ¬ K .oddTarget) : (complaint c trace).IsDeclared Spent K := by
  have hname : (complaint c trace).kindName = c.kind.text := rfl
  have hother (kind : String) (hkind : ∀ k : ComplaintKind, k.text ≠ kind) {P : Prop} :
      (complaint c trace).kindName = kind → P := fun h => absurd (hname ▸ h) (hkind c.kind)
  refine ⟨.inl ?_, nofun, hother _ ?_, hother _ ?_, hother _ ?_, fun h => ?_⟩
  · rw [hname]
    cases c.kind <;> decide
  · intro k
    cases k <;> decide
  · intro k
    cases k <;> decide
  · intro k
    cases k <;> decide
  · have hkind : c.kind = .operation := by
      rw [hname] at h
      generalize c.kind = k at h
      cases k with
      | operation => rfl
      | _ => exact absurd h (by decide)
    cases c with
    | unknownOperator symbol => exact ⟨symbol, hc⟩
    | invalidTarget => exact absurd hc hodd
    | notEvaluable kind => exact hc.elim
    | _ => cases hkind

theorem isDeclared_of_hasCause {f : Fault} (hf : f.HasCodeCause K)
    (hodd : ¬ K .oddTarget) (htemplate : ¬ K .template)
    (hstack : ∀ stack, f = .emptyStack stack → Spent) : f.IsDeclared Spent K := by
  cases f with
  | complaint c trace => exact isDeclared_of_complaint trace hf hodd
  | divisionByZero =>
    refine ⟨.inl (by decide), nofun, fun _ => hf, fun h => ?_, fun h => ?_, fun h => ?_⟩
    all_goals exact absurd h (by decide)
  | powerUndefined =>
    refine ⟨.inl (by decide), nofun, fun h => ?_, fun h => ?_, fun _ => .inl hf, fun h => ?_⟩
    all_goals exact absurd h (by decide)
  | powerTooLarge =>
    refine ⟨.inl (by decide), nofun, fun h => ?_, fun _ => hf, fun h => ?_, fun h => ?_⟩
    all_goals exact absurd h (by decide)
  | emptyStack stack =>
    have hname : (emptyStack stack).kindName = "RuntimeError" := rfl
    refine ⟨.inr ⟨stack, rfl⟩, hstack, fun h => ?_, fun h => ?_, fun h => ?_, fun h => ?_⟩
    all_goals exact absurd (hname.symm.trans h) (by decide)
  | templateSyntax fault => exact absurd hf htemplate
  | noSuchTemplate key => exact absurd hf htemplate
  | placeUnwritable =>
    refine ⟨.inl (by decide), nofun, fun h => ?_, fun h => ?_, fun _ => .inr ⟨rfl, hf⟩, fun h => ?_⟩
    all_goals exact absurd h (by decide)
  | nestingTooDeep =>
    refine ⟨.inl (by decide), nofun, fun h => ?_, fun h => ?_, fun h => ?_, fun h => ?_⟩
    all_goals exact absurd h (by decide)

end Fault

namespace Machine

/-- Nothing that is referred to is missing: frames and objects exist, every value has a class, and
the methods of classes are functions. -/
structure IsSound (m : Machine) : Prop where
  head : m.store.Has (.frame m.scope.head)
  closed : m.store.Closed m.store.Has
  classOf : ∀ v, (m.heap.class? (m.heap.classOf v)).isSome = true
  methods : ∀ c name v, m.heap.methodOf? c name = some v → (m.heap.payload v).IsCode

theorem isSound_of_reached {m : Machine} (hm : m.Reached) (harises : m.Arises []) : m.IsSound where
  head := hm.active
  closed := hm.inv.closed
  classOf := Store.Arises.classed harises.inv |>.classOf
  methods c name v hv := (Store.Arises.methodsUnbound harises.inv c name v hv).1

end Machine

namespace Runner

open Run

/-! ## Plain programs -/

/-- An ingredient that plain programs may have. -/
def IsPlainIngredient (i : Ingredient) : Prop := i ≠ .oddTarget ∧ i ≠ .template

/-- A program that is built from data and has no template in it. -/
structure IsPlain (program : List Expr) : Prop where
  built : ∃ origin data parts calls nans nans',
    Build.program origin data parts calls nans = .ok (program, nans')
  withoutTemplate : .template ∉ Expr.allIngredients program

theorem IsPlain.madeOf {program : List Expr} (h : IsPlain program) :
    ∀ e ∈ program, e.MadeOf IsPlainIngredient := by
  obtain ⟨origin, data, parts, calls, nans, nans', hbuild⟩ := h.built
  have hbuilt := Expr.forall_allIngredients.mpr
    (Build.yields_program origin data parts calls nans program nans' hbuild)
  refine Expr.forall_allIngredients.mp fun i hi => ⟨hbuilt i hi, ?_⟩
  rintro rfl
  exact h.withoutTemplate hi

theorem isPlain_of_load {r : Runner} {text : String} {format : Option String} {nans' : Nat}
    {program : List Expr}
    (hload : loadProgram text format r.origin r.nans r.limits.documents = .ok (program, nans'))
    (htemplate : .template ∉ Expr.allIngredients program) : IsPlain program := by
  cases hread : readDocument text format none r.limits.documents with
  | error fault =>
    unfold loadProgram at hload
    rw [hread] at hload
    cases hload
  | ok d =>
    rw [loadProgram_of_read hread] at hload
    cases hbuild : r.building d with
    | error fault =>
      rw [hbuild] at hload
      cases hload
    | ok built =>
      rw [hbuild] at hload
      cases hload
      exact ⟨⟨_, _, _, _, _, _, hbuild⟩, htemplate⟩

/-- The runners that plain programs reach, also by way of documents that are refused. -/
inductive Plain : Runner → Prop
  | new (library tracing : Bool) : Plain (new library tracing)
  | configured {r : Runner} (hr : Plain r) (origin : String) (nans : Nat) (limits : Limits) :
    Plain { r with origin, nans, limits }
  | run {r : Runner} (hr : Plain r) {program : List Expr} (hprogram : IsPlain program) :
    Plain (r.run program).2
  | runDocument {r : Runner} (hr : Plain r) {text : String} {format : Option String}
    (htext : ∀ program nans,
      loadProgram text format r.origin r.nans r.limits.documents = .ok (program, nans) →
      .template ∉ Expr.allIngredients program) : Plain (r.runDocument text format).2

theorem Plain.storesOnly {r : Runner} (hr : Plain r) :
    r.machine.heap.StoresOnly IsPlainIngredient := by
  induction hr with
  | new library tracing => exact storesOnly_new library tracing
  | configured hr origin nans limits ih => exact ih
  | run hr hprogram ih => exact storesOnly_run ih hprogram.madeOf
  | @runDocument r hr text format htext ih =>
    unfold Runner.runDocument
    dsimp only
    cases hload : loadProgram text format r.origin r.nans r.limits.documents with
    | ok loaded =>
      obtain ⟨program, nans⟩ := loaded
      exact storesOnly_run (r := { r with machine := { r.machine with effects := #[] }, nans }) ih
        (isPlain_of_load hload (htext program nans hload)).madeOf
    | error fault =>
      dsimp only
      split <;> exact ih

theorem Plain.reached {r : Runner} (hr : Plain r) : r.machine.Reached ∧ r.machine.Arises [] := by
  induction hr with
  | new library tracing => exact ⟨reached_new library tracing, arises_new library tracing⟩
  | configured hr origin nans limits ih => exact ih
  | run hr hprogram ih => exact ⟨reached_run ih.1 _, arises_run ih.2 _⟩
  | runDocument hr htext ih =>
    exact ⟨reached_runDocument ih.1 _ _, arises_runDocument ih.2 _ _⟩

/-! ## A parameter without a written place -/

/-- A line whose number has too many digits to be written. -/
def farLine : Int := .ofNat (Nat.pow 10 Text.mostDigits)

def farParameter : Data :=
  .mapping [(.text "pattern", .text "name"), (.text "name", .text "x"),
    (.text "line", .integer farLine)]

def overload (params : List Data) : Data :=
  .mapping [(.text "node", .text "function"), (.text "name", .text "f"),
    (.text "params", .list params), (.text "body", .null)]

def overloadName : Data := .mapping [(.text "node", .text "name"), (.text "name", .text "f")]

def overloadCall : Data :=
  .mapping [(.text "node", .text "call"), (.text "callee", overloadName),
    (.text "args", .list [.null])]

/-- Two functions of one name, of which the first takes an argument, and a call with an argument. -/
def overloadProgram : List Expr :=
  [.function none (some "f") [.name (some ⟨farLine, "d"⟩) "x"] (.null none),
    .function none (some "f") [] (.null none),
    .call none (.name none "f") [.null none]]

section Building

open Build

variable (room : Nat)

theorem expr_null : expr "d" .null [] (room + 1) 0 = .ok (.null none, 0) := by
  rw [expr]
  rfl

theorem pattern_farParameter :
    pattern "d" farParameter [] (room + 1) 0 = .ok (.name (some ⟨farLine, "d"⟩) "x", 0) := by
  rw [farParameter, pattern]
  rfl

theorem expr_overload_one : expr "d" (overload [farParameter]) [] (room + 3) 0 =
    .ok (.function none (some "f") [.name (some ⟨farLine, "d"⟩) "x"] (.null none), 0) := by
  rw [overload, expr]
  refine (bind_ok (a := none) (n := 0) rfl).trans ?_
  refine (bind_ok (a := .function) (n := 0) rfl).trans ?_
  refine (bind_ok (a := some "f") (n := 0) rfl).trans ?_
  refine (bind_ok (n := 0) rfl).trans ?_
  refine (bind_ok (mapM_cons_ok (pattern_farParameter room) (mapM_nil_ok _ 0))).trans ?_
  exact bind_ok (expr_null (room + 1))

theorem expr_overload_none : expr "d" (overload []) [] (room + 2) 0 =
    .ok (.function none (some "f") [] (.null none), 0) := by
  rw [overload, expr]
  refine (bind_ok (a := none) (n := 0) rfl).trans ?_
  refine (bind_ok (a := .function) (n := 0) rfl).trans ?_
  refine (bind_ok (a := some "f") (n := 0) rfl).trans ?_
  refine (bind_ok (n := 0) rfl).trans ?_
  refine (bind_ok (a := []) (n := 0) rfl).trans ?_
  exact bind_ok (expr_null room)

theorem expr_overloadCall : expr "d" overloadCall [] (room + 4) 0 =
    .ok (.call none (.name none "f") [.null none], 0) := by
  have hname : expr "d" overloadName [] (room + 3) 0 = .ok (.name none "f", 0) := by
    rw [overloadName, expr]
    rfl
  rw [overloadCall, expr]
  refine (bind_ok (a := none) (n := 0) rfl).trans ?_
  refine (bind_ok (a := .call) (n := 0) rfl).trans ?_
  refine (bind_ok hname).trans ?_
  exact bind_ok (mapM_cons_ok (expr_null room) (mapM_nil_ok _ 0))

theorem isPlain_overloadProgram : IsPlain overloadProgram where
  built := by
    refine ⟨"d", .list [overload [farParameter], overload [], overloadCall], [], 5, 0, 0, ?_⟩
    refine mapM_cons_ok (expr_overload_one 1) (mapM_cons_ok (expr_overload_none 2) ?_)
    exact mapM_cons_ok (expr_overloadCall 0) (mapM_nil_ok _ 0)
  withoutTemplate := by
    simp [overloadProgram, Expr.allIngredients, Expr.ingredients, Pattern.allIngredients,
      Pattern.ingredients]

end Building

theorem evaluate_overloadProgram : ∃ m,
    evaluateProgram .standard overloadProgram (started (new false false).machine) =
      .failed .placeUnwritable m := by
  have hfails : (evaluateProgram .standard overloadProgram
      (started (new false false).machine)).failsWith (fun e _ => decide (e = .placeUnwritable)) =
      true := by decide +kernel
  obtain ⟨e, m, hm, he⟩ := Outcome.failed_of_failsWith hfails
  exact ⟨m, of_decide_eq_true he ▸ hm⟩

/-! ## Faults of plain programs -/

/-- Some function may not be entered where it is called, and with as many levels less as entering one
takes the program fails since it nests too deep. -/
def Spends (r : Runner) (program : List Expr) : Prop :=
  r.limits.entry ≠ 0 ∧
    ∃ m, evaluateLast (evaluateSparing r.limits) Heap.nullRef program (started r.machine) =
      .failed .nestingTooDeep m

theorem spends_of_emptyStack {r : Runner} {program : List Expr} {stack : EmptyStack} {m : Machine}
    (h : evaluateProgram r.limits program (started r.machine) = .failed (.emptyStack stack) m) :
    r.Spends program := by
  have hkeeps (hroom : r.limits.entry = 0 ∨ (evaluateLast (evaluateSparing r.limits) Heap.nullRef
      program (started r.machine)).HasRoom) : False := by
    have hend := keepsStack_of_hasRoom
      (x := fun evaluate => evaluateLast evaluate Heap.nullRef program)
      (fun _ _ heval => Discipline.respects_evaluateLast heval program ⟨trivial, trivial⟩ trivial)
      (fun _ _ hagree => agrees_evaluateLast hagree Heap.nullRef program) hroom
    rw [show evaluateLast (evaluate r.limits) Heap.nullRef program _ = _ from h] at hend
    exact hend.2 stack rfl
  refine ⟨fun hentry => hkeeps (.inl hentry), ?_⟩
  by_contra hnone
  exact hkeeps (.inr fun m' hm' => hnone ⟨m', hm'⟩)

/-- Run where plain programs have led, a plain program ends in a value, or in a fault of a declared
kind whose cause is mentioned in the code, and either way nothing is missing where it ends. -/
theorem ends_declared {r : Runner} (hr : Plain r) {program : List Expr} (hprogram : IsPlain program) :
    (evaluateProgram r.limits program (started r.machine)).Ends
      (fun v m => m.IsSound ∧ m.store.Has (.object v))
      (fun fault m => m.IsSound ∧ fault.IsDeclared (r.Spends program) (r.Mentions program)) := by
  obtain ⟨hreached, harises⟩ := hr.reached
  have hplain (i : Ingredient) (hi : r.Mentions program i) : IsPlainIngredient i := by
    rcases hi with hi | ⟨v, fn, hfn, hi⟩
    · exact Expr.forall_allIngredients.mpr hprogram.madeOf i hi
    · exact hr.storesOnly v fn hfn i hi
  have hends := Discipline.respects_evaluateLast (m := started r.machine)
    (Discipline.respects_evaluate r.limits) program hreached
    (Discipline.reached.holds_shared hreached.inv Heap.isShared_nullRef)
  have hstages := Discipline.respects_evaluateLast (m := started r.machine)
    (Discipline.arising.respects_evaluate r.limits []) program harises
    ((Discipline.arising.stage []).holds_shared harises.inv Heap.isShared_nullRef)
  have hcaused := caused_evaluateLast (caused_evaluate r.limits) (r.mentions_madeOf program)
    Heap.nullRef (started r.machine) ⟨r.storesOnly_mentions program, trivial⟩
  unfold evaluateProgram
  cases h : evaluateLast (evaluate r.limits) Heap.nullRef program (started r.machine) with
  | done v m =>
    rw [h] at hends hstages
    exact ⟨Machine.isSound_of_reached (hends.1.ready hreached) (hstages.1.ready harises), hends.2⟩
  | failed fault m =>
    rw [h] at hends hstages hcaused
    refine ⟨Machine.isSound_of_reached (hends.ready hreached id) (hstages.ready harises And.left), ?_⟩
    refine Fault.isDeclared_of_hasCause hcaused.2.code (fun hi => (hplain _ hi).1 rfl)
      (fun hi => (hplain _ hi).2 rfl) ?_
    rintro stack rfl
    exact spends_of_emptyStack h
  | exhausted => trivial

/-- The overload set cannot be chosen from, which is a fault that is declared. -/
theorem ends_declared_overload : Plain (new false false) ∧ IsPlain overloadProgram ∧
    ∃ fault m, evaluateProgram .standard overloadProgram (started (new false false).machine) =
      .failed fault m ∧ m.IsSound ∧
        fault.IsDeclared ((new false false).Spends overloadProgram)
          ((new false false).Mentions overloadProgram) := by
  have hends := ends_declared (.new false false) isPlain_overloadProgram
  obtain ⟨m, hm⟩ := evaluate_overloadProgram
  rw [show (new false false).limits = .standard from rfl, hm] at hends
  exact ⟨.new false false, isPlain_overloadProgram, _, m, hm, hends⟩

/-- A fault of values without any power in the code. -/
theorem valueError_without_power : Plain (new false false) ∧ IsPlain overloadProgram ∧
    ¬ (new false false).Mentions overloadProgram (.operator "^") ∧
    ∃ fault m, evaluateProgram .standard overloadProgram (started (new false false).machine) =
      .failed fault m ∧ fault.kindName = "ValueError" := by
  obtain ⟨m, hm⟩ := evaluate_overloadProgram
  refine ⟨.new false false, isPlain_overloadProgram, ?_, _, m, hm, rfl⟩
  simp [mentions_new, overloadProgram, Expr.allIngredients, Expr.ingredients,
    Pattern.allIngredients, Pattern.ingredients]

end Runner

end TreeScript
