import TreeScript.Proofs.CallList
import TreeScript.Proofs.Records
import TreeScript.Proofs.Reports

/-!
# Runs in sequence

A program may be run in parts. A run that succeeds leaves nothing behind that
the next run could notice, except for the heap and the scope. So the second part,
run by itself, ends as it ends in the whole program; only the effects of the first
part are missing from its records. A run that does not succeed is the run of every
program that begins with it.
-/

namespace TreeScript

namespace Run

theorem evaluateLast_append (evaluate : Evaluator) (last : Ref) (es : List Expr) (e : Expr)
    (more : List Expr) :
    evaluateLast evaluate last (es ++ e :: more) =
      evaluateLast evaluate last es >>= fun _ => evaluateLast evaluate Heap.nullRef (e :: more) := by
  induction es generalizing last with
  | nil => rfl
  | cons e' es ih =>
    simp only [List.cons_append, evaluateLast, bind_assoc]
    exact bind_congr fun v => ih v

/-- Expressions that all have values leave no call on the list. -/
theorem calls_of_evaluateLast (limits : Limits) (es : List Expr) {last v : Ref} {m m' : Machine}
    (hm : m.calls = []) (h : evaluateLast (evaluate limits) last es m = .done v m') :
    m'.calls = [] := by
  induction es generalizing last m with
  | nil =>
    cases h
    exact hm
  | cons e es ih =>
    have hkeeps := ((lists_calls limits m).1 e).keeps
    rw [evaluateLast, bind_apply] at h
    cases he : evaluate limits e m with
    | done w m₁ =>
      rw [he] at h hkeeps
      -- whether or not it began outside all others, an evaluation that is done adds no call
      refine ih ?_ h
      rw [hkeeps.1, Machine.callsOnEntry, hm, ite_self]
    | failed fault m₁ =>
      rw [he] at h
      cases h
    | exhausted =>
      rw [he] at h
      cases h

end Run

namespace Runner

/-! ## Programs in parts -/

theorem evaluateProgram_append (limits : Limits) (p : List Expr) (e : Expr) (q : List Expr) :
    evaluateProgram limits (p ++ e :: q) =
      evaluateProgram limits p >>= fun _ => evaluateProgram limits (e :: q) :=
  Run.evaluateLast_append _ _ p e q

/-- The same runner, if these effects had been recorded before its own. -/
def preceded (r : Runner) (effects : Array Effect) : Runner :=
  { r with machine := { r.machine with effects := effects ++ r.machine.effects } }

/-- One run goes on as another does by itself: it has the same result and, if it has an end, leaves
the same runner, but for the effects that were recorded before. -/
def GoesOnAs (whole rest : Except RunFault RunResult × Runner) (effects : Array Effect) : Prop :=
  whole.1 = rest.1 ∧ (whole.1 ≠ .error .exhausted → whole.2 = rest.2.preceded effects)

/-- What a program does on a machine without calls under way, it does in a run of its own. -/
theorem goesOnAs_run (r : Runner) (program : List Expr) {m : Machine} (hm : m.calls = []) :
    GoesOnAs (r.conclude (evaluateProgram r.limits program m))
      (run { r with machine := m } program) m.effects := by
  obtain ⟨printed, lines, -, hadds⟩ := Run.appends_evaluateProgram r.limits program m
  have hstart : started m = m.withRecords { m.records with effects := #[] } := by
    rw [started, ← hm]
    rfl
  have hrest := hadds { m.records with effects := #[] }
  rw [run_eq, hstart, hrest]
  by_cases hend : evaluateProgram r.limits program m = .exhausted
  · rw [hend]
    exact ⟨rfl, fun h => absurd rfl h⟩
  · rw [conclude_of_machine r m (Outcome.withRecords_ne hend _), conclude_withRecords r _ hend]
    refine ⟨rfl, fun _ => ?_⟩
    have hwhole := conclude_withRecords r (m.records.add printed lines) hend
    rw [← hadds m.records, Machine.withRecords_records] at hwhole
    refine (congrArg Prod.snd hwhole).trans ?_
    simp [withRecords, preceded, Machine.withRecords, Machine.records, Records.add, Records.note]

/-- A program runs like its first part, unless that succeeds, and then goes on as the second part
does when it is run next. -/
def RunsInParts (r : Runner) (p : List Expr) (e : Expr) (q : List Expr) : Prop :=
  match r.run p with
  | (.ok (.success _), r') => GoesOnAs (r.run (p ++ e :: q)) (r'.run (e :: q)) r'.machine.effects
  | other => r.run (p ++ e :: q) = other

theorem runsInParts (r : Runner) (p : List Expr) (e : Expr) (q : List Expr) :
    r.RunsInParts p e q := by
  rw [RunsInParts, run_eq, run_eq, evaluateProgram_append, Run.bind_apply]
  cases hp : evaluateProgram r.limits p (started r.machine) with
  | done v m => exact goesOnAs_run r (e :: q) (Run.calls_of_evaluateLast r.limits p rfl hp)
  | failed fault m =>
    simp only [conclude]
    cases report r.limits m fault <;> rfl
  | exhausted => rfl

/-! ## Effects of a run -/

/-- A run with a result has recorded what the evaluation of its program emitted, which is what was
printed, in order, and then the report, if it failed. -/
def Accounts (evaluation : Outcome Ref) : Except RunFault RunResult × Runner → Prop
  | (.ok result, r) => ∃ m, evaluation.machine? = some m ∧
    m.effects = Records.outputs r.machine.printed ∧
    r.machine.effects = m.effects ++ Records.notes (reports (.ok result))
  | (.error _, _) => True

/-- The program of a document, which is empty if the document is refused. -/
def programOf (r : Runner) (text : String) (format : Option String) : List Expr :=
  match loadProgram text format r.origin r.nans r.limits.documents with
  | .ok (program, _) => program
  | .error _ => []

/-- What was printed is told from reports by its topic. -/
theorem printed_of_effects {m : Machine} {printed reports : List String}
    (h : m.effects = Records.outputs printed ++ Records.notes reports) : m.printed = printed := by
  have houtputs : (printed.map (Effect.mk .stdout)).filter (·.topic = .stdout) =
      printed.map (Effect.mk .stdout) := by simp
  have hnotes : (reports.map (Effect.mk .stderr)).filter (·.topic = .stdout) = [] := by simp
  simp only [Machine.printed, h, Records.outputs, Records.notes, Array.toList_append,
    List.filter_append, houtputs, hnotes]
  simp [Function.comp_def]

theorem accounts_of_effects {evaluation : Outcome Ref} {done : Except RunFault RunResult × Runner}
    {m : Machine} {printed : List String} (hm : evaluation.machine? = some m)
    (hprinted : m.effects = Records.outputs printed)
    (h : done.2.machine.effects = m.effects ++ Records.notes (reports done.1)) :
    Accounts evaluation done := by
  obtain ⟨result | result, r⟩ := done
  · trivial
  · refine ⟨m, hm, ?_, h⟩
    rw [printed_of_effects (h.trans (congrArg (· ++ _) hprinted))]
    exact hprinted

/-- Evaluation that starts without effects ends with what it has printed. -/
theorem effects_evaluateProgram (limits : Limits) (program : List Expr) {m m' : Machine}
    (hm : m.effects = #[]) (hend : (evaluateProgram limits program m).machine? = some m') :
    ∃ printed, m'.effects = Records.outputs printed := by
  obtain ⟨printed, lines, -, hadds⟩ := Run.appends_evaluateProgram limits program m
  have hsame := hadds m.records
  rw [Machine.withRecords_records] at hsame
  refine ⟨printed, ?_⟩
  rw [hsame] at hend
  cases h : evaluateProgram limits program m <;> rw [h] at hend <;> cases hend <;>
    simp [Machine.withRecords, Machine.records, Records.add, hm]

/-- A run that ends, reported or not, has recorded its report behind what was there. -/
theorem effects_conclude (r : Runner) {o : Outcome Ref} {m : Machine} (ho : o.machine? = some m) :
    (r.conclude o).2.machine.effects = m.effects ++ Records.notes (reports (r.conclude o).1) := by
  cases o with
  | done v m' =>
    cases ho
    simp [conclude, reports, Records.notes]
  | failed fault m' =>
    cases ho
    unfold conclude
    cases hreport : report r.limits m fault with
    | ok text => simp [hreport, record, reports, Records.notes]
    | error e => simp [hreport, reports, Records.notes]
  | exhausted => cases ho

theorem accounts_run (r : Runner) (program : List Expr) :
    Accounts (evaluateProgram r.limits program (started r.machine)) (r.run program) := by
  rw [run_eq]
  cases hend : (evaluateProgram r.limits program (started r.machine)).machine? with
  | some m =>
    obtain ⟨printed, hprinted⟩ := effects_evaluateProgram r.limits program rfl hend
    exact accounts_of_effects hend hprinted (effects_conclude r hend)
  | none =>
    cases h : evaluateProgram r.limits program (started r.machine) <;> rw [h] at hend <;> cases hend
    trivial

theorem accounts_runDocument (r : Runner) (text : String) (format : Option String) :
    Accounts (evaluateProgram r.limits (r.programOf text format) (started r.machine))
      (r.runDocument text format) := by
  unfold runDocument programOf
  dsimp only
  cases loadProgram text format r.origin r.nans r.limits.documents with
  | ok loaded => exact accounts_run _ _
  | error fault =>
    dsimp only
    split
    · have hprinted : (started r.machine).effects = Records.outputs [] := rfl
      exact accounts_of_effects rfl hprinted rfl
    · trivial

/-- Running is compositional: the parts of a program may be run one after the other. And whatever
has a result accounts for what its evaluation has printed, and for the report. -/
theorem runs_compose :
    (∀ (r : Runner) (p : List Expr) (e : Expr) (q : List Expr), r.RunsInParts p e q) ∧
    (∀ (r : Runner) (program : List Expr),
      Accounts (evaluateProgram r.limits program (started r.machine)) (r.run program)) ∧
    ∀ (r : Runner) (text : String) (format : Option String),
      Accounts (evaluateProgram r.limits (r.programOf text format) (started r.machine))
        (r.runDocument text format) :=
  ⟨runsInParts, accounts_run, accounts_runDocument⟩

end Runner

end TreeScript
