import TreeScript.CommandLine.Session
import TreeScript.Proofs.Records

/-!
# Tracing

Tracing is inert. With tracing on or off, and whatever has been traced before, a
program runs alike and is reported alike, and the command prints the same and
exits alike. The only difference is in the lines of the trace: none if tracing is
off, and otherwise lines in which the bodies of functions begin and end properly
inside each other, however the run ends.
-/

namespace TreeScript

/-! ## Traces apart from the rest -/

/-- The same machine with another trace. -/
def Machine.withTrace (m : Machine) (tracing : Bool) (traced : Array String) : Machine :=
  { m with tracing, traced }

/-- The same end on a machine with another trace. -/
def Outcome.withTrace {α : Type} (o : Outcome α) (tracing : Bool) (traced : Array String) :
    Outcome α :=
  match o with
  | .done a m => .done a (m.withTrace tracing traced)
  | .failed e m => .failed e (m.withTrace tracing traced)
  | .exhausted => .exhausted

/-- The same runner with another trace. -/
def Runner.withTrace (r : Runner) (tracing : Bool) (traced : Array String) : Runner :=
  { r with machine := r.machine.withTrace tracing traced }

@[simp] theorem Runner.withTrace_withTrace (r : Runner) (tracing tracing' : Bool)
    (traced traced' : Array String) :
    (r.withTrace tracing traced).withTrace tracing' traced' = r.withTrace tracing' traced' := rfl

namespace Run

variable {α : Type}

/-- Whatever the trace and whether it is kept, a computation ends alike, and if the trace is kept, it
goes on with lines in which bodies are nested. -/
def TracesInertly (x : Run α) : Prop :=
  ∀ m : Machine, ∃ lines : List String, Nested lines ∧
    ∀ tracing traced, x (m.withTrace tracing traced) =
      (x m).withTrace tracing (keptLines tracing traced lines)

theorem Appends.tracesInertly {x : Run α} (hx : Appends x) : TracesInertly x := by
  intro m
  obtain ⟨printed, lines, hlines, hadds⟩ := hx m
  refine ⟨lines, hlines, fun tracing traced => ?_⟩
  have hown := hadds m.records
  rw [Machine.withRecords_records] at hown
  calc x (m.withTrace tracing traced)
      = (x m).withRecords (Records.add ⟨m.effects, tracing, traced⟩ printed lines) :=
        hadds ⟨m.effects, tracing, traced⟩
    _ = ((x m).withRecords (m.records.add printed lines)).withTrace tracing
          (keptLines tracing traced lines) := by cases x m <;> rfl
    _ = (x m).withTrace tracing (keptLines tracing traced lines) := by rw [← hown]

end Run

namespace Runner

/-- Whatever the trace and whether it is kept, a run has the same result and leaves the same runner,
and if the trace is kept, it goes on with lines in which bodies are nested. -/
def TracesInertly (run : Runner → Except RunFault RunResult × Runner) : Prop :=
  ∀ r : Runner, ∃ lines : List String, Run.Nested lines ∧
    ∀ tracing traced, run (r.withTrace tracing traced) =
      ((run r).1, (run r).2.withTrace tracing (keptLines tracing traced lines))

theorem conclude_withTrace (r : Runner) (tracing : Bool) (traced traced' : Array String)
    {o : Outcome Ref} (ho : o ≠ .exhausted) :
    (r.withTrace tracing traced).conclude (o.withTrace tracing traced') =
      ((r.conclude o).1, (r.conclude o).2.withTrace tracing traced') := by
  cases o with
  | done v m => rfl
  | failed fault m =>
    have hlimits : (r.withTrace tracing traced).limits = r.limits := rfl
    have hreport : report r.limits (m.withTrace tracing traced') fault = report r.limits m fault := rfl
    simp only [Outcome.withTrace, conclude, hlimits, hreport]
    cases report r.limits m fault <;> rfl
  | exhausted => exact absurd rfl ho

theorem tracesInertly_run (program : List Expr) : TracesInertly (·.run program) := by
  intro r
  obtain ⟨lines, hlines, htrace⟩ :=
    (Run.appends_evaluateProgram r.limits program).tracesInertly (started r.machine)
  have hrun (tracing : Bool) (traced : Array String) : (r.withTrace tracing traced).run program =
      (r.withTrace tracing traced).conclude ((evaluateProgram r.limits program
        (started r.machine)).withTrace tracing (keptLines tracing traced lines)) :=
    congrArg (r.withTrace tracing traced).conclude (htrace tracing traced)
  by_cases hend : evaluateProgram r.limits program (started r.machine) = .exhausted
  · -- nothing is left of a run without an end
    refine ⟨[], .nil, fun tracing traced => ?_⟩
    dsimp only
    rw [hrun, run_eq, hend, keptLines_nil]
    rfl
  · refine ⟨lines, hlines, fun tracing traced => ?_⟩
    dsimp only
    rw [hrun, conclude_withTrace r _ _ _ hend, run_eq]

theorem tracesInertly_runDocument (text : String) (format : Option String) :
    TracesInertly (·.runDocument text format) := by
  intro r
  unfold runDocument
  cases hload : loadProgram text format r.origin r.nans r.limits.documents with
  | ok loaded =>
    obtain ⟨program, nans⟩ := loaded
    obtain ⟨lines, hlines, htrace⟩ :=
      tracesInertly_run program { r with machine := { r.machine with effects := #[] }, nans }
    refine ⟨lines, hlines, fun tracing traced => ?_⟩
    have hload' : loadProgram text format (r.withTrace tracing traced).origin
        (r.withTrace tracing traced).nans (r.withTrace tracing traced).limits.documents =
          .ok (program, nans) := hload
    simp only [hload, hload']
    exact htrace tracing traced
  | error fault =>
    refine ⟨[], .nil, fun tracing traced => ?_⟩
    have hload' : loadProgram text format (r.withTrace tracing traced).origin
        (r.withTrace tracing traced).nans (r.withTrace tracing traced).limits.documents =
          .error fault := hload
    simp only [hload, hload', keptLines_nil]
    split <;> rfl

theorem new_eq_withTrace (library tracing : Bool) :
    new library tracing = (new library false).withTrace tracing #[] := by
  cases library <;> cases tracing <;> rfl

end Runner

namespace CommandLine

/-- The run that the command makes of the text of a document. -/
def session (path text : String) (o : Options) : Except RunFault RunResult × Runner :=
  let runner := { Runner.new true (0 < o.traces) with origin := fileName path }
  let format := o.format.orElse fun _ =>
    (Format.detect (some (shownPath path)) (some text)).map (·.name)
  runner.runDocument text format

/-- What the command leaves behind of a run. -/
def reportOf (printResult : Bool) : Except RunFault RunResult × Runner → Except Crash Report
  | (.error fault, _) => .error (.run fault)
  | (.ok (.success value), r) =>
    if printResult then
      match r.machine.heap.printed? value r.limits.printed with
      | some text =>
        .ok ⟨0, lines r.machine.printed ++ text ++ "\n", lines r.machine.traced.toList⟩
      | none => .error (.run .unprintable)
    else .ok ⟨0, lines r.machine.printed, lines r.machine.traced.toList⟩
  | (.ok (.failure _ report), r) | (.ok (.rejected _ report), r) =>
    .ok ⟨1, lines r.machine.printed, lines r.machine.traced.toList ++ report ++ "\n"⟩

theorem runText_eq (path text : String) (o : Options) :
    runText path text o = reportOf o.printResult (session path text o) := by
  unfold runText reportOf session
  dsimp only
  generalize Runner.runDocument _ _ _ = done
  obtain ⟨(fault | (value | ⟨fault, report⟩ | ⟨fault, report⟩)), r⟩ := done <;> rfl

/-- What the program in the bytes of a file prints, also if the command breaks off after it. -/
def programOutput (path : String) (content : List UInt8) (o : Options) : List String :=
  match Text.Utf8.decodeStrict content with
  | .error _ => []
  | .ok text => (session path (String.ofList (unifyBreaks text.toList)) o).2.machine.printed

/-- The same report with a trace before what it says of errors. -/
def Report.afterTrace (r : Report) (traced : List String) : Report :=
  { r with errors := lines traced ++ r.errors }

theorem reportOf_withTrace (printResult : Bool) (result : Except RunFault RunResult) (r : Runner)
    (tracing : Bool) (traced : List String) :
    reportOf printResult (result, r.withTrace tracing traced.toArray) =
      (reportOf printResult (result, r.withTrace false #[])).map (·.afterTrace traced) := by
  have hprinted (tracing : Bool) (traced : Array String) :
      (r.withTrace tracing traced).machine.printed = r.machine.printed := rfl
  have hheap (tracing : Bool) (traced : Array String) :
      (r.withTrace tracing traced).machine.heap = r.machine.heap := rfl
  have hlimits (tracing : Bool) (traced : Array String) :
      (r.withTrace tracing traced).limits = r.limits := rfl
  have htraced (tracing : Bool) (traced : Array String) :
      (r.withTrace tracing traced).machine.traced = traced := rfl
  have hnone : lines [] = "" := rfl
  rcases result with fault | value | ⟨fault, report⟩ | ⟨fault, report⟩
  · rfl
  · simp only [reportOf, hprinted, hheap, hlimits, htraced]
    cases printResult with
    | false => simp [Except.map, Report.afterTrace, hnone]
    | true =>
      cases r.machine.heap.printed? value r.limits.printed <;>
        simp [Except.map, Report.afterTrace, hnone]
  · simp [reportOf, hprinted, htraced, Except.map, Report.afterTrace, hnone, String.append_assoc]
  · simp [reportOf, hprinted, htraced, Except.map, Report.afterTrace, hnone, String.append_assoc]

/-- The command runs a document alike however often tracing is asked for. -/
theorem session_traces (path text : String) (o : Options) :
    ∃ texts : List String, Run.Nested texts ∧ ∀ traces : Nat,
      let quiet := session path text { o with traces := 0 }
      session path text { o with traces } =
        (quiet.1, quiet.2.withTrace (0 < traces) (if 0 < traces then texts else []).toArray) := by
  let format := o.format.orElse fun _ =>
    (Format.detect (some (shownPath path)) (some text)).map (·.name)
  let quiet : Runner := { Runner.new true false with origin := fileName path }
  have hrunner (tracing : Bool) : { Runner.new true tracing with origin := fileName path } =
      quiet.withTrace tracing #[] := by
    rw [Runner.new_eq_withTrace]
    rfl
  obtain ⟨texts, htexts, htrace⟩ := Runner.tracesInertly_runDocument text format quiet
  have hsession (traces : Nat) : session path text { o with traces } =
      (quiet.withTrace (0 < traces) #[]).runDocument text format := by
    rw [← hrunner]
    rfl
  refine ⟨texts, htexts, fun traces => ?_⟩
  dsimp only at htrace ⊢
  rw [hsession, hsession, htrace, htrace]
  by_cases h : 0 < traces <;> simp [h, keptLines]

/-- However often tracing is asked for, the command breaks off alike or leaves the same behind, but
for lines in which bodies are nested, before what it says of errors; without tracing there are none. -/
def TracesInertly (path : String) (content : List UInt8) (o : Options) : Prop :=
  ∃ texts : List String, Run.Nested texts ∧ ∀ traces : Nat,
    runFile path content { o with traces } =
      (runFile path content { o with traces := 0 }).map
        (·.afterTrace (if 0 < traces then texts else [])) ∧
    programOutput path content { o with traces } = programOutput path content { o with traces := 0 }

theorem tracesInertly_runFile (path : String) (content : List UInt8) (o : Options) :
    TracesInertly path content o := by
  unfold TracesInertly runFile programOutput
  cases Text.Utf8.decodeStrict content with
  | error fault => exact ⟨[], .nil, fun traces => ⟨rfl, rfl⟩⟩
  | ok text =>
    obtain ⟨texts, htexts, hsession⟩ := session_traces path (String.ofList (unifyBreaks text.toList)) o
    refine ⟨texts, htexts, fun traces => ?_⟩
    dsimp only at hsession ⊢
    rw [runText_eq, runText_eq, hsession traces]
    refine ⟨?_, rfl⟩
    rw [reportOf_withTrace]
    exact congrArg (fun done => (reportOf o.printResult done).map _) (hsession 0).symm

end CommandLine

end TreeScript
