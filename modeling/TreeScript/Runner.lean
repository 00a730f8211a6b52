import TreeScript.Document.Load
import TreeScript.Machine.Eval
import TreeScript.Value.Printed

/-!
# Running programs

A runner keeps a machine between programs. A run starts with no recorded side
effects and no calls left over, evaluates the program's expressions in order,
and ends with the value of the last one or with a report of the fault. The
report is also recorded as the last side effect.
-/

namespace TreeScript

structure Runner where
  machine : Machine
  /-- The origin of nodes that have a line and name no origin. -/
  origin : String := "<document>"
  /-- How many NaNs have been spelled as text so far. -/
  nans : Nat := 0
  limits : Limits := .standard

/-- How a run ends. -/
inductive RunResult where
  | success (value : Ref)
  | failure (fault : Fault) (report : String)
  | rejected (fault : DocumentFault) (report : String)

/-- Why a run ends without a result. -/
inductive RunFault where
  /-- The document could not be converted, though it is not invalid. -/
  | document (fault : DocumentFault)
  /-- The place of a fault has no written form. -/
  | placeUnwritable
  /-- An argument of a call that the report lists has no printed form. -/
  | unprintable
  /-- A loop went on for too many rounds. -/
  | exhausted

namespace Runner

/-! ## Starting -/

/-- The built-in functions with one argument, by name in alphabetical order. -/
def intrinsics : List (String × Intrinsic) :=
  [("len", .len), ("number", .number), ("print", .print), ("str", .str), ("type", .type)]

def defineBuiltin (m : Machine) (name : String) (value : Ref) : Machine :=
  { m with scope := m.scope.define name value }

def defineNative (m : Machine) (name : String) (arity : Option Nat) (code : Intrinsic) :
    Ref × Machine :=
  let (r, heap) := m.heap.alloc (.native name arity code)
  (r, defineBuiltin { m with heap } name r)

/-- A machine with the built-in classes, and perhaps functions, bound in the global frame. -/
def startingMachine (library tracing : Bool) : Machine :=
  let m := BuiltinClass.all.foldl (fun m c => defineBuiltin m c.name c.ref) (Machine.bare tracing)
  let functions := if library then intrinsics else []
  functions.foldl (fun m entry => (defineNative m entry.1 (some 1) entry.2).2) m

def new (library tracing : Bool) : Runner := { machine := startingMachine library tracing }

/-! ## Reports -/

/-- How many calls the report of a fault lists at most. -/
def listedCalls : Nat := 20

/-- The last items of a list, as many as a report lists. -/
def lastCalls {α : Type} (calls : List α) : List α := calls.drop (calls.length - listedCalls)

/-- A call with its printed arguments, unless one of them has no printed form. -/
def callText? (limits : Limits) (h : Heap) (c : Call) : Option String := do
  let args ← c.args.mapM (h.printed? · limits.printed)
  return "(" ++ String.intercalate " " (c.name :: args) ++ ")"

/-- The line that lists the calls under way, outermost first, if there are any. -/
def callsLine? (limits : Limits) (m : Machine) : Option String :=
  if m.calls.isEmpty then some ""
  else do
    let calls ← (lastCalls m.calls).mapM (callText? limits m.heap)
    let mark := if listedCalls < m.calls.length then ["..."] else []
    return "\nLingua stacktrace: " ++ String.intercalate " " (mark ++ calls)

/-- The line that names a place, if there is one. -/
def placeLine : Option Loc → String
  | some loc => s!"\n(line {loc.line}, {loc.origin})"
  | none => ""

/-- The report of a fault: what it is, where it arose, and in which calls. -/
def report (limits : Limits) (m : Machine) (fault : Fault) : Except RunFault String :=
  if m.place.all (·.isWritable) then
    match callsLine? limits m with
    | some calls => .ok (fault.summary ++ placeLine m.place ++ calls)
    | none => .error .unprintable
  else .error .placeUnwritable

/-- What is shown of a run's end: nothing of a success, and of a failure its report, if there is one. -/
def shownReport (failed : Bool) (report : Option String) : String :=
  if !failed then ""
  else match report with
    | none | some "" => "Unknown error"
    | some text => text

def record (m : Machine) (report : String) : Machine :=
  { m with effects := m.effects.push ⟨.stderr, report⟩ }

/-! ## Running -/

/-- Evaluates a program's expressions in order, without reporting faults. -/
def evaluateProgram (limits : Limits) (program : List Expr) : Run Ref :=
  Run.evaluateLast (Run.evaluate limits) Heap.nullRef program

def run (r : Runner) (program : List Expr) : Except RunFault RunResult × Runner :=
  let start := { r.machine with effects := #[], calls := [] }
  match evaluateProgram r.limits program start with
  | .done v m => (.ok (.success v), { r with machine := m })
  | .failed fault m =>
    match report r.limits m fault with
    | .ok text => (.ok (.failure fault text), { r with machine := record m text })
    | .error e => (.error e, { r with machine := m })
  | .exhausted => (.error .exhausted, r)

/-- Loads a document and runs its program. -/
def runDocument (r : Runner) (text : String) (format : Option String) :
    Except RunFault RunResult × Runner :=
  let m := { r.machine with effects := #[] }
  match loadProgram text format r.origin r.nans r.limits.documents with
  | .ok (program, nans) => run { r with machine := m, nans } program
  | .error fault =>
    if fault.kind = .invalid then
      let report := s!"DocumentError: {fault.message}"
      (.ok (.rejected fault report), { r with machine := record m report })
    else (.error (.document fault), { r with machine := m })

end Runner

end TreeScript
