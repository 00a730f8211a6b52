import TreeScript.CommandLine.Arguments
import TreeScript.CommandLine.Path
import TreeScript.Runner

/-!
# One use of the command

The command reads a document, runs it and prints what the program printed, and
on request the value of its last expression. A report of a fault goes to the
error output and makes the command fail.
-/

namespace TreeScript.CommandLine

/-- What the command leaves behind. -/
structure Report where
  exitCode : Nat
  output : String
  errors : String
  deriving Repr, DecidableEq

/-- Why the command breaks off without a report. -/
inductive Crash where
  | undecodable (fault : Text.Utf8.Fault)
  | run (fault : RunFault)

/-- Reads all kinds of line breaks as line feeds. -/
def unifyBreaks : List Char → List Char
  | [] => []
  | '\r' :: '\n' :: rest => '\n' :: unifyBreaks rest
  | c :: rest => (if c = '\r' then '\n' else c) :: unifyBreaks rest

def missingFile (path : String) : Report :=
  ⟨1, "", s!"Error: file {shownPath path} not found\n"⟩

def lines (texts : List String) : String := String.join (texts.map (· ++ "\n"))

/-- Runs the text of a document. -/
def runText (path text : String) (o : Options) : Except Crash Report :=
  let runner := { Runner.new true (0 < o.traces) with origin := fileName path }
  let format := o.format.orElse fun _ => (Format.detect (some (shownPath path)) (some text)).map (·.name)
  let (result, runner) := runner.runDocument text format
  let m := runner.machine
  let output := lines m.printed
  let traced := lines m.traced.toList
  match result with
  | .error fault => .error (.run fault)
  | .ok (.success value) =>
    if o.printResult then
      match m.heap.printed? value runner.limits.printed with
      | some text => .ok ⟨0, output ++ text ++ "\n", traced⟩
      | none => .error (.run .unprintable)
    else .ok ⟨0, output, traced⟩
  | .ok (.failure _ report) | .ok (.rejected _ report) =>
    .ok ⟨1, output, traced ++ report ++ "\n"⟩

/-- Runs the document in the bytes of a file. -/
def runFile (path : String) (content : List UInt8) (o : Options) : Except Crash Report :=
  match Text.Utf8.decodeStrict content with
  | .error fault => .error (.undecodable fault)
  | .ok text => runText path (String.ofList (unifyBreaks text.toList)) o

end TreeScript.CommandLine
