import TreeScript.CommandLine.Session

/-!
# The command

Reads the arguments and the document, and writes what the session leaves behind.
-/

open TreeScript CommandLine

/-- Writes a report and gives its exit code. -/
def writeReport (r : Report) : IO UInt32 := do
  (← IO.getStdout).putStr r.output
  (← IO.getStderr).putStr r.errors
  return UInt32.ofNat r.exitCode

def crashMessage : Crash → String
  | .undecodable fault => fault.message
  | .run (.document fault) => fault.message
  | .run .placeUnwritable => Text.tooManyDigits
  | .run .unprintable => "a value is nested too deep to be printed"
  | .run .exhausted => "a loop went on for too long"

/-- Runs the document at a path. -/
def runPath (path : String) (options : Options) : IO UInt32 := do
  let content ← try
      let bytes ← IO.FS.readBinFile path
      pure (some bytes)
    catch
      | .noFileOrDirectory _ _ _ => pure none
      | e => throw e
  match content with
  | none => writeReport (missingFile path)
  | some bytes =>
    match runFile path bytes.toList options with
    | .ok report => writeReport report
    | .error crash => throw (IO.userError (crashMessage crash))

def main (arguments : List String) : IO UInt32 := do
  match Request.ofArguments arguments with
  | .help => writeReport ⟨0, helpText, ""⟩
  | .fault fault => writeReport ⟨2, "", fault.report⟩
  | .run document options => runPath document options
