/-!
# Paths

Paths in the form in which they are shown: without empty and single-point
parts. Two leading slashes are kept, more of them count as one.
-/

namespace TreeScript.CommandLine

/-- The parts of a path that matter. -/
def pathParts (path : String) : List String :=
  (path.splitOn "/").filter fun part => part ≠ "" ∧ part ≠ "."

def pathRoot (path : String) : String :=
  match path.toList with
  | ['/', '/'] => "//"
  | '/' :: '/' :: c :: _ => if c = '/' then "/" else "//"
  | '/' :: _ => "/"
  | _ => ""

/-- The path as it is shown. -/
def shownPath (path : String) : String :=
  let shown := pathRoot path ++ String.intercalate "/" (pathParts path)
  if shown = "" then "." else shown

/-- The last part of a path. -/
def fileName (path : String) : String := (pathParts path).getLast?.getD ""

end TreeScript.CommandLine
