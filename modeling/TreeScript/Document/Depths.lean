/-!
# Depths

Documents are read, converted to code and written on the stack of the host. How
deep they may be nested depends on how many calls one level takes.
-/

namespace TreeScript

/-- How deep the host reads, converts and writes. -/
structure Depths where
  /-- How many arrays and objects may be inside each other in JSON that is read. -/
  json : Nat
  /-- How many collections may be inside each other in YAML that is read. -/
  yaml : Nat
  /-- How many calls there is room for where data is converted to code. -/
  calls : Nat
  /-- How many lists may be inside each other in a value that is converted to data. -/
  exported : Nat
  /-- How many lists may be inside each other in YAML that is written. -/
  dumped : Nat
  calls_pos : 0 < calls
  deriving Repr, DecidableEq

def Depths.standard : Depths where
  json := 980
  yaml := 480
  calls := 980
  exported := 490
  dumped := 320
  calls_pos := by decide

end TreeScript
