import TreeScript.Data
import TreeScript.Value.Display

/-!
# Values as data

The plain data that a value stands for: whole numbers as integers, other
numbers, texts, truth values, null and lists as they are, and any other value
as its displayed form. Lists are converted item by item on the stack of the
host, so a value that is nested too deep is not converted.
-/

namespace TreeScript

namespace Heap

def toData (h : Heap) (r : Ref) : Data :=
  match h.payload r with
  | .null => .null
  | .boolean b => .boolean b
  | .number x =>
    match Decimal.integer? x with
    | some i => .integer i
    | none => .float x .json
  | .string s => .text s
  | .list items => .list (items.map fun i => if _h : i < r then h.toData i else .null)
  | _ => .text (h.display r)
termination_by r

/-- The data of a value that is nested no deeper than there is room for. -/
def toData? (h : Heap) (room : Nat) (r : Ref) : Option Data :=
  if h.depth r ≤ room then some (h.toData r) else none

end Heap

end TreeScript
