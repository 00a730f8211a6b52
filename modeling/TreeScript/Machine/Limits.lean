import TreeScript.Document.Depths
import TreeScript.Machine.Basic

/-!
# Limits

Evaluations nest on the stack of the host, and what they do by the way needs
room on it too: a line of the trace, the comparison of two lists, the display
of one. How much room there is depends on how many levels of evaluation are
left. The line on the frame of a function that is entered is written one call
deeper than the others, so it may be the first thing that does not fit.
-/

namespace TreeScript

/-- What there is room for where some levels of evaluation are left. -/
structure Room where
  /-- Lines of the trace, also those that are not written since nothing is traced. -/
  line : Bool
  /-- The line on a function that is entered. -/
  entry : Bool
  /-- How deep lists, and the code of functions, may be nested in values that are compared. -/
  compared : Nat
  /-- How deep lists may be nested in a value that is displayed. -/
  shown : Nat
  deriving Repr, DecidableEq

/-- How deep evaluations may nest, how many rounds one loop may take, and what else there is
room for. From outside there is room for every line of the trace. -/
structure Limits where
  nesting : Nat
  rounds : Nat
  /-- How many levels must be left for the line on a function that is entered. -/
  entry : Nat
  compared : Nat → Nat
  shown : Nat → Nat
  /-- How deep lists and instances may be nested in an argument that a report prints. -/
  printed : Nat
  documents : Depths
  nesting_pos : 0 < nesting
  entry_le : entry ≤ nesting

namespace Limits

def standard : Limits where
  nesting := 400
  rounds := 1000000000
  entry := 2
  compared levels := levels * 5 / 6
  shown levels := levels * 3 / 4
  printed := 300
  documents := .standard
  nesting_pos := by decide
  entry_le := by decide

/-- What there is room for where so many levels are left. A line of the trace takes no more room
than a level of evaluation does. -/
def room (limits : Limits) (levels : Nat) : Room where
  line := decide (0 < levels)
  entry := decide (limits.entry ≤ levels)
  compared := limits.compared levels
  shown := limits.shown levels

end Limits

/-- A way to evaluate expressions, and what there is room for beside it. -/
structure Evaluator where
  run : Expr → Run Ref
  room : Room

instance : CoeFun Evaluator fun _ => Expr → Run Ref := ⟨Evaluator.run⟩

end TreeScript
