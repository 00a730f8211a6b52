/-!
# Ranges of code points

Character classes beyond ASCII are lists of closed ranges of code points,
ascending and apart.
-/

namespace TreeScript.Text

def inRanges (ranges : List (Nat × Nat)) (n : Nat) : Bool :=
  ranges.any fun r => r.1 ≤ n && n ≤ r.2

end TreeScript.Text
