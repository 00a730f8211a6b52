import TreeScript.Document.Build
import TreeScript.Document.Decode

/-!
# Programs of documents

Loading a document decodes it and builds the program that it describes. Most
faults make the document invalid, which a run reports like a failed program.
The others are failures of the conversion itself and end the run without a
result.
-/

namespace TreeScript

inductive DocumentFault where
  | decoding (fault : DecodeFault)
  | building (fault : BuildFault)

/-- What kind of failure a fault of a document is. -/
inductive DocumentFault.Kind where
  | invalid
  | overflow
  | missingKey
  | emptyText
  | noMatch
  /-- The stack of the host ended before the document did. -/
  | endless
  deriving Repr, DecidableEq

namespace DocumentFault

def kind : DocumentFault → Kind
  | .building .integerTooLarge => .overflow
  | .building .tooDeep => .endless
  | .building _ => .invalid
  | .decoding (.yaml fault) =>
    match fault with
    | .floatTooLarge | .hugeCodePoint => .overflow
    | .badBoolean _ => .missingKey
    | .emptyNumber => .emptyText
    | .badTime => .noMatch
    | .tooDeep => .endless
    | _ => .invalid
  | .decoding (.json .tooDeep) => .endless
  | .decoding _ => .invalid

def message : DocumentFault → String
  | .decoding fault => fault.message
  | .building fault => fault.message

end DocumentFault

/-- The program of a document, and how many NaNs have been spelled as text by then. -/
def loadProgram (text : String) (format : Option String) (origin : String) (nans : Nat)
    (depths : Depths := .standard) : Except DocumentFault (List Expr × Nat) := do
  let document ← (readDocument text format none depths).mapError .decoding
  ((Build.program origin document.root document.parts depths.calls).run nans).mapError .building

end TreeScript
