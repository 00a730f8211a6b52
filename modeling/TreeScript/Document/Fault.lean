import TreeScript.Data.Written

/-!
# Faults of program documents

Why decoded data is no program. Each fault keeps what it is about; its message
shows that as written data, and if that has no written form the message says so.
-/

namespace TreeScript

/-- The name of a kind of data in messages. -/
def Data.kindName : Data → String
  | .null => "NoneType"
  | .boolean _ => "bool"
  | .integer _ => "int"
  | .float _ _ => "float"
  | .text _ => "str"
  | .list _ => "list"
  | .mapping _ => "dict"
  | .bytes _ => "bytes"
  | .date _ => "date"
  | .moment _ => "datetime"
  | .tuple _ => "tuple"
  | .set _ => "set"
  | .part _ isMapping => if isMapping then "dict" else "list"

inductive BuildFault where
  | badLine (line : Data)
  | badOrigin (origin : Data)
  | missingField (kind : Data) (field : String)
  | notANumber (kind : Data) (field : String) (value : Data)
  | notAScalar (kind : Data) (field : String) (value : Data)
  | notAList (field : String) (value : Data)
  | notNodes (value : Data)
  | notAnExpression (value : Data)
  | badTarget
  | badFunctionName (name : Data)
  | nodeWithoutKind (node : Data)
  | unknownNode (kind : Data)
  | notAPattern (value : Data)
  | patternWithoutKind (pattern : Data)
  | unknownPattern (kind : Data)
  /-- An integer without a written form where text is needed. -/
  | tooManyDigits
  /-- An integer beyond the range of numbers. -/
  | integerTooLarge
  /-- The stack of the host ended before the document did. -/
  | tooDeep
  deriving Inhabited

namespace BuildFault

/-- The data that the message of a fault shows. -/
def shown : BuildFault → List Data
  | .badLine d | .badOrigin d | .notAnExpression d | .badFunctionName d | .nodeWithoutKind d
  | .unknownNode d | .notAPattern d | .patternWithoutKind d | .unknownPattern d => [d]
  | .missingField kind _ => [kind]
  | .notANumber kind _ value | .notAScalar kind _ value => [kind, value]
  | .notAList _ _ | .notNodes _ | .badTarget | .tooManyDigits | .integerTooLarge | .tooDeep => []

/-- The fault with its shown data as a function gives it. -/
def mapShown? (f : Data → Option Data) : BuildFault → Option BuildFault
  | .badLine line => (f line).map .badLine
  | .badOrigin origin => (f origin).map .badOrigin
  | .missingField kind field => (f kind).map (.missingField · field)
  | .notANumber kind field value => do return .notANumber (← f kind) field (← f value)
  | .notAScalar kind field value => do return .notAScalar (← f kind) field (← f value)
  | .notAnExpression value => (f value).map .notAnExpression
  | .badFunctionName name => (f name).map .badFunctionName
  | .nodeWithoutKind node => (f node).map .nodeWithoutKind
  | .unknownNode kind => (f kind).map .unknownNode
  | .notAPattern value => (f value).map .notAPattern
  | .patternWithoutKind pattern => (f pattern).map .patternWithoutKind
  | .unknownPattern kind => (f kind).map .unknownPattern
  | fault => some fault

def wording : BuildFault → String
  | .badLine line => s!"line must be an integer, got {line.written}"
  | .badOrigin origin => s!"origin must be a string, got {origin.written}"
  | .missingField kind field => s!"{kind.written} node is missing {Text.quoted field}"
  | .notANumber kind field value =>
    s!"{kind.written} node has a non-numeric {Text.quoted field}: {value.written}"
  | .notAScalar kind field value =>
    s!"{kind.written} node has a non-scalar {Text.quoted field}: {value.written}"
  | .notAList field value => s!"{Text.quoted field} must be a list, got {value.kindName}"
  | .notNodes value => s!"expected a list of nodes, got {value.kindName}"
  | .notAnExpression value => s!"cannot build an expression from {value.written}"
  | .badTarget => "assignment target must be a name or member"
  | .badFunctionName name => s!"function name must be a string, got {name.written}"
  | .nodeWithoutKind node => s!"node mapping without a 'node' kind: {node.written}"
  | .unknownNode kind => s!"unknown node kind {kind.written}"
  | .notAPattern value => s!"cannot build a parameter pattern from {value.written}"
  | .patternWithoutKind pattern => s!"pattern mapping without a 'pattern' kind: {pattern.written}"
  | .unknownPattern kind => s!"unknown pattern kind {kind.written}"
  | .tooManyDigits => Text.tooManyDigits
  | .integerTooLarge => "int too large to convert to float"
  | .tooDeep => "maximum recursion depth exceeded"

def message (f : BuildFault) : String :=
  if f.shown.all Data.isWritable then f.wording else Text.tooManyDigits

end BuildFault

end TreeScript
