import TreeScript.Scope
import TreeScript.Template.Render
import TreeScript.Text.Integer

/-!
# Faults of evaluation

An evaluation that does not give a value ends in a fault. Most faults are
complaints of the language itself; a complaint is reported with the names of
the calls under way. The others come from arithmetic, from templates, from a
misused scope stack, from places that cannot be shown, and from nesting too deep.
-/

namespace TreeScript

/-- What the language objects to. -/
inductive Complaint where
  | notCallable (shown : String)
  | cannotInstantiate (cls : String)
  | functionArity (name : String)
  | classArity (name : String)
  | argument (function : String)
  | noOverload (function : String)
  | wrongType
  | indexOutOfBounds
  | notANumber (text : String)
  | unboundVariable (name : String)
  | unboundMember (name shown : String)
  | unknownOperator (symbol : String)
  | invalidTarget
  | notEvaluable (kind : String)
  deriving Repr, DecidableEq

inductive ComplaintKind where
  | call
  | name
  | operation
  deriving Repr, DecidableEq

def ComplaintKind.text : ComplaintKind → String
  | .call => "CallException"
  | .name => "NameError"
  | .operation => "InvalidOperationException"

namespace Complaint

def kind : Complaint → ComplaintKind
  | .unboundVariable _ | .unboundMember _ _ => .name
  | .unknownOperator _ | .invalidTarget | .notEvaluable _ => .operation
  | _ => .call

def message : Complaint → String
  | .notCallable shown => s!"{shown} is not callable"
  | .cannotInstantiate cls => s!"cannot instantiate class {cls}"
  | .functionArity name => s!"invalid number of arguments for function {name}"
  | .classArity name => s!"invalid number of arguments for class {name}"
  | .argument function => s!"invalid argument for function {function}"
  | .noOverload function => s!"invalid arguments for function {function}"
  | .wrongType => "invalid type"
  | .indexOutOfBounds => "index out of bounds"
  | .notANumber text => s!"cannot convert {Text.quoted text} to a number"
  | .unboundVariable name => s!"undefined variable {name}"
  | .unboundMember name shown => s!"undefined member {name} on {shown}"
  | .unknownOperator symbol => s!"invalid operator {symbol}"
  | .invalidTarget => "invalid assignment target"
  | .notEvaluable kind => s!"cannot evaluate {kind}"

end Complaint

inductive Fault where
  /-- A complaint with the names of the calls under way, outermost first. -/
  | complaint (complaint : Complaint) (trace : List String)
  | divisionByZero
  /-- A power that is no real number, or of zero to a negative exponent. -/
  | powerUndefined
  | powerTooLarge
  | emptyStack (stack : EmptyStack)
  | templateSyntax (fault : Template.ParseFault)
  | noSuchTemplate (key : String)
  /-- A place in code whose line has too many digits to be written. -/
  | placeUnwritable
  | nestingTooDeep
  deriving Repr, DecidableEq

namespace Fault

/-- The kind of a fault, as reports name it. -/
def kindName : Fault → String
  | .complaint c _ => c.kind.text
  | .divisionByZero => "ZeroDivisionError"
  | .powerUndefined => "ValueError"
  | .powerTooLarge => "OverflowError"
  | .emptyStack _ => "RuntimeError"
  | .templateSyntax (.mismatch _ _ _) => "ParsingError"
  | .templateSyntax .tooFewDelimiters => "IndexError"
  | .noSuchTemplate _ => "TemplateNotFoundError"
  | .placeUnwritable => "ValueError"
  | .nestingTooDeep => "RecursionError"

def message : Fault → String
  | .complaint c _ => c.message
  | .divisionByZero => "float division by zero"
  | .powerUndefined => "math domain error"
  | .powerTooLarge => "math range error"
  | .emptyStack e => s!"pop_frame called on an empty scope stack (top is {Text.quoted e.top})"
  | .templateSyntax fault => fault.message
  | .noSuchTemplate key =>
    let file := Text.quoted (key ++ ".mustache")
    s!"File {file} not found in dirs: ['.']"
  | .placeUnwritable => Text.tooManyDigits
  | .nestingTooDeep => "maximum recursion depth exceeded"

/-- A fault in one line: complaints speak for themselves, other faults are internal errors. -/
def summary (f : Fault) : String :=
  match f with
  | .complaint _ _ => s!"{f.kindName}: {f.message}"
  | _ => s!"InternalError: {f.kindName}: {f.message}"

end Fault

end TreeScript
