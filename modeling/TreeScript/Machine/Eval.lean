import TreeScript.Machine.Call
import TreeScript.Machine.Operator

/-!
# Evaluation

Expressions are evaluated against the active scope chain. One level of
evaluation is a function of the evaluation of the parts, and the evaluator ties
the knot for a bounded number of levels inside each other; deeper nesting is a
fault, and so is whatever else there is no room for. A loop may go on for a
bounded number of rounds, after which there is no outcome at all.
-/

namespace TreeScript

namespace Function

/-- Adds a function to an overload set; it takes the place of one with the same parameters. -/
def insertInto (fn : Function) : List Function → List Function
  | [] => [fn]
  | g :: gs => if Pattern.sameAll g.params fn.params then fn :: gs else g :: insertInto fn gs

end Function

namespace Heap

/-- The value that a name is bound to after a function of that name is defined,
given the value bound before: with a function of other parameters it forms an
overload set, and an overload set takes it in. -/
def foldDefinition (h : Heap) (existing : Option Ref) (fn : Function) : Payload :=
  match existing.map h.payload with
  | some (.overloads name fns) => .overloads name (fn.insertInto fns)
  | some (.function old) =>
    if Pattern.sameAll old.params fn.params then .function fn else .overloads fn.name [old, fn]
  | _ => .function fn

end Heap

namespace Run

/-- Repeats a computation as long as a condition holds. -/
def repeatWhile (condition : Run Bool) (body : Run Unit) : Nat → Run Unit
  | 0 => fun _ => .exhausted
  | rounds + 1 => do
    if ← condition then
      body
      repeatWhile condition body rounds

def ofExcept {α : Type} : Except Fault α → Run α
  | .ok a => pure a
  | .error fault => fail fault

def boolean (b : Bool) : Run Ref := pure (Heap.ofBool b)

/-- The number that a value is. -/
def asNumber (v : Ref) : Run Float := do
  match ← look (·.payload v) with
  | .number x => return x
  | _ => complain .wrongType

def asList (v : Ref) : Run (List Ref) := do
  match ← look (·.payload v) with
  | .list items => return items
  | _ => complain .wrongType

/-- A value that is a class. -/
def asClass (v : Ref) : Run Ref := do
  if ← look fun h => (h.class? v).isSome then return v else complain .wrongType

/-- The text that a template becomes in the active scope. All that is bound there is displayed,
whether the template asks for it or not. -/
def fillTemplate (room : Room) (template : String) : Run Ref := do
  let bound ← lookScope (·.boundValues)
  let _ ← lookDeep fun h => bound.mapM (h.display? room.shown)
  let entries ← lookScope (·.flatten.entries)
  let table ← look fun h => entries.map fun (k, v) => (k, h.display v)
  match Template.fill template ⟨table⟩ with
  | .ok text => alloc (.string text)
  | .error (.render (.missing key)) => complain (.unboundVariable key)
  | .error (.render (.noSuchTemplate key)) => fail (.noSuchTemplate key)
  | .error (.parse fault) => fail (.templateSyntax fault)

def lookup (name : String) : Run Ref := do
  match ← lookScope (·.lookup? name) with
  | some v => return v
  | none => complain (.unboundVariable name)

def readMember (room : Room) (v : Ref) (name : String) : Run Ref := fun m =>
  match m.heap.member? v name with
  | some (value, heap) => .done value { m with heap }
  | none => (do complain (.unboundMember name (← display room v))) m

/-- Defines a function in the head, where it joins functions of the same name. -/
def defineFunction (fn : Function) : Run Ref := do
  let existing ← lookScope fun s => (s.frame s.head).bindings.get? fn.name
  let v ← alloc (← look fun h => h.foldDefinition existing fn)
  changeScope (·.define fn.name v)
  return v

/-- Defines a method of a class under definition. -/
def defineMethod (cls : Ref) (fn : Function) : Run Unit := do
  let existing ← look fun h => h.methodOf? cls fn.name
  let v ← alloc (← look fun h => h.foldDefinition existing fn)
  changeHeap (·.updateClass cls fun info => { info with methods := info.methods.set fn.name v })

def defineDefault (cls : Ref) (name : String) (value : Ref) : Run Unit :=
  changeHeap (·.updateClass cls fun info => { info with defaults := info.defaults.set name value })

section Level

variable (evaluate : Evaluator)

def evaluateAll : List Expr → Run (List Ref)
  | [] => return []
  | e :: es => do
    let v ← evaluate e
    let vs ← evaluateAll es
    return v :: vs

/-- The value of the last expression, or of nothing the given one. -/
def evaluateLast (last : Ref) : List Expr → Run Ref
  | [] => return last
  | e :: es => do
    let v ← evaluate e
    evaluateLast v es

def evaluateTruth (e : Expr) : Run Bool := do
  let v ← evaluate e
  look (·.isTruthy v)

def evaluateNumber (e : Expr) : Run Float := do asNumber (← evaluate e)

def evaluateOperator (op : Operator) (left right : Expr) : Run Ref :=
  match op with
  | .add => do
    let l ← evaluate left
    let r ← evaluate right
    match ← look fun h => (h.payload l, h.payload r) with
    | (.number x, .number y) => allocNumber (x + y)
    | _ => alloc (.string ((← display evaluate.room l) ++ (← display evaluate.room r)))
  | .arithmetic op => do
    let x ← evaluateNumber evaluate left
    let y ← evaluateNumber evaluate right
    allocNumber (← ofExcept (op.apply x y))
  | .comparison op => do
    let x ← evaluateNumber evaluate left
    let y ← evaluateNumber evaluate right
    boolean (op.holds x y)
  | .equal => do
    let l ← evaluate left
    let r ← evaluate right
    boolean (← lookDeep (·.same? evaluate.room.compared l r))
  | .unequal => do
    let l ← evaluate left
    let r ← evaluate right
    boolean !(← lookDeep (·.same? evaluate.room.compared l r))
  | .both => do
    if ← evaluateTruth evaluate left then boolean (← evaluateTruth evaluate right) else boolean false
  | .either => do
    if ← evaluateTruth evaluate left then boolean true else boolean (← evaluateTruth evaluate right)
  | .isA => do
    let v ← evaluate left
    let c ← asClass (← evaluate right)
    boolean (← look fun h => h.isSubclass (h.classOf v) c)

def evaluateAssign (target value : Expr) : Run Ref :=
  match target with
  | .name _ name => do
    let v ← evaluate value
    changeScope (·.assign name v)
    return v
  | .member _ owner name => do
    let o ← evaluate owner
    let v ← evaluate value
    changeHeap (·.setMember o name v)
    return v
  | _ => complain .invalidTarget

/-- An item by its place, a whole number from zero on. -/
def evaluateIndex (target index : Expr) : Run Ref := do
  let items ← asList (← evaluate target)
  let x ← evaluateNumber evaluate index
  match Decimal.integer? x with
  | none => complain .wrongType
  | some i =>
    match if i < 0 then none else items[i.toNat]? with
    | some v => return v
    | none => complain .indexOutOfBounds

/-- Defines the members of a class: methods, defaults of fields, and whatever
else the body holds, which is evaluated for its effects. -/
def defineMembers (cls : Ref) : List Expr → Run Unit
  | [] => return ()
  | e :: es => do
    match e with
    | .function _ (some name) params body =>
      let captured ← lookScope (·.head)
      defineMethod cls { name, params, body, captured := some captured }
    | .assign _ (.name _ name) value => defineDefault cls name (← evaluate value)
    | e =>
      let _ ← evaluate e
    defineMembers cls es

/-- The class that a class descends from; one that names none descends from the root class. -/
def evaluateSuperclass : Option Expr → Run Ref
  | some e => do asClass (← evaluate e)
  | none => return BuiltinClass.object.ref

def evaluateClass (name : String) (superclass : Option Expr) (body : List Expr) : Run Ref := do
  let parent ← evaluateSuperclass evaluate superclass
  let cls ← alloc (.classObject { name, superclass := some parent })
  inNewFrame name (defineMembers evaluate cls body)
  changeScope (·.define name cls)
  return cls

/-- One level of evaluation. -/
def evaluateLevel (rounds : Nat) : Expr → Run Ref
  | .number _ literal => allocNumber literal.value
  | .string _ s => alloc (.string s)
  | .template _ text => fillTemplate evaluate.room text
  | .boolean _ b => boolean b
  | .null _ => return Heap.nullRef
  | .list _ items => do alloc (.list (← evaluateAll evaluate items))
  | .name _ name => lookup name
  | .assign _ target value => evaluateAssign evaluate target value
  | .block _ body => inNewFrame "block" (evaluateLast evaluate Heap.nullRef body)
  | .branch _ condition yes no => do
    if ← evaluateTruth evaluate condition then evaluate yes
    else match no with
      | some e => evaluate e
      | none => return Heap.nullRef
  | .loop _ condition body => do
    repeatWhile (evaluateTruth evaluate condition) (do let _ ← evaluate body) rounds
    return Heap.nullRef
  | .function _ name params body => do
    let captured ← lookScope (·.head)
    match name with
    | none => alloc (.function { name := "lambda", params, body, captured := some captured })
    | some name =>
      let name := if name = "" then "lambda" else name
      defineFunction { name, params, body, captured := some captured }
  | .call loc callee args => do
    let f ← evaluate callee
    let vs ← evaluateAll evaluate args
    call evaluate f vs (some loc)
  | .operator _ symbol left right =>
    match Operator.ofSymbol? symbol with
    | some op => evaluateOperator evaluate op left right
    | none => complain (.unknownOperator symbol)
  | .unary _ symbol operand =>
    match UnaryOperator.ofSymbol? symbol with
    | some .negate => do allocNumber (-(← evaluateNumber evaluate operand))
    | some .not => do boolean !(← evaluateTruth evaluate operand)
    | none => complain (.unknownOperator symbol)
  | .member _ target name => do readMember evaluate.room (← evaluate target) name
  | .index _ target index => evaluateIndex evaluate target index
  | .classDef _ name superclass body => evaluateClass evaluate name superclass body

end Level

/-- Evaluation with at most so many levels inside each other. -/
def evaluateAt (limits : Limits) : Nat → Evaluator
  | 0 => ⟨fun _ => entered (fail .nestingTooDeep), limits.room 0⟩
  | nesting + 1 =>
    { run := fun e => entered do
        setPlace e.loc
        evaluateLevel (evaluateAt limits nesting) limits.rounds e
      room := limits.room (nesting + 1) }

def evaluate (limits : Limits) : Evaluator := evaluateAt limits limits.nesting

/-- A pattern is no expression: taking it up for evaluation is refused. -/
def evaluatePattern (p : Pattern) : Run Ref := entered do
  setPlace p.loc
  complain (.notEvaluable p.kindName)

end Run

end TreeScript
