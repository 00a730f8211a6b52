import TreeScript.Machine.Intrinsic
import TreeScript.Syntax.Outline
import TreeScript.Value.Members
import TreeScript.Value.Same

/-!
# Calls

How a value is applied to arguments, given a way to evaluate expressions, and
what there is room for beside it.

A function matches its arguments against its parameters in a fresh frame below
the frame it was made in, or below the global frame if it was made in none, and
then evaluates its body in that frame. An overload set runs the first of its
functions that accepts the arguments. A class makes an instance with the
default fields and passes the arguments to its `init` method.
-/

namespace TreeScript

namespace Run

variable (evaluate : Evaluator)

def defineIn (frame : FrameId) (name : String) (value : Ref) : Run Unit :=
  changeScope (·.defineIn frame name value)

/-- Binds a name in a frame, if there is a value for it. -/
def defineSome (frame : FrameId) (name : String) : Option Ref → Run Unit
  | some value => defineIn frame name value
  | none => return ()

/-! ## Matching -/

mutual

/-- Whether a pattern accepts a value; names are bound on the way, even if a later part rejects. -/
def accepts (frame : FrameId) : Pattern → Ref → Run Bool
  | .wildcard _, _ => return true
  | .name _ name, v => do
    defineIn frame name v
    return true
  | .literal _ literal, v => do
    let expected ← evaluate literal
    lookDeep (·.same? evaluate.room.compared expected v)
  | .typed _ name cls, v => do
    let c ← evaluate cls
    if ← look fun h => (h.class? c).isSome && h.isSubclass (h.classOf v) c then
      defineIn frame name v
      return true
    else return false
  | .list _ patterns, v => do
    match ← look (·.payload v) with
    | .list items =>
      if items.length = patterns.length then acceptsAll frame patterns items else return false
    | _ => return false

/-- Whether patterns accept values one by one; the first rejection ends the matching. -/
def acceptsAll (frame : FrameId) : List Pattern → List Ref → Run Bool
  | pattern :: patterns, v :: vs => do
    if ← accepts frame pattern v then acceptsAll frame patterns vs else return false
  | _, _ => return true

end

/-- The frame in which a function's parameters are bound to arguments, if it accepts them. -/
def matchArgs (fn : Function) (args : List Ref) : Run (Option FrameId) := do
  if args.length = fn.params.length then
    let name ← look fn.frameName
    let parent ← lookScope fun s => fn.captured.getD s.globals
    let frame ← newFrame name parent
    let accepted ← inFrame frame (acceptsAll evaluate frame fn.params args)
    return if accepted then some frame else none
  else return none

def anyAccepts (args : List Ref) : List Function → Run Bool
  | [] => return false
  | fn :: fns => do
    let frame ← matchArgs evaluate fn args
    if frame.isSome then return true else anyAccepts args fns

/-- Whether a function, overload set or built-in function accepts arguments,
without running it. Of other values this cannot be asked. -/
def isApplicable? (callee : Ref) (args : List Ref) : Run (Option Bool) := do
  match ← look (·.payload callee) with
  | .function fn => return some (← matchArgs evaluate fn args).isSome
  | .overloads _ fns => return some (← anyAccepts evaluate args fns)
  | .native _ arity _ => return some (arity.all (· == args.length))
  | _ => return none

/-! ## Running -/

/-- Evaluates a function's body in a frame in which its parameters are bound. The head is given
back however that ends. If there is no room for the line of the trace, the frame stays the head. -/
def invoke (fn : Function) (frame : FrameId) : Run Ref := do
  let name ← lookScope fun s => (s.frame frame).name
  let head ← lookScope (·.head)
  changeScope (·.enter frame)
  trace evaluate.room.entry fun _ => s!"[DBG] push {name} argc {fn.params.length}"
  ensuring
    (do
      defineSome frame "self" fn.self
      defineSome frame "super" fn.super
      evaluate fn.body)
    (do
      changeScope (·.enter head)
      trace evaluate.room.entry fun _ => s!"[DBG] pop {name}")

def applyFunction (fn : Function) (args : List Ref) : Run Ref := do
  if args.length = fn.params.length then
    match ← matchArgs evaluate fn args with
    | some frame => invoke evaluate fn frame
    | none => complain (.argument fn.name)
  else complain (.functionArity fn.name)

/-- Notes in the trace which parameters have accepted the arguments. They are written out even if
nothing is traced. -/
def traceChoice (room : Room) (name : String) (params : List Pattern) : Run Unit :=
  if params.all (·.isWritable) then
    let shown := (Data.list (params.map fun p => .text p.written)).written
    trace room.line fun _ => s!"[DBG] dispatch {name} -> {shown}"
  else fail .placeUnwritable

/-- Runs the first function that accepts the arguments. -/
def dispatch (name : String) (args : List Ref) : List Function → Run Ref
  | [] => complain (.noOverload name)
  | fn :: fns => do
    match ← matchArgs evaluate fn args with
    | some frame =>
      traceChoice evaluate.room name fn.params
      invoke evaluate fn frame
    | none => dispatch name args fns

/-- Applies anything but a class. -/
def applyPlain (callee : Ref) (args : List Ref) : Run Ref := do
  match ← look (·.payload callee) with
  | .function fn => applyFunction evaluate fn args
  | .overloads name fns => dispatch evaluate name args fns
  | .native name arity code =>
    if arity.all (· == args.length) then applyIntrinsic evaluate.room name code args
    else complain (.functionArity name)
  | _ => complain (.notCallable (← display evaluate.room callee))

/-- The name under which a call is listed; what has no name is listed as it is displayed. -/
def callName? (room : Room) (h : Heap) (callee : Ref) : Option String :=
  let shown := h.display? room.shown callee
  let named (name : String) := if name = "" then shown else some name
  match h.payload callee with
  | .function fn => some (fn.frameName h)
  | .overloads name _ => named name
  | .native name _ _ => named name
  | .classObject info => named info.name
  | _ => shown

/-- A call in code has a site, which becomes the current place. -/
def visitSite : Option (Option Loc) → Run Unit
  | some place => setPlace place
  | none => return ()

/-- Keeps a call on the list of calls while it runs; if it fails, it stays there. -/
def listed (room : Room) (callee : Ref) (args : List Ref) (site : Option (Option Loc))
    (x : Run Ref) : Run Ref :=
  entered do
    let name ← lookDeep (callName? room · callee)
    trace room.line fun _ => s!"[DBG] call {name} argc {args.length}"
    change fun m => { m with calls := m.calls ++ [⟨name, args⟩] }
    visitSite site
    let result ← x
    change fun m => { m with calls := m.calls.dropLast }
    return result

/-- Makes an instance of a class. -/
def instantiate (cls : Ref) (info : ClassInfo) (args : List Ref) : Run Ref := do
  if info.instantiable then
    let inst ← make (·.allocInstance cls)
    match ← look (·.findMethod? cls "init") with
    | some (owner, init) =>
      let bound ← make (·.bindMethod init inst owner)
      let _ ← listed evaluate.room bound args none (applyPlain evaluate bound args)
      return inst
    | none => if args.isEmpty then return inst else complain (.classArity info.name)
  else complain (.cannotInstantiate info.name)

def apply (callee : Ref) (args : List Ref) : Run Ref := do
  match ← look (·.payload callee) with
  | .classObject info => instantiate evaluate callee info args
  | _ => applyPlain evaluate callee args

/-- Calls a value. The place of the call, if it is one in code, becomes the current place. -/
def call (callee : Ref) (args : List Ref) (site : Option (Option Loc)) : Run Ref :=
  listed evaluate.room callee args site (apply evaluate callee args)

end Run

end TreeScript
