import TreeScript.Machine.Fault
import TreeScript.Value.Heap

/-!
# The machine

The state that programs run on: the heap of values, the scope stack, the
recorded side effects, the calls under way, and what error reports and tracing
need. A run takes a machine to an outcome: a value or a fault, each with the
machine it leaves behind, or nothing, if a loop went on for too many rounds.
-/

namespace TreeScript

inductive Topic where
  | stdout
  | stderr
  deriving Repr, DecidableEq

structure Effect where
  topic : Topic
  message : String
  deriving Repr, DecidableEq

/-- A call under way, or one that failed. -/
structure Call where
  name : String
  args : List Ref
  deriving Repr, DecidableEq

structure Machine where
  heap : Heap
  scope : Scope Ref
  effects : Array Effect := #[]
  /-- The calls under way, outermost first. A call that fails stays, for the report. -/
  calls : List Call := []
  /-- How many evaluations and calls are inside each other. -/
  active : Nat := 0
  /-- The place of the expression that was taken up last. -/
  place : Option Loc := none
  tracing : Bool := false
  traced : Array String := #[]
  deriving Inhabited

inductive Outcome (α : Type) where
  | done (value : α) (m : Machine)
  | failed (fault : Fault) (m : Machine)
  | exhausted

/-- A computation on the machine. -/
def Run (α : Type) := Machine → Outcome α

namespace Run

variable {α β : Type}

def pure (a : α) : Run α := fun m => .done a m

def bind (x : Run α) (f : α → Run β) : Run β := fun m =>
  match x m with
  | .done a m => f a m
  | .failed e m => .failed e m
  | .exhausted => .exhausted

instance : Monad Run where
  pure := Run.pure
  bind := Run.bind

def change (f : Machine → Machine) : Run Unit := fun m => .done () (f m)

def fail (fault : Fault) : Run α := fun m => .failed fault m

def complain (c : Complaint) : Run α := fun m =>
  .failed (.complaint c (m.calls.map (·.name))) m

/-- Runs the second computation after the first, however the first ends; a
fault of the second takes the place of what the first gave. -/
def ensuring (x : Run α) (last : Run Unit) : Run α := fun m =>
  match x m with
  | .done a m =>
    match last m with
    | .done _ m => .done a m
    | .failed e m => .failed e m
    | .exhausted => .exhausted
  | .failed e m =>
    match last m with
    | .done _ m => .failed e m
    | .failed e m => .failed e m
    | .exhausted => .exhausted
  | .exhausted => .exhausted

/-- Counts an evaluation or call. One that is not inside another first forgets
the calls that earlier failures left. -/
def entered (x : Run α) : Run α := do
  change fun m => { m with calls := if m.active = 0 then [] else m.calls, active := m.active + 1 }
  ensuring x (change fun m => { m with active := m.active - 1 })

/-- Adds a line to the trace, if tracing is on. To find that out takes room on the host's stack too. -/
def trace (fits : Bool) (line : Machine → String) : Run Unit :=
  if fits then
    change fun m => if m.tracing then { m with traced := m.traced.push (line m) } else m
  else fail .nestingTooDeep

def emit (topic : Topic) (message : String) : Run Unit :=
  change fun m => { m with effects := m.effects.push ⟨topic, message⟩ }

def setPlace (place : Option Loc) : Run Unit := change fun m => { m with place }

/-! ## Heap and scope -/

/-- Makes a value. -/
def make (f : Heap → Ref × Heap) : Run Ref := fun m =>
  let (r, heap) := f m.heap
  .done r { m with heap }

def alloc (p : Payload) : Run Ref := make (·.alloc p)

/-- Looks at the heap. -/
def look (f : Heap → α) : Run α := fun m => .done (f m.heap) m

/-- Looks into a value as deep as there is room for. -/
def lookDeep (f : Heap → Option α) : Run α := fun m =>
  match f m.heap with
  | some a => .done a m
  | none => .failed .nestingTooDeep m

def changeHeap (f : Heap → Heap) : Run Unit := change fun m => { m with heap := f m.heap }

def changeScope (f : Scope Ref → Scope Ref) : Run Unit := change fun m => { m with scope := f m.scope }

def lookScope (f : Scope Ref → α) : Run α := fun m => .done (f m.scope) m

def newFrame (name : String) (parent : FrameId) : Run FrameId := fun m =>
  let (f, scope) := m.scope.newFrame name (some parent)
  .done f { m with scope }

/-- Runs with a frame as the head of the active chain, and gives the old head back after. -/
def inFrame (f : FrameId) (x : Run α) : Run α := do
  let head ← lookScope (·.head)
  changeScope (·.enter f)
  ensuring x (changeScope (·.enter head))

def popFrame : Run Unit := fun m =>
  match m.scope.pop with
  | .ok scope => .done () { m with scope }
  | .error e => .failed (.emptyStack e) m

/-- Runs inside a new frame below the head. -/
def inNewFrame (name : String) (x : Run α) : Run α := do
  changeScope (·.push name)
  ensuring x popFrame

end Run

namespace Machine

/-- What programs have printed since the effects were last forgotten. -/
def printed (m : Machine) : List String :=
  (m.effects.toList.filter (·.topic = .stdout)).map (·.message)

/-- The names of the calls under way, outermost first. -/
def trace (m : Machine) : List String := m.calls.map (·.name)

/-- A machine without any name bound. -/
def bare (tracing : Bool) : Machine :=
  { heap := .initial, scope := .withGlobals "<globals>", tracing }

end Machine

end TreeScript
