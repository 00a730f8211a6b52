import TreeScript.Value.Heap

/-!
# Members

Reading a member of a value looks at its fields first and then for a method,
from its class upwards; a method comes bound to the value. A class looks at its
methods and then at the defaults of its fields, and binds nothing. A view of an
instance reads and writes the fields of the instance, and looks for methods
from its own class upwards.
-/

namespace TreeScript

namespace Function

def bindSelf (f : Function) (self : Ref) : Function := { f with self := some self }

def bindSuper (f : Function) (super : Ref) : Function := { f with super := some super }

/-- The name under which a call shows up: a method is shown with the class of the value it is bound to. -/
def frameName (h : Heap) (f : Function) : String :=
  match f.self with
  | some self => h.className (h.classOf self) ++ "." ++ f.name
  | none => f.name

end Function

namespace Heap

/-- Changes every function of a function value or overload set, as a new value; other values stay. -/
def rebind (h : Heap) (callee : Ref) (f : Function → Function) : Ref × Heap :=
  match h.payload callee with
  | .function fn => h.alloc (.function (f fn))
  | .overloads name fns => h.alloc (.overloads name (fns.map f))
  | _ => (callee, h)

def isBindable (h : Heap) (callee : Ref) : Bool :=
  match h.payload callee with
  | .function _ | .overloads _ _ => true
  | _ => false

/-- Binds a method to an instance. If the class that owns the method has a
superclass, the method also gets a view of the instance that starts there. -/
def bindMethod (h : Heap) (method inst owner : Ref) : Ref × Heap :=
  if h.isBindable method then
    match (h.class? owner).bind (·.superclass) with
    | some start =>
      let (view, h) := h.alloc (.superView inst start)
      h.rebind method fun f => (f.bindSelf inst).bindSuper view
    | none => h.rebind method fun f => f.bindSelf inst
  else (method, h)

/-- A field of one object, or else a method found from a class upwards and bound to the object. -/
def fieldOrMethod? (h : Heap) (inst start : Ref) (name : String) : Option (Ref × Heap) :=
  match (h.fields inst).get? name with
  | some value => some (value, h)
  | none => (h.findMethod? start name).map fun (owner, method) => h.bindMethod method inst owner

/-- The value of a member, and the heap with the values that reading it made. -/
def member? (h : Heap) (r : Ref) (name : String) : Option (Ref × Heap) :=
  match h.payload r with
  | .classObject _ =>
    match h.findMethod? r name with
    | some (_, method) => some (method, h)
    | none => (h.findDefault? r name).map fun value => (value, h)
  | .superView inst start => h.fieldOrMethod? inst start name
  | _ => h.fieldOrMethod? r (h.classOf r) name

/-- Writes a field of a value; a view writes to its instance. -/
def setMember (h : Heap) (r : Ref) (name : String) (value : Ref) : Heap :=
  match h.payload r with
  | .superView inst _ => h.setField inst name value
  | _ => h.setField r name value

end Heap

end TreeScript
