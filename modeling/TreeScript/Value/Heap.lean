import TreeScript.Scope
import TreeScript.Syntax.Expr

/-!
# Values on the heap

Every value is an object with an identity: a payload, which says what the value
is and never changes once the value is finished, and a table of fields, which
programs write freely. A reference is the place of an object in a growing heap;
younger objects have larger places.

The built-in classes, null and the two truth values are shared by all programs
and stand at the first places of every heap.

A list is younger than its items, a class younger than its superclass, and a
view of an instance younger than the instance. Walks along these links only
follow links to older objects, so they end on every heap.
-/

namespace TreeScript

abbrev Ref := Nat

/-- A closure: parameters, a body that is not evaluated yet, the frame it was
made in, and the values that it will bind to `self` and `super`, if any. -/
structure Function where
  name : String
  params : List Pattern
  body : Expr
  captured : Option FrameId := none
  self : Option Ref := none
  super : Option Ref := none
  deriving Inhabited

structure ClassInfo where
  name : String
  superclass : Option Ref := none
  methods : Bindings Ref := .empty
  defaults : Bindings Ref := .empty
  instantiable : Bool := true
  deriving Inhabited

/-- What a built-in function does with its arguments. -/
inductive Intrinsic where
  | len
  | number
  | print
  | str
  | type
  /-- Returns the list of the arguments. -/
  | collect
  deriving Repr, DecidableEq, Inhabited

inductive Payload where
  | instance (cls : Ref)
  | number (value : Float)
  | string (value : String)
  | boolean (value : Bool)
  | null
  | list (items : List Ref)
  | function (fn : Function)
  /-- Functions of one name, tried in order. -/
  | overloads (name : String) (methods : List Function)
  /-- A built-in function; without an arity it takes any number of arguments. -/
  | native (name : String) (arity : Option Nat) (code : Intrinsic)
  | classObject (info : ClassInfo)
  /-- An instance seen from a superclass on. -/
  | superView (inst start : Ref)
  deriving Inhabited

structure Object where
  payload : Payload
  fields : Bindings Ref := .empty
  deriving Inhabited

structure Heap where
  objects : Array Object
  deriving Inhabited

/-- The classes that exist before any program. -/
inductive BuiltinClass where
  | object | cls | number | string | boolean | null | list | function
  deriving Repr, DecidableEq

namespace BuiltinClass

def all : List BuiltinClass := [object, cls, number, string, boolean, null, list, function]

def name : BuiltinClass → String
  | object => "Object"
  | cls => "Class"
  | number => "Number"
  | string => "String"
  | boolean => "Boolean"
  | null => "Null"
  | list => "List"
  | function => "Function"

def ref : BuiltinClass → Ref
  | object => 0
  | cls => 1
  | number => 2
  | string => 3
  | boolean => 4
  | null => 5
  | list => 6
  | function => 7

/-- All built-in classes descend from the root class, and only that can be instantiated. -/
def info (c : BuiltinClass) : ClassInfo :=
  if c = object then { name := c.name }
  else { name := c.name, superclass := some object.ref, instantiable := false }

end BuiltinClass

namespace Heap

def nullRef : Ref := 8

def trueRef : Ref := 9

def falseRef : Ref := 10

def ofBool (b : Bool) : Ref := if b then trueRef else falseRef

/-- The heap that every program starts from. -/
def initial : Heap :=
  ⟨(BuiltinClass.all.map fun c => { payload := .classObject c.info }).toArray ++
    #[{ payload := .null }, { payload := .boolean true }, { payload := .boolean false }]⟩

def object (h : Heap) (r : Ref) : Object := h.objects.getD r { payload := .null }

def payload (h : Heap) (r : Ref) : Payload := (h.object r).payload

def fields (h : Heap) (r : Ref) : Bindings Ref := (h.object r).fields

def add (h : Heap) (o : Object) : Ref × Heap := (h.objects.size, ⟨h.objects.push o⟩)

/-- Adds an object without fields. -/
def alloc (h : Heap) (p : Payload) : Ref × Heap := h.add { payload := p }

def setField (h : Heap) (r : Ref) (name : String) (value : Ref) : Heap :=
  ⟨h.objects.modify r fun o => { o with fields := o.fields.set name value }⟩

/-- Changes a class that is still being defined. -/
def updateClass (h : Heap) (r : Ref) (f : ClassInfo → ClassInfo) : Heap :=
  ⟨h.objects.modify r fun o =>
    match o.payload with
    | .classObject info => { o with payload := .classObject (f info) }
    | _ => o⟩

def isTruthy (h : Heap) (r : Ref) : Bool :=
  match h.payload r with
  | .boolean b => b
  | .null => false
  | _ => true

def class? (h : Heap) (r : Ref) : Option ClassInfo :=
  match h.payload r with
  | .classObject info => some info
  | _ => none

/-- The class of a value. -/
def classOf (h : Heap) (r : Ref) : Ref :=
  match h.payload r with
  | .instance c => c
  | .superView _ start => start
  | .number _ => BuiltinClass.number.ref
  | .string _ => BuiltinClass.string.ref
  | .boolean _ => BuiltinClass.boolean.ref
  | .null => BuiltinClass.null.ref
  | .list _ => BuiltinClass.list.ref
  | .function _ | .overloads _ _ | .native _ _ _ => BuiltinClass.function.ref
  | .classObject _ => BuiltinClass.cls.ref

/-- The name of a class; what is no class has none. -/
def className (h : Heap) (c : Ref) : String := ((h.class? c).map (·.name)).getD ""

/-- The superclass of a class, which is older than the class. -/
def superclass? (h : Heap) (c : Ref) : Option { s : Ref // s < c } :=
  match (h.class? c).bind (·.superclass) with
  | some s => if hs : s < c then some ⟨s, hs⟩ else none
  | none => none

/-- A class and then each superclass, nearest first. -/
def ancestry (h : Heap) (c : Ref) : List Ref :=
  match h.superclass? c with
  | some ⟨s, _⟩ => c :: h.ancestry s
  | none => [c]
termination_by c

def isSubclass (h : Heap) (c other : Ref) : Bool := (h.ancestry c).contains other

def methodOf? (h : Heap) (c : Ref) (name : String) : Option Ref :=
  (h.class? c).bind fun info => info.methods.get? name

def defaultOf? (h : Heap) (c : Ref) (name : String) : Option Ref :=
  (h.class? c).bind fun info => info.defaults.get? name

/-- The nearest class that defines a method, and the method. -/
def findMethod? (h : Heap) (c : Ref) (name : String) : Option (Ref × Ref) :=
  (h.ancestry c).findSome? fun owner => (h.methodOf? owner name).map fun method => (owner, method)

/-- The nearest default of a field. -/
def findDefault? (h : Heap) (c : Ref) (name : String) : Option Ref :=
  (h.ancestry c).findSome? fun owner => h.defaultOf? owner name

/-- The fields a new instance starts with: the defaults of its class over those
of the superclasses, in order of first definition from the root class down. -/
def startingFields (h : Heap) (c : Ref) : Bindings Ref :=
  (h.ancestry c).reverse.foldl
    (fun acc owner => acc.merge (((h.class? owner).map (·.defaults)).getD .empty)) .empty

/-- Adds an instance of a class, with the fields it starts with. -/
def allocInstance (h : Heap) (c : Ref) : Ref × Heap :=
  h.add { payload := .instance c, fields := h.startingFields c }

end Heap

end TreeScript
