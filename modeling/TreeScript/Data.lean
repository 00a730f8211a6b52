import TreeScript.Decimal.Binary64

/-!
# Decoded data

What a document decodes to: scalars, lists and mappings, and the few other
kinds that one of the two document formats knows (bytes, dates, tuples, sets).
A mapping keeps its keys in order of first arrival.

In one of the formats a list or mapping may contain itself. Such a part of a
document stands in a table beside the data, which names it by its number.
-/

namespace TreeScript

/-- Where a NaN was written. NaN is unlike itself, so two pieces of code that
hold NaN are the same code only if it is one and the same NaN: each document
format has a single one, and every NaN spelled in a text is a new one. -/
inductive NanOrigin where
  | json
  | yaml
  | text (serial : Nat)
  deriving Repr, DecidableEq, Inhabited

structure Date where
  year : Nat
  month : Nat
  day : Nat
  deriving Repr, DecidableEq, Inhabited

/-- A date and a time of day, with the distance from universal time in seconds where it is known. -/
structure Moment where
  date : Date
  hour : Nat
  minute : Nat
  second : Nat
  microsecond : Nat
  offset : Option Int
  deriving Repr, DecidableEq, Inhabited

inductive Data where
  | null
  | boolean (value : Bool)
  | integer (value : Int)
  | float (value : Float) (origin : NanOrigin)
  | text (value : String)
  | list (items : List Data)
  | mapping (entries : List (Data × Data))
  | bytes (value : List UInt8)
  | date (value : Date)
  | moment (value : Moment)
  | tuple (items : List Data)
  | set (items : List Data)
  /-- A mapping or list that stands in the table of parts. -/
  | part (id : Nat) (isMapping : Bool)
  deriving Inhabited

namespace Data

/-- The exact value of a number or truth value, where it is an integer. -/
def asInteger? : Data → Option Int
  | .boolean b => some (if b then 1 else 0)
  | .integer i => some i
  | .float x _ => Decimal.integer? x
  | _ => none

/-- Whether two scalars are the same key of a mapping. Numbers and truth values
are compared by value across their kinds; lists and mappings are no keys. -/
def sameKey (a b : Data) : Bool :=
  match a, b with
  | .null, .null => true
  | .text s, .text t => s == t
  | .bytes s, .bytes t => s == t
  | .date s, .date t => s == t
  | .moment s, .moment t => s == t
  | .float x p, .float y q => x == y || (Decimal.isNaN x && Decimal.isNaN y && p == q)
  | a, b =>
    match a.asInteger?, b.asInteger? with
    | some i, some j => i == j
    | _, _ => false

/-- Writes an entry of a mapping: a key that is present keeps its place and its first spelling. -/
def insert (key value : Data) : List (Data × Data) → List (Data × Data)
  | [] => [(key, value)]
  | (k, v) :: rest => if k.sameKey key then (k, value) :: rest else (k, v) :: insert key value rest

/-- The value of a text key. -/
def field? (entries : List (Data × Data)) (name : String) : Option Data :=
  (entries.find? fun entry => entry.1.sameKey (.text name)).map (·.2)

/-- Empty, zero and null data count as false. -/
def truthy : Data → Bool
  | .null => false
  | .boolean b => b
  | .integer i => i != 0
  | .float x _ => !(x == 0.0)
  | .text s => s != ""
  | .list items | .tuple items | .set items => !items.isEmpty
  | .mapping entries => !entries.isEmpty
  | .bytes b => !b.isEmpty
  | .date _ | .moment _ | .part _ _ => true

end Data

/-- The lists and mappings that contain themselves or hold one that does, by number. -/
abbrev Parts := List (Nat × Data)

/-- Data as it is looked at: of a part, what the part holds. -/
def Parts.look (parts : Parts) : Data → Data
  | .part id isMapping => (parts.lookup id).getD (.part id isMapping)
  | d => d

structure Document where
  root : Data
  parts : Parts := []

end TreeScript
