import TreeScript.Syntax.Outline
import TreeScript.Syntax.Same
import TreeScript.Value.Heap

/-!
# Equal values

Numbers, texts, truth values and null are compared by value, with NaN equal to
NaN; lists item by item; functions by name, parameters and body; overload sets
by name and functions. All other values are equal only to themselves.

The host compares lists and code on its stack, so a comparison that goes too
deep has no result.
-/

namespace TreeScript

def sameNumber (x y : Float) : Bool := x == y || (Decimal.isNaN x && Decimal.isNaN y)

/-- The captured frame and the bound values take no part. -/
def Function.same (f g : Function) : Bool :=
  f.name == g.name && Pattern.sameAll f.params g.params && f.body.same g.body

def Function.sameAll : List Function → List Function → Bool
  | [], [] => true
  | f :: fs, g :: gs => f.same g && Function.sameAll fs gs
  | _, _ => false

/-- How deep the code of a function is nested. -/
def Function.depth (fn : Function) : Nat :=
  max (Outline.depthOfItems (Pattern.outlines fn.params)) fn.body.outline.depth

namespace Heap

def same (h : Heap) (a b : Ref) : Bool :=
  match h.payload a, h.payload b with
  | .number x, .number y => sameNumber x y
  | .string s, .string t => s == t
  | .boolean p, .boolean q => p == q
  | .null, .null => true
  | .list as, .list bs =>
    as.length == bs.length &&
      (as.zip bs).all fun (i, j) => if _h : i < a then h.same i j else false
  | .function f, .function g => f.same g
  | .overloads n fs, .overloads m gs => n == m && Function.sameAll fs gs
  | _, _ => a == b
termination_by a

/-- How deep the code in a value is nested. -/
def codeDepth (h : Heap) (r : Ref) : Nat :=
  match h.payload r with
  | .function fn => fn.depth
  | .overloads _ fns => (fns.map Function.depth).foldr max 0
  | _ => 0

/-- Compares items one by one up to the first difference. Items that are one and the same value
are not looked into. -/
def sameItems? (same? : Ref → Ref → Option Bool) : List Ref → List Ref → Option Bool
  | i :: is, j :: js =>
    if i = j then sameItems? same? is js
    else
      match same? i j with
      | some true => sameItems? same? is js
      | other => other
  | _, _ => some true

/-- Compares values where there is room for so many comparisons inside each other. A piece of code
is as deep as its records are nested. -/
def same? (h : Heap) (room : Nat) (a b : Ref) : Option Bool :=
  match h.payload a, h.payload b with
  | .list as, .list bs =>
    match room with
    | 0 => none
    | room + 1 => if as.length = bs.length then sameItems? (h.same? room) as bs else some false
  | _, _ =>
    if a = b ∨ h.codeDepth a ≤ room ∨ h.codeDepth b ≤ room then some (h.same a b) else none

/-- A value serves as a key unless it is a list. -/
def isHashable (h : Heap) (r : Ref) : Bool :=
  match h.payload r with
  | .list _ => false
  | _ => true

end Heap

end TreeScript
