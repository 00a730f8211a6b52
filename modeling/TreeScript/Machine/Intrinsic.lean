import TreeScript.Decimal.Reading
import TreeScript.Machine.Limits
import TreeScript.Value.Display

/-!
# Built-in functions
-/

namespace TreeScript

namespace Run

def allocNumber (x : Float) : Run Ref := alloc (.number x)

/-- The number that a value is, or that its text spells. -/
def toNumber (v : Ref) : Run Ref := do
  match ← look (·.payload v) with
  | .number _ => return v
  | .string s =>
    match Decimal.ofText? s with
    | some x => allocNumber x
    | none => complain (.notANumber s)
  | _ => complain .wrongType

/-- The number of characters of a text or of items of a list. -/
def length (v : Ref) : Run Ref := do
  match ← look (·.payload v) with
  | .string s => allocNumber (Float.ofNat s.length)
  | .list items => allocNumber (Float.ofNat items.length)
  | _ => complain .wrongType

/-- The displayed form of a value. -/
def display (room : Room) (v : Ref) : Run String := lookDeep (·.display? room.shown v)

/-- Applies a built-in function. All but the collecting one take one argument. -/
def applyIntrinsic (room : Room) (name : String) : Intrinsic → List Ref → Run Ref
  | .len, [v] => length v
  | .number, [v] => toNumber v
  | .print, [v] => do
    emit .stdout (← display room v)
    return Heap.nullRef
  | .str, [v] => do alloc (.string (← display room v))
  | .type, [v] => look (·.classOf v)
  | .collect, args => alloc (.list args)
  | _, _ => complain (.functionArity name)

end Run

end TreeScript
