import TreeScript.Decimal.Binary64
import TreeScript.Machine.Fault

/-!
# Operators

The binary operators by symbol, and the arithmetic on numbers.
-/

namespace TreeScript

/-- Arithmetic on two numbers. -/
inductive Arithmetic where
  | sub | mul | div | pow
  deriving Repr, DecidableEq

/-- Comparison of two numbers. -/
inductive Comparison where
  | lt | le | gt | ge
  deriving Repr, DecidableEq

inductive Operator where
  /-- Adds numbers and joins the displayed forms of all other values. -/
  | add
  | arithmetic (op : Arithmetic)
  | comparison (op : Comparison)
  | equal
  | unequal
  | both
  | either
  /-- Whether a value's class is, or descends from, a class. -/
  | isA
  deriving Repr, DecidableEq

def Operator.ofSymbol? : String → Option Operator
  | "+" => some .add
  | "-" => some (.arithmetic .sub)
  | "*" => some (.arithmetic .mul)
  | "/" => some (.arithmetic .div)
  | "^" => some (.arithmetic .pow)
  | "==" => some .equal
  | "!=" => some .unequal
  | "<" => some (.comparison .lt)
  | "<=" => some (.comparison .le)
  | ">" => some (.comparison .gt)
  | ">=" => some (.comparison .ge)
  | "&&" => some .both
  | "||" => some .either
  | "is" => some .isA
  | _ => none

inductive UnaryOperator where
  | negate
  | not
  deriving Repr, DecidableEq

def UnaryOperator.ofSymbol? : String → Option UnaryOperator
  | "-" => some .negate
  | "!" => some .not
  | _ => none

def isFinite (x : Float) : Bool := Decimal.exponentField x != 0x7FF

/-- A power of finite numbers that is not finite is a fault: undefined if it is
no number or the base is zero, and too large otherwise. -/
def power (x y : Float) : Except Fault Float :=
  let r := Float.pow x y
  if isFinite x && isFinite y && !isFinite r then
    if Decimal.isNaN r || x == 0.0 then .error .powerUndefined else .error .powerTooLarge
  else .ok r

def Arithmetic.apply : Arithmetic → Float → Float → Except Fault Float
  | .sub, x, y => .ok (x - y)
  | .mul, x, y => .ok (x * y)
  | .div, x, y => if y == 0.0 then .error .divisionByZero else .ok (x / y)
  | .pow, x, y => power x y

theorem Arithmetic.fault_of_apply {op : Arithmetic} {x y : Float} {e : Fault}
    (h : op.apply x y = .error e) :
    e = .divisionByZero ∨ e = .powerUndefined ∨ e = .powerTooLarge := by
  cases op with
  | sub => cases h
  | mul => cases h
  | div =>
    simp only [apply] at h
    split at h <;> cases h
    exact .inl rfl
  | pow =>
    simp only [apply, power] at h
    split at h
    · split at h <;> cases h
      · exact .inr (.inl rfl)
      · exact .inr (.inr rfl)
    · cases h

def Comparison.holds : Comparison → Float → Float → Bool
  | .lt, x, y => x < y
  | .le, x, y => x ≤ y
  | .gt, x, y => y < x
  | .ge, x, y => y ≤ x

end TreeScript
