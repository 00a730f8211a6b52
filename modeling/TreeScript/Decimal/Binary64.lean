/-!
# Binary floating-point numbers as exact numbers

A finite number of 64 bits is a sign and a magnitude `mantissa * 2 ^ exponent`.
Here are the exact reading of the bits and, in the other direction, the number
nearest to a quotient of naturals, with ties to the even mantissa. Nothing here
rounds through floating-point arithmetic.
-/

namespace TreeScript.Decimal

/-- A signed magnitude `mantissa * 2 ^ exponent`. -/
structure Dyadic where
  negative : Bool
  mantissa : Nat
  exponent : Int
  deriving Repr, DecidableEq

def signBit (x : Float) : Bool := x.toBits >>> 63 == 1

def exponentField (x : Float) : Nat := (x.toBits >>> 52 &&& 0x7FF).toNat

def fractionField (x : Float) : Nat := (x.toBits &&& 0xFFFFFFFFFFFFF).toNat

/-- The exact value of a finite number; infinities and NaN have none. -/
def dyadic? (x : Float) : Option Dyadic :=
  let e := exponentField x
  let f := fractionField x
  if e = 0x7FF then none
  else if e = 0 then some ⟨signBit x, f, -1074⟩
  else some ⟨signBit x, Nat.pow 2 52 + f, (e : Int) - 1075⟩

def isNaN (x : Float) : Bool := exponentField x == 0x7FF && fractionField x != 0

/-- The integer that a number is, if it is one. Both zeros are the integer zero. -/
def integer? (x : Float) : Option Int :=
  match dyadic? x with
  | none => none
  | some d =>
    let magnitude? :=
      if 0 ≤ d.exponent then some (d.mantissa * Nat.pow 2 d.exponent.toNat)
      else if d.mantissa % Nat.pow 2 (-d.exponent).toNat = 0 then
        some (d.mantissa / Nat.pow 2 (-d.exponent).toNat)
      else none
    magnitude?.map fun (n : Nat) => if d.negative then -(n : Int) else (n : Int)

/-- The quotient of two naturals rounded to the nearest natural, ties to even. -/
def roundQuotient (num den : Nat) : Nat :=
  let q := num / den
  let r := num % den
  if 2 * r < den then q
  else if den < 2 * r then q + 1
  else q + q % 2

/-- A quotient times a power of two, as numerator and denominator. -/
def scale (num den : Nat) (e : Int) : Nat × Nat :=
  (num * Nat.pow 2 e.toNat, den * Nat.pow 2 (-e).toNat)

/-- The largest `k` with `2 ^ k ≤ num / den`, for a positive quotient. -/
def binaryOrder (num den : Nat) : Int :=
  let k : Int := num.log2 - den.log2
  let (a, b) := scale num den (-k)
  if b ≤ a then k else k - 1

/-- The bits, without the sign, of the number nearest to a positive quotient.
A carry out of the mantissa raises the exponent by itself. -/
def nearestBits (num den : Nat) : Nat :=
  let e := max (binaryOrder num den - 52) (-1074)
  let (a, b) := scale num den (-e)
  min ((e + 1074).toNat * Nat.pow 2 52 + roundQuotient a b) (0x7FF * Nat.pow 2 52)

/-- The number nearest to a quotient, an infinity if that is nearer than every finite number. -/
def nearest (negative : Bool) (num den : Nat) : Float :=
  let bits := if num = 0 then 0 else nearestBits num den
  Float.ofBits (UInt64.ofNat (if negative then Nat.pow 2 63 + bits else bits))

/-- The number nearest to `digits * 10 ^ exponent`. Exponents so large or so
small that the answer is an infinity or a zero for all digits are not expanded. -/
def ofDecimal (negative : Bool) (digits : Nat) (exponent : Int) : Float :=
  if digits = 0 then nearest negative 0 1
  else if 400 < exponent then nearest negative (Nat.pow 2 1024) 1
  else if exponent < -400 - (digits.log2 : Int) then nearest negative 0 1
  else nearest negative (digits * Nat.pow 10 exponent.toNat) (Nat.pow 10 (-exponent).toNat)

/-- The number nearest to an integer, unless that is an infinity. -/
def ofInteger? (i : Int) : Option Float :=
  let x := nearest (i < 0) i.natAbs 1
  if exponentField x = 0x7FF then none else some x

end TreeScript.Decimal
