import TreeScript.Decimal.Shortest

/-!
# Written numbers

How a number is laid out once its digits are chosen. What differs between the
formats that show numbers is gathered in one record; each format has its own
value of it.
-/

namespace TreeScript.Decimal

structure Notation where
  nan : String
  infinity : String
  /-- Whether a lone digit before an exponent is followed by a point and a zero. -/
  pointBeforeExponent : Bool := false

/-- Numbers are written positionally when the leading digit stands from four
places after the point to sixteen before it. -/
def isPositional (leading : Int) : Bool := -4 ≤ leading && leading < 16

def zeros (n : Nat) : List Char := List.replicate n '0'

/-- Digits with a point among, before or after them; a whole number ends in `.0`. -/
def positional (digits : List Char) (leading : Int) : List Char :=
  if leading < 0 then '0' :: '.' :: zeros (-leading - 1).toNat ++ digits
  else
    let whole := leading.toNat + 1
    if digits.length ≤ whole then digits ++ zeros (whole - digits.length) ++ ['.', '0']
    else digits.take whole ++ '.' :: digits.drop whole

/-- One digit before the point and a signed exponent of at least two digits. -/
def scientific (n : Notation) (digits : List Char) (leading : Int) : List Char :=
  let mantissa := match digits with
    | [d] => if n.pointBeforeExponent then [d, '.', '0'] else [d]
    | d :: rest => d :: '.' :: rest
    | [] => []
  let sign := if leading < 0 then '-' else '+'
  let places := Nat.toDigits 10 leading.natAbs
  mantissa ++ 'e' :: sign :: zeros (2 - places.length) ++ places

/-- The layout of a positive decimal. -/
def layout (n : Notation) (d : Dec) : List Char :=
  let digits := Nat.toDigits 10 d.digits
  let leading := d.exponent + digits.length - 1
  if isPositional leading then positional digits leading else scientific n digits leading

/-- The text of a number: a sign, and the shortest digits that read back. -/
def written (n : Notation) (x : Float) : String :=
  match dyadic? x with
  | some d =>
    let body := if d.mantissa = 0 then ['0', '.', '0'] else layout n (shortest d)
    String.ofList (if d.negative then '-' :: body else body)
  | none =>
    if isNaN x then n.nan else if signBit x then "-" ++ n.infinity else n.infinity

/-- The general notation, used wherever a number that is not whole is displayed. -/
def general : Notation where
  nan := "nan"
  infinity := "inf"

end TreeScript.Decimal
