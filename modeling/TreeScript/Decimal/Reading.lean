import TreeScript.Decimal.Binary64
import TreeScript.Text.Blank
import TreeScript.Text.DecimalDigit

/-!
# Numbers in text

The texts that count as a number: blanks around it, a sign, and then digits
with an optional point and exponent, or a name of infinity or of NaN in any
case. At least one digit stands beside the point. A single underscore may stand
between two digits. Digits of all scripts count.
-/

namespace TreeScript.Decimal

open TreeScript.Text

/-- Blanks around a number are those of `isBlank`, the separators of records apart. -/
def isNumberBlank (c : Char) : Bool := isBlank c && !(0x1C ≤ c.toNat && c.toNat ≤ 0x1F)

def stripBlanks (s : List Char) : List Char :=
  ((s.dropWhile isNumberBlank).reverse.dropWhile isNumberBlank).reverse

/-- Writes digits of any script as the ten plain ones. -/
def plainDigit (c : Char) : Char :=
  match digitValue? c with
  | some v => Char.ofNat (48 + v)
  | none => c

/-- Takes out the underscores, each of which must stand between two digits. -/
def dropUnderscores (afterDigit : Bool) : List Char → Option (List Char)
  | [] => some []
  | '_' :: rest =>
    match rest with
    | d :: _ => if afterDigit && d.isDigit then dropUnderscores false rest else none
    | [] => none
  | c :: rest => (dropUnderscores c.isDigit rest).map (c :: ·)

def natOfDigits (digits : List Char) : Nat :=
  digits.foldl (fun n c => n * 10 + (c.toNat - 48)) 0

structure SignedRest where
  negative : Bool
  rest : List Char

def takeSign : List Char → SignedRest
  | '-' :: rest => ⟨true, rest⟩
  | '+' :: rest => ⟨false, rest⟩
  | rest => ⟨false, rest⟩

/-- The exponent at the end of a number, zero if there is none. -/
def exponent? : List Char → Option Int
  | [] => some 0
  | c :: rest =>
    if c = 'e' ∨ c = 'E' then
      let s := takeSign rest
      if s.rest.isEmpty || !s.rest.all Char.isDigit then none
      else
        let n : Int := natOfDigits s.rest
        some (if s.negative then -n else n)
    else none

/-- Digits, an optional fraction and an optional exponent, to the end of the text. -/
def unsigned? (negative : Bool) (s : List Char) : Option Float :=
  let whole := s.takeWhile Char.isDigit
  let afterWhole := s.dropWhile Char.isDigit
  let (fraction, tail) := match afterWhole with
    | '.' :: rest => (rest.takeWhile Char.isDigit, rest.dropWhile Char.isDigit)
    | rest => ([], rest)
  if whole.isEmpty && fraction.isEmpty then none
  else (exponent? tail).map fun e =>
    ofDecimal negative (natOfDigits (whole ++ fraction)) (e - fraction.length)

def infinity (negative : Bool) : Float := nearest negative (Nat.pow 2 1024) 1

def nan : Float := Float.ofBits 0x7FF8000000000000

/-- The number that a text stands for. -/
def ofText? (text : String) : Option Float := do
  let s ← dropUnderscores false ((stripBlanks text.toList).map plainDigit)
  let signed := takeSign s
  let name := String.ofList (signed.rest.map Char.toLower)
  if name = "inf" ∨ name = "infinity" then some (infinity signed.negative)
  else if name = "nan" then some nan
  else unsigned? signed.negative signed.rest

end TreeScript.Decimal
