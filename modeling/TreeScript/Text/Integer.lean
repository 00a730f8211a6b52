/-!
# Written integers

An integer is written in decimal digits, unless it has too many of them: one of
more than 4300 digits has no written form.
-/

namespace TreeScript.Text

/-- The most digits that an integer is written with. -/
def mostDigits : Nat := 4300

/-- Whether an integer has a written form. -/
def isWritable (i : Int) : Bool := i.natAbs < Nat.pow 10 mostDigits

/-- What is said of an integer that has no written form. -/
def tooManyDigits : String :=
  s!"Exceeds the limit ({mostDigits} digits) for integer string conversion; " ++
    "use sys.set_int_max_str_digits() to increase the limit"

end TreeScript.Text
