import TreeScript.Decimal.Binary64

/-!
# The shortest decimal that reads back

The decimals that read back as a given number are those between the midpoints
to its two neighbours; the midpoints themselves count when the mantissa is
even. Among them the shortest is taken, of two of that length the nearer to the
number, and of two equally near the one with an even last digit.

For each number of digits only the two points of that decimal grid that lie
around the number can be the nearest ones, so the search tests those two, on
ever finer grids, in exact arithmetic.
-/

namespace TreeScript.Decimal

/-- The decimal `digits * 10 ^ exponent`. -/
structure Dec where
  digits : Nat
  exponent : Int
  deriving Repr, DecidableEq

/-- A number on the grid of step `10 ^ g`: its distance from zero, and the ends
of the interval that reads back, in quarters of the last binary place, where
`unit` such quarters make one step of the grid. -/
structure OnGrid where
  value : Nat
  low : Nat
  high : Nat
  step : Nat
  endsCount : Bool

def onGrid (d : Dyadic) (g : Int) : OnGrid :=
  let up := Nat.pow 2 (d.exponent - 2).toNat * Nat.pow 10 (-g).toNat
  let narrow := d.mantissa = Nat.pow 2 52 ∧ -1074 < d.exponent
  { value := 4 * d.mantissa * up
    low := (4 * d.mantissa - if narrow then 1 else 2) * up
    high := (4 * d.mantissa + 2) * up
    step := Nat.pow 2 (2 - d.exponent).toNat * Nat.pow 10 g.toNat
    endsCount := d.mantissa % 2 == 0 }

namespace OnGrid

def readsBack (o : OnGrid) (digits : Nat) : Bool :=
  let place := digits * o.step
  if o.endsCount then o.low ≤ place && place ≤ o.high else o.low < place && place < o.high

/-- The nearest point of the grid that reads back. -/
def best? (o : OnGrid) : Option Nat :=
  let below := o.value / o.step
  match o.readsBack below, o.readsBack (below + 1) with
  | false, false => none
  | true, false => some below
  | false, true => some (below + 1)
  | true, true => some (roundQuotient o.value o.step)

end OnGrid

/-- A power of ten that exceeds the number, at most a few steps above the least one. -/
def decimalOrder (d : Dyadic) : Int :=
  let k := Int.fdiv ((d.mantissa.log2 + d.exponent) * 30103) 100000
  let below (k : Int) : Bool := (onGrid d k).value < (onGrid d k).step
  if below k then k else if below (k + 1) then k + 1 else k + 2

/-- Moves zeros at the end of the digits into the exponent. -/
def stripZeros : Nat → Dec → Dec
  | 0, d => d
  | fuel + 1, d =>
    if d.digits % 10 = 0 ∧ d.digits ≠ 0 then stripZeros fuel ⟨d.digits / 10, d.exponent + 1⟩ else d

/-- The exact decimal value of a binary number. -/
def exactDecimal (d : Dyadic) : Dec :=
  if 0 ≤ d.exponent then ⟨d.mantissa * Nat.pow 2 d.exponent.toNat, 0⟩
  else ⟨d.mantissa * Nat.pow 5 (-d.exponent).toNat, d.exponent⟩

/-- The shortest decimal that reads back as a number. Seventeen digits always
suffice; the exact value stands behind them. -/
def shortest (d : Dyadic) : Dec :=
  let k := decimalOrder d
  let found := (List.range 18).findSome? fun n =>
    let g := k - (n + 1 : Nat)
    (onGrid d g).best?.map fun digits => Dec.mk digits g
  stripZeros 20 (found.getD (exactDecimal d))

end TreeScript.Decimal
