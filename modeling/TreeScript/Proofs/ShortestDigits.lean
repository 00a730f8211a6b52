import TreeScript.Decimal.Shortest
import TreeScript.Proofs.Rounding

/-!
# The shortest digits read back

The search for the shortest decimal compares naturals, on a grid of powers of ten. What it finds is a
decimal that reads back as the number, and so is the exact value that stands behind the search. Zeros
at the end of the digits make no difference. So the number can be told from its shortest digits.
-/

namespace TreeScript.Decimal

/-- The magnitude that a decimal stands for. -/
def Dec.value (c : Dec) : ℚ := c.digits * 10 ^ c.exponent

/-! ## Grids -/

namespace Dyadic

/-- How many of the units that a grid counts in make a last place. -/
def units (d : Dyadic) (g : ℤ) : ℕ :=
  4 * (Nat.pow 2 (d.exponent - 2).toNat * Nat.pow 10 (-g).toNat)

section Grid

variable (d : Dyadic) (g : ℤ)

theorem units_pos : (0 : ℚ) < d.units g := by
  have hnat : 0 < d.units g :=
    Nat.mul_pos (by decide) (Nat.mul_pos (Nat.pow_pos (by decide)) (Nat.pow_pos (by decide)))
  exact_mod_cast hnat

theorem place_div_units (digits : ℕ) :
    ((digits * (onGrid d g).step : ℕ) : ℚ) / d.units g = digits * 10 ^ g / 2 ^ d.exponent := by
  have hquarter : (2 : ℚ) ^ d.exponent = 2 ^ (d.exponent - 2) * 4 := by
    rw [zpow_sub₀ two_ne_zero]
    norm_num
  rw [hquarter, zpow_eq_div 2, zpow_eq_div 10, onGrid, units, Int.neg_sub]
  push_cast [Nat.pow_eq]
  field_simp

theorem high_div_units : ((onGrid d g).high : ℚ) / d.units g = d.mantissa + 1 / 2 := by
  rw [div_eq_iff (d.units_pos g).ne', onGrid, units]
  push_cast
  ring

theorem low_div_units (hd : d.mantissa ≠ 0) :
    ((onGrid d g).low : ℚ) / d.units g = d.mantissa - d.reach := by
  rw [div_eq_iff (d.units_pos g).ne', onGrid, units, reach]
  simp only [Nat.pow_eq]
  split
  · rw [Nat.cast_mul, Nat.cast_sub (by omega)]
    push_cast
    ring
  · rw [Nat.cast_mul, Nat.cast_sub (by omega)]
    push_cast
    ring

end Grid

/-- The comparison on the grid is exact. -/
theorem readsBack_iff {d : Dyadic} (hd : d.mantissa ≠ 0) (g : ℤ) (digits : ℕ) :
    (onGrid d g).readsBack digits = true ↔ d.ReadsBack (digits * 10 ^ g) := by
  have hunits := d.units_pos g
  unfold ReadsBack OnGrid.readsBack
  rw [← d.place_div_units, ← d.low_div_units g hd, ← d.high_div_units g]
  simp only [div_le_div_iff_of_pos_right hunits, div_lt_div_iff_of_pos_right hunits, Nat.cast_le,
    Nat.cast_lt]
  have hends : (onGrid d g).endsCount = (d.mantissa % 2 == 0) := rfl
  rw [hends]
  rcases Nat.mod_two_eq_zero_or_one d.mantissa with hm | hm
  · simp [hm]
  · simp [hm]
    omega

end Dyadic

/-! ## The search -/

theorem roundQuotient_cases (a b : ℕ) :
    roundQuotient a b = a / b ∨ roundQuotient a b = a / b + 1 := by
  unfold roundQuotient
  dsimp only
  split
  · exact .inl rfl
  · split
    · exact .inr rfl
    · omega

/-- A point that is taken reads back. -/
theorem OnGrid.readsBack_of_best? {o : OnGrid} {digits : ℕ} (h : o.best? = some digits) :
    o.readsBack digits = true := by
  unfold OnGrid.best? at h
  dsimp only at h
  split at h
  · cases h
  · next hbelow _ =>
    cases h
    exact hbelow
  · next _ habove =>
    cases h
    exact habove
  · next hbelow habove =>
    cases h
    rcases roundQuotient_cases o.value o.step with hround | hround
    · rw [hround]
      exact hbelow
    · rw [hround]
      exact habove

theorem value_exactDecimal (d : Dyadic) : (exactDecimal d).value = d.value := by
  rw [Dec.value, Dyadic.value, exactDecimal]
  split
  · next he =>
    obtain ⟨n, hn⟩ := Int.eq_ofNat_of_zero_le he
    rw [hn]
    simp
  · next he =>
    obtain ⟨n, hn⟩ := Int.eq_ofNat_of_zero_le (show 0 ≤ -d.exponent by omega)
    have hexponent : d.exponent = -n := by omega
    have hten : (10 : ℚ) ^ n = 5 ^ n * 2 ^ n := by
      rw [← mul_pow]
      norm_num
    rw [hexponent, neg_neg, Int.toNat_natCast, zpow_neg, zpow_neg, zpow_natCast, zpow_natCast, hten]
    push_cast [Nat.pow_eq]
    field_simp

theorem value_stripZeros (fuel : ℕ) (c : Dec) : (stripZeros fuel c).value = c.value := by
  induction fuel generalizing c with
  | zero => rfl
  | succ fuel ih =>
    rw [stripZeros]
    split
    · next h =>
      have hdigits : (c.digits : ℚ) = (c.digits / 10 : ℕ) * 10 := by
        have hnat : c.digits = c.digits / 10 * 10 := by omega
        exact_mod_cast hnat
      rw [ih, Dec.value, Dec.value, zpow_add_one₀ (by norm_num), hdigits]
      ring
    · rfl

/-- The shortest digits of a number read back as it. -/
theorem Dyadic.readsBack_shortest {d : Dyadic} (hd : d.mantissa ≠ 0) :
    d.ReadsBack (shortest d).value := by
  unfold shortest
  dsimp only
  rw [value_stripZeros]
  cases hfound : (List.range 18).findSome? fun n =>
      let g := decimalOrder d - (n + 1 : ℕ)
      (onGrid d g).best?.map fun digits => Dec.mk digits g with
  | none =>
    rw [Option.getD_none, value_exactDecimal]
    exact d.readsBack_value
  | some c =>
    obtain ⟨n, -, hbest⟩ := List.exists_of_findSome?_eq_some hfound
    obtain ⟨digits, hdigits, rfl⟩ := Option.map_eq_some_iff.mp hbest
    exact (Dyadic.readsBack_iff hd _ digits).mp (OnGrid.readsBack_of_best? hdigits)

theorem digits_shortest_pos {d : Dyadic} (hd : d.IsProper) : 0 < (shortest d).digits := by
  refine Nat.pos_of_ne_zero fun hzero => ?_
  have hlow := (Dyadic.readsBack_shortest hd.pos.ne').low hd
  rw [Dec.value, hzero, Nat.cast_zero, zero_mul] at hlow
  exact absurd hlow (not_le_of_gt (by positivity))

/-- A number that is neither zero nor infinite is read from its shortest digits. -/
theorem ofDecimal_shortest {x : Float} {d : Dyadic} (hx : dyadic? x = some d)
    (hd : d.mantissa ≠ 0) {digits : ℕ} {exponent : ℤ}
    (hvalue : digits * 10 ^ exponent = (shortest d).value) :
    ofDecimal d.negative digits exponent = x := by
  apply ofDecimal_of_readsBack hx hd
  rw [hvalue]
  exact Dyadic.readsBack_shortest hd

end TreeScript.Decimal
