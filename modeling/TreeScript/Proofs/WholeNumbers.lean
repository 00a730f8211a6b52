import TreeScript.Proofs.Rounding

/-!
# Whole numbers

A whole number is as large as its integer, to the last digit, and is the number nearest to it. So
whole numbers of the same integer are equal, and no such integer has more than some hundred digits.
-/

namespace TreeScript.Decimal

/-- The integer of a whole number has its magnitude and, unless it is zero, its sign. -/
theorem integer?_eq_some {x : Float} {i : ℤ} (h : integer? x = some i) :
    ∃ d, dyadic? x = some d ∧ (i.natAbs : ℚ) = d.value ∧ (i ≠ 0 → d.negative = decide (i < 0)) := by
  unfold integer? at h
  cases hd : dyadic? x with
  | none => simp [hd] at h
  | some d =>
    rw [hd] at h
    obtain ⟨n, hn, hi⟩ := Option.map_eq_some_iff.mp h
    have hvalue : (n : ℚ) = d.value := by
      rw [Dyadic.value]
      split at hn
      · next he =>
        obtain ⟨k, hk⟩ := Int.eq_ofNat_of_zero_le he
        rw [← Option.some.inj hn, hk]
        simp
      · next he =>
        obtain ⟨k, hk⟩ := Int.eq_ofNat_of_zero_le (show 0 ≤ -d.exponent by omega)
        have hexponent : d.exponent = -k := by omega
        rw [hk, Int.toNat_natCast, Nat.pow_eq] at hn
        split at hn
        · next hdvd =>
          have hmantissa : d.mantissa = n * 2 ^ k := by
            rw [← Option.some.inj hn, Nat.div_mul_cancel (Nat.dvd_of_mod_eq_zero hdvd)]
          rw [hexponent, hmantissa, zpow_neg, zpow_natCast]
          push_cast
          field_simp
        · cases hn
    refine ⟨d, rfl, ?_, ?_⟩
    · rw [← hvalue, ← hi]
      split <;> simp
    · intro hne
      rw [← hi] at hne ⊢
      cases hsign : d.negative with
      | true =>
        simp only [hsign, if_true] at hne ⊢
        exact (decide_eq_true (by omega)).symm
      | false =>
        simp only [Bool.false_eq_true, if_false]
        exact (decide_eq_false (by omega)).symm

/-! ## Zero -/

theorem isZero_of_mantissa {x : Float} {d : Dyadic} (hx : dyadic? x = some d)
    (hd : d.mantissa = 0) : IsZero x := by
  rcases dyadic?_eq_some hx with ⟨hzero, rfl⟩ | ⟨hzero, hfinite, rfl⟩
  · exact ⟨hzero, hd⟩
  · dsimp only at hd
    omega

/-- Nothing is nearest to zero, of the sign asked for. -/
theorem nearest_zero {x : Float} {d : Dyadic} (hx : dyadic? x = some d) (hd : d.mantissa = 0)
    (den : ℕ) : nearest d.negative 0 den = x := by
  have hexponent : d.exponent = -1074 := by
    rcases dyadic?_eq_some hx with ⟨-, rfl⟩ | ⟨-, -, rfl⟩
    · rfl
    · dsimp only at hd
      omega
  unfold nearest
  rw [if_pos rfl]
  apply eq_of_toBits_toNat
  rw [toBits_of_dyadic? hx, hd, hexponent]
  cases d.negative <;> rfl

theorem mantissa_ne_zero_of_value {d : Dyadic} (hd : d.value ≠ 0) : d.mantissa ≠ 0 := by
  intro hzero
  rw [Dyadic.value, hzero, Nat.cast_zero, zero_mul] at hd
  exact hd rfl

/-- Only the zeros are the integer zero. -/
theorem isZero_of_integer? {x : Float} (h : integer? x = some 0) : IsZero x := by
  obtain ⟨d, hx, hvalue, -⟩ := integer?_eq_some h
  have hpow : (2 : ℚ) ^ d.exponent ≠ 0 := by positivity
  have hproduct : (d.mantissa : ℚ) * 2 ^ d.exponent = 0 := hvalue.symm
  have hmantissa : d.mantissa = 0 := by
    rcases mul_eq_zero.mp hproduct with hzero | hzero
    · exact_mod_cast hzero
    · exact absurd hzero hpow
  exact isZero_of_mantissa hx hmantissa

/-! ## Other whole numbers -/

section Whole

variable {x y : Float} {i : ℤ} (hx : integer? x = some i)

include hx

/-- A whole number other than zero is the number nearest to its integer. -/
theorem nearest_of_integer? (hi : i ≠ 0) : nearest (decide (i < 0)) i.natAbs 1 = x := by
  obtain ⟨d, hd, hvalue, hsign⟩ := integer?_eq_some hx
  have hne : d.value ≠ 0 := by
    rw [← hvalue]
    exact_mod_cast Int.natAbs_ne_zero.mpr hi
  rw [← hsign hi]
  refine nearest_of_readsBack hd (mantissa_ne_zero_of_value hne) ?_ Nat.one_pos ?_
  · exact Int.natAbs_pos.mpr hi
  · rw [Nat.cast_one, div_one, hvalue]
    exact d.readsBack_value

/-- Whole numbers of one integer are equal. -/
theorem plain_eq_of_integer? (hy : integer? y = some i) : plain x = plain y := by
  rw [plain_eq_iff]
  by_cases hi : i = 0
  · subst hi
    exact .inr ⟨isZero_of_integer? hx, isZero_of_integer? hy⟩
  · left
    rw [← nearest_of_integer? hx hi, nearest_of_integer? hy hi]

/-- No number is a larger integer. -/
theorem natAbs_lt_of_integer? : i.natAbs < 2 ^ 1024 := by
  by_cases hi : i = 0
  · subst hi
    rw [Int.natAbs_zero]
    positivity
  · obtain ⟨d, hd, hvalue, -⟩ := integer?_eq_some hx
    have hne : d.value ≠ 0 := by
      rw [← hvalue]
      exact_mod_cast Int.natAbs_ne_zero.mpr hi
    have hproper := isProper_of_dyadic? hd (mantissa_ne_zero_of_value hne)
    have hhigh := d.readsBack_value.high hproper
    rw [← hvalue] at hhigh
    exact_mod_cast hhigh

end Whole

end TreeScript.Decimal
