import Mathlib.Algebra.Order.Field.Rat
import Mathlib.Algebra.Order.Field.Power
import Mathlib.Tactic.FieldSimp
import Mathlib.Tactic.Linarith
import Mathlib.Tactic.NormNum
import Mathlib.Tactic.Positivity
import Mathlib.Tactic.Qify
import Mathlib.Tactic.Ring
import TreeScript.Proofs.NumberBits

/-!
# Rounding

The magnitudes that read back as a number are those between the midpoints to its two neighbours, and
the midpoints themselves if the mantissa is even. A quotient that reads back as a number is rounded to
the bits of that number; so is a decimal, however its digits are shared out between the digits and
the exponent.
-/

namespace TreeScript.Decimal

/-! ## Quotients -/

theorem zpow_eq_div (b : ℚ) (e : ℤ) : b ^ e = b ^ e.toNat / b ^ (-e).toNat := by
  rcases Int.le_total 0 e with he | he
  · obtain ⟨n, rfl⟩ := Int.eq_ofNat_of_zero_le he
    simp
  · obtain ⟨n, hn⟩ := Int.eq_ofNat_of_zero_le (Int.neg_nonneg.mpr he)
    obtain rfl : e = -n := by omega
    simp [zpow_neg]

/-- A quotient is scaled by scaling its ends. -/
theorem div_scale (num den : ℕ) (e : ℤ) :
    ((scale num den e).1 : ℚ) / (scale num den e).2 = num / den * 2 ^ e := by
  rw [zpow_eq_div, scale]
  push_cast [Nat.pow_eq]
  rw [mul_div_mul_comm]

theorem scale_pos {num den : ℕ} (hden : 0 < den) (e : ℤ) : 0 < (scale num den e).2 :=
  Nat.mul_pos hden (Nat.pow_pos Nat.two_pos)

/-- What is within half of a natural is rounded to it, and what is half off only if it is even. -/
theorem roundQuotient_eq {a b n : ℕ} (hlow : 2 * (b * n) ≤ 2 * a + b)
    (hhigh : 2 * a ≤ 2 * (b * n) + b)
    (hodd : n % 2 = 1 → 2 * (b * n) < 2 * a + b ∧ 2 * a < 2 * (b * n) + b) (hb : 0 < b) :
    roundQuotient a b = n := by
  have hdiv : b * (a / b) + a % b = a := Nat.div_add_mod a b
  have hmod : a % b < b := Nat.mod_lt a hb
  -- `n` is one of the two whole numbers next to the quotient
  have hle : n ≤ a / b + 1 := by
    by_contra hlt
    have hmul : b * (a / b + 2) ≤ b * n := Nat.mul_le_mul_left b (by omega)
    rw [Nat.mul_add] at hmul
    omega
  have hge : a / b ≤ n := by
    by_contra hlt
    have hmul : b * (n + 1) ≤ b * (a / b) := Nat.mul_le_mul_left b (by omega)
    rw [Nat.mul_add] at hmul
    omega
  unfold roundQuotient
  dsimp only
  rcases Nat.lt_or_eq_of_le hge with hup | hsame
  · obtain rfl : n = a / b + 1 := by omega
    rw [Nat.mul_add, Nat.mul_one] at hlow hhigh hodd
    split
    · omega
    · split <;> omega
  · rw [← hsame] at hlow hhigh hodd ⊢
    split
    · rfl
    · split <;> omega

/-- The same of quotients. -/
theorem roundQuotient_of_near {a b n : ℕ} (hb : 0 < b) (hlow : (n : ℚ) - 1 / 2 ≤ a / b)
    (hhigh : (a : ℚ) / b ≤ n + 1 / 2)
    (hodd : n % 2 = 1 → (n : ℚ) - 1 / 2 < a / b ∧ (a : ℚ) / b < n + 1 / 2) :
    roundQuotient a b = n := by
  have hb' : (0 : ℚ) < b := Nat.cast_pos.mpr hb
  rw [le_div_iff₀ hb'] at hlow
  rw [div_le_iff₀ hb'] at hhigh
  rw [lt_div_iff₀ hb', div_lt_iff₀ hb'] at hodd
  have hodd' : n % 2 = 1 → 2 * (b * n) < 2 * a + b ∧ 2 * a < 2 * (b * n) + b := by
    intro hn
    obtain ⟨hlow, hhigh⟩ := hodd hn
    constructor <;> qify <;> linarith
  refine roundQuotient_eq ?_ ?_ hodd' hb
  · qify
    linarith
  · qify
    linarith

/-! ## Binary orders -/

section Order

variable {num den : ℕ} (hnum : 0 < num) (hden : 0 < den)

include hnum hden

/-- The logarithms of numerator and denominator tell the order of a quotient up to one place. -/
theorem zpow_log2_le_div :
    (2 : ℚ) ^ ((num.log2 : ℤ) - den.log2 - 1) ≤ num / den ∧
      (num / den : ℚ) < 2 ^ ((num.log2 : ℤ) - den.log2 + 1) := by
  have hden' : (0 : ℚ) < den := Nat.cast_pos.mpr hden
  have hnum_low : ((2 : ℚ) ^ num.log2 : ℚ) ≤ num := by exact_mod_cast Nat.log2_self_le hnum.ne'
  have hnum_high : (num : ℚ) < 2 ^ (num.log2 + 1) := by exact_mod_cast Nat.lt_log2_self
  have hden_low : ((2 : ℚ) ^ den.log2 : ℚ) ≤ den := by exact_mod_cast Nat.log2_self_le hden.ne'
  have hden_high : (den : ℚ) < 2 ^ (den.log2 + 1) := by exact_mod_cast Nat.lt_log2_self
  constructor
  · calc (2 : ℚ) ^ ((num.log2 : ℤ) - den.log2 - 1)
        = 2 ^ num.log2 / 2 ^ (den.log2 + 1) := by
          rw [← zpow_natCast, ← zpow_natCast, ← zpow_sub₀ two_ne_zero]
          congr 1
          omega
      _ ≤ num / den := div_le_div₀ (Nat.cast_nonneg num) hnum_low hden' hden_high.le
  · calc (num / den : ℚ)
        < 2 ^ (num.log2 + 1) / 2 ^ den.log2 :=
          div_lt_div₀ hnum_high hden_low (by positivity) (by positivity)
      _ = 2 ^ ((num.log2 : ℤ) - den.log2 + 1) := by
          rw [← zpow_natCast, ← zpow_natCast, ← zpow_sub₀ two_ne_zero]
          congr 1
          omega

theorem binaryOrder_spec :
    (2 : ℚ) ^ binaryOrder num den ≤ num / den ∧
      (num / den : ℚ) < 2 ^ (binaryOrder num den + 1) := by
  have hpow (k : ℤ) : (0 : ℚ) < 2 ^ k := by positivity
  obtain ⟨hlow, hhigh⟩ := zpow_log2_le_div hnum hden
  have hscale := div_scale num den (-((num.log2 : ℤ) - den.log2))
  have hpos : 0 < (scale num den (-((num.log2 : ℤ) - den.log2))).2 := scale_pos hden _
  unfold binaryOrder
  dsimp only
  generalize scale num den (-((num.log2 : ℤ) - den.log2)) = p at hscale hpos ⊢
  obtain ⟨a, b⟩ := p
  dsimp only at hscale hpos ⊢
  generalize hk : (num.log2 : ℤ) - den.log2 = k at hlow hhigh hscale ⊢
  have hb : (0 : ℚ) < b := Nat.cast_pos.mpr hpos
  rw [zpow_neg, ← div_eq_mul_inv] at hscale
  split
  · next hle =>
    have hone : (1 : ℚ) ≤ a / b := (one_le_div₀ hb).mpr (Nat.cast_le.mpr hle)
    rw [hscale, one_le_div₀ (hpow k)] at hone
    exact ⟨hone, hhigh⟩
  · next hlt =>
    have hone : (a / b : ℚ) < 1 := (div_lt_one₀ hb).mpr (Nat.cast_lt.mpr (Nat.lt_of_not_le hlt))
    rw [hscale, div_lt_one₀ (hpow k)] at hone
    rw [Int.sub_add_cancel]
    exact ⟨hlow, hone⟩

theorem binaryOrder_eq {k : ℤ} (hlow : (2 : ℚ) ^ k ≤ num / den)
    (hhigh : (num / den : ℚ) < 2 ^ (k + 1)) : binaryOrder num den = k := by
  obtain ⟨hlow', hhigh'⟩ := binaryOrder_spec hnum hden
  have hle := (zpow_lt_zpow_iff_right₀ one_lt_two).mp (hlow.trans_lt hhigh')
  have hge := (zpow_lt_zpow_iff_right₀ one_lt_two).mp (hlow'.trans_lt hhigh)
  omega

/-- The order of a quotient that is counted in places of order `e`. -/
theorem binaryOrder_eq_add {e k : ℤ} (hlow : (2 : ℚ) ^ k ≤ num / den / 2 ^ e)
    (hhigh : (num / den / 2 ^ e : ℚ) < 2 ^ (k + 1)) : binaryOrder num den = e + k := by
  have hpow : (0 : ℚ) < 2 ^ e := by positivity
  apply binaryOrder_eq hnum hden
  · rwa [add_comm, zpow_add₀ two_ne_zero, ← le_div_iff₀ hpow]
  · rwa [add_assoc, add_comm, zpow_add₀ two_ne_zero, ← div_lt_iff₀ hpow]

end Order

/-! ## What reads back -/

namespace Dyadic

/-- How far the midpoint to the next smaller number is, in last binary places. -/
def reach (d : Dyadic) : ℚ := if d.mantissa = 2 ^ 52 ∧ -1074 < d.exponent then 1 / 4 else 1 / 2

/-- A magnitude between the midpoints to the two neighbours of a number; a midpoint itself counts when
the mantissa is even. -/
def ReadsBack (d : Dyadic) (v : ℚ) : Prop :=
  (d.mantissa - d.reach ≤ v / 2 ^ d.exponent ∧ v / 2 ^ d.exponent ≤ d.mantissa + 1 / 2) ∧
    (d.mantissa % 2 = 1 →
      d.mantissa - d.reach < v / 2 ^ d.exponent ∧ v / 2 ^ d.exponent < d.mantissa + 1 / 2)

theorem reach_pos (d : Dyadic) : 0 < d.reach := by
  unfold reach
  split <;> norm_num

theorem reach_le (d : Dyadic) : d.reach ≤ 1 / 2 := by
  unfold reach
  split <;> norm_num

/-- The magnitude of a finite number. -/
def value (d : Dyadic) : ℚ := d.mantissa * 2 ^ d.exponent

/-- A number reads back as itself. -/
theorem readsBack_value (d : Dyadic) : d.ReadsBack d.value := by
  have hpow : (0 : ℚ) < 2 ^ d.exponent := by positivity
  have hplaces : d.value / 2 ^ d.exponent = d.mantissa := by
    rw [value, mul_div_cancel_right₀ _ hpow.ne']
  have hreach := d.reach_pos
  unfold ReadsBack
  rw [hplaces]
  refine ⟨⟨?_, ?_⟩, fun _ => ⟨?_, ?_⟩⟩ <;> linarith

variable {d : Dyadic} (hd : d.IsProper) {num den : ℕ} (hnum : 0 < num) (hden : 0 < den)
  (h : d.ReadsBack (num / den))

/-- Counted in last places, a magnitude that reads back is next to the mantissa. -/
theorem ReadsBack.roundQuotient {v : ℚ} (h : d.ReadsBack v) {a b : ℕ} (hb : 0 < b)
    (hv : (a : ℚ) / b = v / 2 ^ d.exponent) : roundQuotient a b = d.mantissa := by
  have hreach := d.reach_le
  obtain ⟨⟨hlow, hhigh⟩, hodd⟩ := h
  refine roundQuotient_of_near hb ?_ (hv ▸ hhigh) fun hm => ⟨?_, hv ▸ (hodd hm).2⟩
  · linarith
  · have hlow' := (hodd hm).1
    linarith

include hd hnum hden h

/-- The last place of what reads back is that of the number; or one below, if the number is the least
with its exponent. -/
theorem lastPlace_of_readsBack :
    max (binaryOrder num den - 52) (-1074) = d.exponent ∨
      (max (binaryOrder num den - 52) (-1074) = d.exponent - 1 ∧
        -1074 < d.exponent ∧ d.mantissa = 2 ^ 52 ∧
        (2 : ℚ) ^ 52 - 1 / 4 ≤ num / den / 2 ^ d.exponent ∧
        (num / den / 2 ^ d.exponent : ℚ) < 2 ^ 52) := by
  obtain ⟨hpos, hlt, hmin, hmax, hnormal⟩ := hd
  obtain ⟨⟨hlow, hhigh⟩, -⟩ := h
  have hpow : (0 : ℚ) < 2 ^ d.exponent := by positivity
  have hmantissa : (d.mantissa : ℚ) + 1 ≤ 2 ^ 53 := by exact_mod_cast hlt
  by_cases hu : (2 : ℚ) ^ 52 ≤ num / den / 2 ^ d.exponent
  · have horder : binaryOrder num den = d.exponent + 52 := by
      refine binaryOrder_eq_add hnum hden (by exact_mod_cast hu) ?_
      have h53 : (2 : ℚ) ^ ((52 : ℤ) + 1) = 2 ^ 53 := by norm_num
      rw [h53]
      linarith
    left
    omega
  · rw [not_le] at hu
    by_cases hleast : -1074 < d.exponent
    · -- only the number whose mantissa is least has values below it that read back
      have hm : d.mantissa = 2 ^ 52 := by
        refine Nat.le_antisymm ?_ (hnormal hleast)
        by_contra hmore
        have hmore' : (2 : ℚ) ^ 52 + 1 ≤ d.mantissa := by exact_mod_cast Nat.lt_of_not_le hmore
        have := d.reach_le
        linarith
      have hreach : d.reach = 1 / 4 := if_pos ⟨hm, hleast⟩
      have hnear : (2 : ℚ) ^ 52 - 1 / 4 ≤ num / den / 2 ^ d.exponent := by
        rw [hm, hreach] at hlow
        exact_mod_cast hlow
      have horder : binaryOrder num den = d.exponent + 51 := by
        have h51 : (2 : ℚ) ^ (51 : ℤ) ≤ 2 ^ 52 - 1 / 4 := by norm_num
        exact binaryOrder_eq_add hnum hden (h51.trans hnear) (by exact_mod_cast hu)
      right
      exact ⟨by omega, hleast, hm, hnear, hu⟩
    · -- there are no places below the least exponent, whatever the order is
      have hbelow : binaryOrder num den < d.exponent + 52 := by
        have hle := (binaryOrder_spec hnum hden).1
        have hlt : (num / den : ℚ) < 2 ^ (d.exponent + 52) := by
          rw [add_comm, zpow_add₀ two_ne_zero, ← div_lt_iff₀ hpow]
          exact_mod_cast hu
        exact (zpow_lt_zpow_iff_right₀ one_lt_two).mp (hle.trans_lt hlt)
      left
      omega

/-- What reads back as a number is rounded to its bits. -/
theorem nearestBits_of_readsBack :
    nearestBits num den = (d.exponent + 1074).toNat * 2 ^ 52 + d.mantissa := by
  have hplace := lastPlace_of_readsBack hd hnum hden h
  obtain ⟨hpos, hlt, hmin, hmax, hnormal⟩ := hd
  unfold nearestBits
  dsimp only [Nat.pow_eq]
  generalize max (binaryOrder num den - 52) (-1074) = e at hplace ⊢
  have hpos : 0 < (scale num den (-e)).2 := scale_pos hden (-e)
  have hscale := div_scale num den (-e)
  generalize scale num den (-e) = p at hpos hscale ⊢
  obtain ⟨a, b⟩ := p
  rw [zpow_neg, ← div_eq_mul_inv] at hscale
  have hbits : (e + 1074).toNat * 2 ^ 52 + roundQuotient a b =
      (d.exponent + 1074).toNat * 2 ^ 52 + d.mantissa := by
    rcases hplace with rfl | ⟨rfl, hleast, hm, hnear, hu⟩
    · rw [h.roundQuotient hpos hscale]
    · -- in places of half the size there are twice as many, and rounding carries into the exponent
      have hdouble : (a : ℚ) / b = 2 * (num / den / 2 ^ d.exponent) := by
        rw [hscale, zpow_sub_one₀ two_ne_zero]
        field_simp
      have hround : roundQuotient a b = 2 ^ 53 := by
        refine roundQuotient_of_near hpos ?_ ?_ (fun hodd => ?_)
        · rw [hdouble]
          push_cast
          linarith
        · rw [hdouble]
          push_cast
          linarith
        · exact absurd hodd (by decide)
      rw [hround, hm]
      omega
  rw [hbits]
  omega

end Dyadic

/-! ## Numbers -/

/-- A quotient that reads back as a number is nearest to it. -/
theorem nearest_of_readsBack {x : Float} {d : Dyadic} (hx : dyadic? x = some d)
    (hd : d.mantissa ≠ 0) {num den : ℕ} (hnum : 0 < num) (hden : 0 < den)
    (h : d.ReadsBack (num / den)) : nearest d.negative num den = x := by
  unfold nearest
  rw [if_neg hnum.ne']
  apply eq_of_toBits_toNat
  rw [toBits_of_dyadic? hx, Dyadic.nearestBits_of_readsBack (isProper_of_dyadic? hx hd) hnum hden h]
  cases d.negative
  · simp
  · rfl

/-! ## Decimals -/

namespace Dyadic.ReadsBack

variable {d : Dyadic} (hd : d.IsProper) {v : ℚ} (h : d.ReadsBack v)

include hd h

/-- No less than half of the least number reads back as one. -/
theorem low : (2 : ℚ) ^ (-1075 : ℤ) ≤ v := by
  have hpow : (0 : ℚ) < 2 ^ d.exponent := by positivity
  have hone : (1 : ℚ) ≤ d.mantissa := by exact_mod_cast hd.pos
  have hreach := d.reach_le
  have hhalf : 1 / 2 ≤ v / 2 ^ d.exponent := by
    have hlow := h.1.1
    linarith
  rw [le_div_iff₀ hpow] at hhalf
  calc (2 : ℚ) ^ (-1075 : ℤ)
      ≤ 2 ^ (d.exponent - 1) := zpow_le_zpow_right₀ one_le_two (by have := hd.low; omega)
    _ = 1 / 2 * 2 ^ d.exponent := by
        rw [zpow_sub_one₀ two_ne_zero]
        ring
    _ ≤ v := hhalf

/-- Nothing that reads back as a number is beyond all of them. -/
theorem high : v < 2 ^ 1024 := by
  have hpow : (0 : ℚ) < 2 ^ d.exponent := by positivity
  have hmantissa : (d.mantissa : ℚ) + 1 ≤ 2 ^ 53 := by exact_mod_cast hd.lt
  have hplaces : v / 2 ^ d.exponent < 2 ^ 53 := by
    have hhigh := h.1.2
    linarith
  rw [div_lt_iff₀ hpow] at hplaces
  calc v < 2 ^ 53 * 2 ^ d.exponent := hplaces
    _ ≤ 2 ^ 53 * 2 ^ (971 : ℤ) :=
        mul_le_mul_of_nonneg_left (zpow_le_zpow_right₀ one_le_two hd.high) (by positivity)
    _ = 2 ^ 1024 := by rw [show (971 : ℤ) = (971 : ℕ) from rfl, zpow_natCast, ← pow_add]

end Dyadic.ReadsBack

/-- Below the bound of all numbers, an exponent is not large. -/
theorem exponent_le {digits : ℕ} (hdigits : digits ≠ 0) {exponent : ℤ}
    (h : digits * (10 : ℚ) ^ exponent < 2 ^ 1024) : exponent ≤ 400 := by
  by_contra hlarge
  have hone : (1 : ℚ) ≤ digits := by exact_mod_cast Nat.one_le_iff_ne_zero.mpr hdigits
  have hle : (2 : ℚ) ^ 1024 ≤ digits * 10 ^ exponent := by
    calc (2 : ℚ) ^ 1024
        ≤ 10 ^ (401 : ℤ) := by
          have hnat : 2 ^ 1024 ≤ 10 ^ 401 := by decide +kernel
          exact_mod_cast hnat
      _ ≤ 10 ^ exponent := zpow_le_zpow_right₀ (by norm_num) (by omega)
      _ ≤ digits * 10 ^ exponent := le_mul_of_one_le_left (by positivity) hone
  exact absurd h (not_lt_of_ge hle)

/-- From half of the least number on, an exponent is small only with many digits. -/
theorem le_exponent {digits : ℕ} {exponent : ℤ}
    (h : (2 : ℚ) ^ (-1075 : ℤ) ≤ digits * 10 ^ exponent) :
    -400 - (digits.log2 : ℤ) ≤ exponent := by
  by_contra hsmall
  have hlog : (digits : ℚ) < 10 ^ (digits.log2 + 1) := by
    have hbits : digits < 2 ^ (digits.log2 + 1) := Nat.lt_log2_self
    have hbase : 2 ^ (digits.log2 + 1) ≤ 10 ^ (digits.log2 + 1) :=
      Nat.pow_le_pow_left (by decide) _
    exact_mod_cast hbits.trans_le hbase
  have hlt : digits * (10 : ℚ) ^ exponent < 2 ^ (-1075 : ℤ) := by
    calc digits * (10 : ℚ) ^ exponent
        < 10 ^ (digits.log2 + 1) * 10 ^ exponent := mul_lt_mul_of_pos_right hlog (by positivity)
      _ = 10 ^ ((digits.log2 + 1 : ℕ) + exponent) := by
          rw [zpow_add₀ (by norm_num), zpow_natCast]
      _ ≤ 10 ^ (-400 : ℤ) := zpow_le_zpow_right₀ (by norm_num) (by omega)
      _ ≤ 2 ^ (-1075 : ℤ) := by
          have hnat : 2 ^ 1075 ≤ 10 ^ 400 := by decide +kernel
          rw [zpow_neg, zpow_neg]
          exact inv_anti₀ (by positivity) (by exact_mod_cast hnat)
  exact absurd h (not_le_of_gt hlt)

/-- A decimal that reads back as a number is nearest to it, wherever its point is. -/
theorem ofDecimal_of_readsBack {x : Float} {d : Dyadic} (hx : dyadic? x = some d)
    (hd : d.mantissa ≠ 0) {digits : ℕ} {exponent : ℤ}
    (h : d.ReadsBack (digits * 10 ^ exponent)) : ofDecimal d.negative digits exponent = x := by
  have hproper := isProper_of_dyadic? hx hd
  have hmin := h.low hproper
  have hdigits : digits ≠ 0 := by
    rintro rfl
    rw [Nat.cast_zero, zero_mul] at hmin
    exact absurd hmin (not_le_of_gt (by positivity))
  -- the shortcuts for large and for small exponents are not taken
  have hhigh := exponent_le hdigits (h.high hproper)
  have hlow := le_exponent hmin
  unfold ofDecimal
  rw [if_neg hdigits, if_neg (not_lt_of_ge hhigh), if_neg (not_lt_of_ge hlow)]
  refine nearest_of_readsBack hx hd ?_ ?_ ?_
  · exact Nat.mul_pos (Nat.pos_of_ne_zero hdigits) (Nat.pow_pos (by decide))
  · exact Nat.pow_pos (by decide)
  · rw [zpow_eq_div, ← mul_div_assoc] at h
    push_cast [Nat.pow_eq]
    exact h

end TreeScript.Decimal
