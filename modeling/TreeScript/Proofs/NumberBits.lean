import TreeScript.Proofs.NumberEquality

/-!
# The bits of numbers

A number is known from its bits: packing what has been read from them gives them back. The bits of a
finite number, without the sign, are its exponent and its mantissa in one natural.
-/

namespace TreeScript.Decimal

open Float.Model

/-! ## Packing -/

theorem exponentField_lt (x : Float) : exponentField x < 2 ^ 11 := by
  rw [exponentField_eq]
  exact Nat.mod_lt _ (Nat.two_pow_pos 11)

theorem signBit_eq (x : Float) : signBit x = (x.toBits.toNat / 2 ^ 63 == 1) := by
  unfold signBit
  rw [Bool.eq_iff_iff, beq_iff_eq, beq_iff_eq, ← UInt64.toNat_inj, UInt64.toNat_shiftRight,
    Nat.shiftRight_eq_div_pow]
  rfl

theorem toBits_eq (x : Float) :
    x.toBits.toNat =
      (if signBit x then 2 ^ 63 else 0) + exponentField x * 2 ^ 52 + fractionField x := by
  have hlt := x.toBits.toNat_lt
  rw [exponentField_eq, fractionField_eq, signBit_eq]
  split
  · next h =>
    rw [beq_iff_eq] at h
    omega
  · next h =>
    rw [beq_iff_eq] at h
    omega

theorem toNat_packComponents (s : UnpackedFloat.Sign) (e : BitVec 11) (m : BitVec 52) :
    (UnpackedFloat.packComponents Format.binary64 s e m).toNat =
      s.toBitVec.toNat * 2 ^ 63 + e.toNat * 2 ^ 52 + m.toNat := by
  unfold UnpackedFloat.packComponents
  rw [BitVec.toNat_append, BitVec.toNat_append]
  rw [← Nat.shiftLeft_add_eq_or_of_lt m.isLt, ← Nat.shiftLeft_add_eq_or_of_lt e.isLt]
  simp only [Nat.shiftLeft_eq]
  omega

theorem toNat_sign (x : Float) :
    (sign x).toBitVec.toNat * 2 ^ 63 = if signBit x then 2 ^ 63 else 0 := by
  have hlt := x.toBits.toNat_lt
  unfold sign
  rw [signBit_eq]
  split
  · next h =>
    rw [h]
    rfl
  · next h =>
    rw [show x.toBits.toNat / 2 ^ 63 = 1 by omega]
    rfl

theorem pack_finite (s : UnpackedFloat.Sign) (m : Nat) (e : Int) (hm : 0 < m) :
    UnpackedFloat.pack Format.binary64 (.finite s m e hm) =
      if 2 ^ 11 ≤ (e + 1023 + 52).toNat + 1 then UnpackedFloat.packedInfinity Format.binary64 s
      else if m.log2 + 1 = 53 then
        UnpackedFloat.packComponents Format.binary64 s (BitVec.ofNat 11 (e + 1023 + 52).toNat)
          (BitVec.ofNat 52 m)
      else UnpackedFloat.packComponents Format.binary64 s 0#11 (BitVec.ofNat 52 m) := rfl

/-- Packing a number as it was read gives its bits. -/
theorem Reading.toNat_pack {x : Float} {u : UnpackedFloat} (hx : Reading x u) :
    (UnpackedFloat.pack Format.binary64 u).toNat = x.toBits.toNat := by
  cases hx with
  | nan h =>
    rw [← UInt64.toNat_toBitVec, toBits_of_isNaN x h]
    rfl
  | infinity hs he hf =>
    show (UnpackedFloat.packComponents Format.binary64 _ (-1#_) 0).toNat = _
    rw [toNat_packComponents, toBits_eq, he, hf, ← hs, toNat_sign]
    rfl
  | zero hs he hf =>
    show (UnpackedFloat.packComponents Format.binary64 _ 0 0).toNat = _
    rw [toNat_packComponents, toBits_eq, he, hf, ← hs, toNat_sign]
    rfl
  | @subnormal s m hpos hs he hm =>
    -- there is no implicit bit, so the mantissa is the fraction field as it stands
    have hlt : m < 2 ^ 52 := hm ▸ fractionField_lt x
    have hlog : m.log2 < 52 := (Nat.log2_lt (Nat.ne_of_gt hpos)).mpr hlt
    rw [pack_finite, if_neg (by decide), if_neg (by omega), toNat_packComponents, toBits_eq, he, hm,
      ← hs, toNat_sign, BitVec.toNat_ofNat, BitVec.toNat_ofNat, Nat.mod_eq_of_lt hlt,
      Nat.zero_mod]
  | @normal s m e hpos hs he he' hm hexp =>
    have hlt := fractionField_lt x
    have hfield := exponentField_lt x
    have hlog : m.log2 = 52 := (Nat.log2_eq_iff (Nat.ne_of_gt hpos)).mpr ⟨by omega, by omega⟩
    rw [pack_finite, if_neg (by omega), if_pos (by omega), toNat_packComponents, toBits_eq, ← hs,
      toNat_sign, BitVec.toNat_ofNat, BitVec.toNat_ofNat]
    omega

/-- Reading the bits of a number gives the number. -/
theorem ofBits_toBits (x : Float) : Float.ofBits x.toBits = x := by
  apply eq_of_toBits_eq
  apply UInt64.toNat.inj
  exact (reading_unpack x).toNat_pack

theorem eq_of_toBits_toNat {x : Float} {n : Nat} (h : n = x.toBits.toNat) :
    Float.ofBits (UInt64.ofNat n) = x := by
  rw [h, UInt64.ofNat_toNat, ofBits_toBits]

/-! ## Exact values -/

/-- A finite number has its fraction as its mantissa, behind a leading one unless its exponent is the
least. -/
theorem dyadic?_eq_some {x : Float} {d : Dyadic} (hx : dyadic? x = some d) :
    (exponentField x = 0 ∧ d = ⟨signBit x, fractionField x, -1074⟩) ∨
      (exponentField x ≠ 0 ∧ exponentField x ≠ 0x7FF ∧
        d = ⟨signBit x, 2 ^ 52 + fractionField x, exponentField x - 1075⟩) := by
  unfold dyadic? at hx
  dsimp only at hx
  split at hx
  · cases hx
  · next hfinite =>
    split at hx
    · next hzero => exact .inl ⟨hzero, (Option.some.inj hx).symm⟩
    · next hzero => exact .inr ⟨hzero, hfinite, (Option.some.inj hx).symm⟩

/-- The mantissa and the exponent of a number that is neither zero nor infinite. -/
structure Dyadic.IsProper (d : Dyadic) : Prop where
  pos : 0 < d.mantissa
  lt : d.mantissa < 2 ^ 53
  low : -1074 ≤ d.exponent
  high : d.exponent ≤ 971
  normal : -1074 < d.exponent → 2 ^ 52 ≤ d.mantissa

section Exact

variable {x : Float} {d : Dyadic} (hx : dyadic? x = some d)

include hx

theorem negative_of_dyadic? : d.negative = signBit x := by
  rcases dyadic?_eq_some hx with ⟨-, rfl⟩ | ⟨-, -, rfl⟩ <;> rfl

theorem isProper_of_dyadic? (hd : d.mantissa ≠ 0) : d.IsProper := by
  have hfraction := fractionField_lt x
  have hexponent := exponentField_lt x
  have hpos : 0 < d.mantissa := Nat.pos_of_ne_zero hd
  rcases dyadic?_eq_some hx with ⟨hzero, rfl⟩ | ⟨hzero, hfinite, rfl⟩
  · constructor <;> dsimp only at hpos ⊢ <;> omega
  · constructor <;> dsimp only at hpos ⊢ <;> omega

theorem toBits_of_dyadic? :
    x.toBits.toNat = (if d.negative then 2 ^ 63 else 0) +
      ((d.exponent + 1074).toNat * 2 ^ 52 + d.mantissa) := by
  rw [toBits_eq, negative_of_dyadic? hx]
  rcases dyadic?_eq_some hx with ⟨hzero, rfl⟩ | ⟨hzero, hfinite, rfl⟩
  · rw [hzero]
    dsimp only
    omega
  · dsimp only
    omega

end Exact

end TreeScript.Decimal
