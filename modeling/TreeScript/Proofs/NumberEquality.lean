import Mathlib.Algebra.Group.Nat.Defs
import TreeScript.Data
import TreeScript.Syntax.Same
import TreeScript.Value.Same

/-!
# Equal numbers

Numbers compare as equal when they are the same number, or both zero, or both
NaN. There is only one NaN, so apart from the sign of zero equal numbers are the
same. Dropping that sign gives each number a plain form, and numbers are equal
exactly when their plain forms are the same.

The comparison of numbers reads their bits as a sign, an exponent field and a
fraction field.
-/

namespace TreeScript.Decimal

open Float.Model

/-! ## Fields of the bits -/

theorem exponentField_eq (x : Float) :
    exponentField x = x.toBits.toNat / 2 ^ 52 % 2 ^ 11 := by
  unfold exponentField
  rw [UInt64.toNat_and, UInt64.toNat_shiftRight, Nat.shiftRight_eq_div_pow]
  exact Nat.and_two_pow_sub_one_eq_mod _ 11

theorem fractionField_eq (x : Float) : fractionField x = x.toBits.toNat % 2 ^ 52 := by
  unfold fractionField
  rw [UInt64.toNat_and]
  exact Nat.and_two_pow_sub_one_eq_mod _ 52

theorem fractionField_lt (x : Float) : fractionField x < 2 ^ 52 := by
  rw [fractionField_eq]
  exact Nat.mod_lt _ (Nat.two_pow_pos 52)

def sign (x : Float) : UnpackedFloat.Sign :=
  if x.toBits.toNat / 2 ^ 63 = 0 then .positive else .negative

theorem eq_of_toBits_eq {x y : Float} (h : x.toBits = y.toBits) : x = y := by
  obtain ⟨⟨bits, _⟩⟩ := x
  obtain ⟨⟨_, _⟩⟩ := y
  cases (show bits = _ from h)
  rfl

theorem eq_of_fields {x y : Float} (hsign : sign x = sign y)
    (hexponent : exponentField x = exponentField y)
    (hfraction : fractionField x = fractionField y) : x = y := by
  apply eq_of_toBits_eq
  apply UInt64.toNat.inj
  rw [exponentField_eq, exponentField_eq] at hexponent
  rw [fractionField_eq, fractionField_eq] at hfraction
  have hx := x.toBits.toNat_lt
  have hy := y.toBits.toNat_lt
  have htop : x.toBits.toNat / 2 ^ 63 = y.toBits.toNat / 2 ^ 63 := by
    unfold sign at hsign
    split at hsign <;> split at hsign <;> first | omega | cases hsign
  omega

section Unpacking

variable (x : Float)

theorem toNat_unpackExponent :
    (@UnpackedFloat.unpackExponent Format.binary64 x.toModel.toBits.toBitVec).toNat =
      exponentField x := by
  rw [exponentField_eq]
  change (x.toBits.toNat >>> 52) % 2 ^ 11 = _
  rw [Nat.shiftRight_eq_div_pow]

theorem toNat_unpackMantissa :
    (@UnpackedFloat.unpackMantissa Format.binary64 x.toModel.toBits.toBitVec).toNat =
      fractionField x := by
  rw [fractionField_eq]
  change (x.toBits.toNat >>> 0) % 2 ^ 52 = _
  rw [Nat.shiftRight_zero]

theorem ofBitVec_unpackSign :
    UnpackedFloat.Sign.ofBitVec
      (@UnpackedFloat.unpackSign Format.binary64 x.toModel.toBits.toBitVec) = sign x := by
  have hbit :
      (@UnpackedFloat.unpackSign Format.binary64 x.toModel.toBits.toBitVec).toNat =
        x.toBits.toNat / 2 ^ 63 := by
    change (x.toBits.toNat >>> 63) % 2 = _
    have hlt := x.toBits.toNat_lt
    rw [Nat.shiftRight_eq_div_pow]
    omega
  unfold UnpackedFloat.Sign.ofBitVec sign
  rw [← hbit]
  congr 1
  rw [← BitVec.toNat_inj]
  rfl

theorem unpackExponent_eq_ones_iff :
    @UnpackedFloat.unpackExponent Format.binary64 x.toModel.toBits.toBitVec = -1#_ ↔
      exponentField x = 0x7FF := by
  rw [← BitVec.toNat_inj, toNat_unpackExponent]
  rfl

theorem unpackExponent_eq_zero_iff :
    @UnpackedFloat.unpackExponent Format.binary64 x.toModel.toBits.toBitVec = 0#_ ↔
      exponentField x = 0 := by
  rw [← BitVec.toNat_inj, toNat_unpackExponent]
  rfl

theorem unpackMantissa_eq_zero_iff :
    @UnpackedFloat.unpackMantissa Format.binary64 x.toModel.toBits.toBitVec = 0#_ ↔
      fractionField x = 0 := by
  rw [← BitVec.toNat_inj, toNat_unpackMantissa]
  rfl

/-- How a number is read, by its fields. -/
inductive Reading : UnpackedFloat → Prop
  | nan (h : isNaN x = true) : Reading .notANumber
  | infinity {s : UnpackedFloat.Sign} (hs : sign x = s) (he : exponentField x = 0x7FF)
    (hf : fractionField x = 0) : Reading (.infinity s)
  | zero {s : UnpackedFloat.Sign} (hs : sign x = s) (he : exponentField x = 0)
    (hf : fractionField x = 0) : Reading (.zero s)
  | subnormal {s : UnpackedFloat.Sign} {m : Nat} {hpos : 0 < m} (hs : sign x = s)
    (he : exponentField x = 0) (hm : fractionField x = m) : Reading (.finite s m (-1074) hpos)
  | normal {s : UnpackedFloat.Sign} {m : Nat} {e : Int} {hpos : 0 < m} (hs : sign x = s)
    (he : exponentField x ≠ 0) (he' : exponentField x ≠ 0x7FF) (hm : 2 ^ 52 + fractionField x = m)
    (hexp : (exponentField x : Int) - 1075 = e) : Reading (.finite s m e hpos)

theorem Reading.of_subnormal {m : Nat} {e : Int} {hpos : 0 < m} (he : exponentField x = 0)
    (hm : fractionField x = m) (hexp : e = -1074) : Reading x (.finite (sign x) m e hpos) := by
  subst hexp
  exact .subnormal rfl he hm

theorem reading_unpack : Reading x x.toModel.unpack := by
  unfold Float.Model.unpack UnpackedFloat.unpack
  dsimp only
  rw [ofBitVec_unpackSign]
  -- `split` would look into the numbers themselves, so the conditions are taken one by one
  by_cases hones : @UnpackedFloat.unpackExponent Format.binary64 x.toModel.toBits.toBitVec = -1#_
  · have he := (unpackExponent_eq_ones_iff x).mp hones
    rw [if_pos hones]
    by_cases hm : @UnpackedFloat.unpackMantissa Format.binary64 x.toModel.toBits.toBitVec = 0#_
    · rw [if_pos hm]
      exact .infinity rfl he ((unpackMantissa_eq_zero_iff x).mp hm)
    · rw [if_neg hm]
      have hf := mt (unpackMantissa_eq_zero_iff x).mpr hm
      exact .nan (by simp [isNaN, he, hf])
  · have he' := mt (unpackExponent_eq_ones_iff x).mpr hones
    rw [if_neg hones]
    by_cases hzero : @UnpackedFloat.unpackExponent Format.binary64 x.toModel.toBits.toBitVec = 0#_
    · have he := (unpackExponent_eq_zero_iff x).mp hzero
      rw [if_pos hzero]
      by_cases hm : @UnpackedFloat.unpackMantissa Format.binary64 x.toModel.toBits.toBitVec = 0#_
      · rw [dif_pos hm]
        exact .zero rfl he ((unpackMantissa_eq_zero_iff x).mp hm)
      · rw [dif_neg hm]
        refine .of_subnormal x he (toNat_unpackMantissa x).symm ?_
        rw [toNat_unpackExponent, he]
        rfl
    · have he := mt (unpackExponent_eq_zero_iff x).mpr hzero
      rw [if_neg hzero]
      refine .normal rfl he he' ?_ ?_
      · -- the bit in front of the fraction is the one of `2 ^ 52`
        rw [BitVec.toNat_append, toNat_unpackMantissa]
        exact Nat.shiftLeft_add_eq_or_of_lt (fractionField_lt x) 1
      · rw [toNat_unpackExponent]
        rfl

/-- There is one NaN. -/
theorem toBits_of_isNaN (h : isNaN x = true) :
    x.toBits.toBitVec = UnpackedFloat.packedNaN Format.binary64 := by
  simp only [isNaN, Bool.and_eq_true, beq_iff_eq, bne_iff_ne] at h
  exact x.toModel.valid.eq_packedNaN ((unpackExponent_eq_ones_iff x).mpr h.1)
    (mt (unpackMantissa_eq_zero_iff x).mp h.2)

end Unpacking

/-! ## Equality -/

/-- A zero of either sign. -/
def IsZero (x : Float) : Prop := exponentField x = 0 ∧ fractionField x = 0

theorem eq_of_isNaN {x y : Float} (hx : isNaN x = true) (hy : isNaN y = true) : x = y := by
  apply eq_of_toBits_eq
  rw [← UInt64.toBitVec_inj, toBits_of_isNaN x hx, toBits_of_isNaN y hy]

theorem compare_then_eq_iff (m n : Nat) (d e : Int) :
    (compare d e).then (compare m n) = .eq ↔ m = n ∧ d = e := by
  rw [Ordering.then_eq_eq, Std.compare_eq_iff_eq, Std.compare_eq_iff_eq, and_comm]

theorem compare_finite_iff (s t : UnpackedFloat.Sign) (m n : Nat) (d e : Int) (hm : 0 < m)
    (hn : 0 < n) :
    (UnpackedFloat.finite s m d hm).compare (.finite t n e hn) = some .eq ↔
      s = t ∧ m = n ∧ d = e := by
  cases s <;> cases t
  case negative.negative =>
    show some ((compare d e).then (compare m n)).swap = _ ↔ _
    rw [Option.some.injEq, Ordering.swap_eq_eq, compare_then_eq_iff, eq_self, true_and]
  case positive.positive =>
    show some ((compare d e).then (compare m n)) = _ ↔ _
    rw [Option.some.injEq, compare_then_eq_iff, eq_self, true_and]
  all_goals
    refine iff_of_false (fun h => ?_) fun h => ?_
    · cases h
    · cases h.1

/-- Unpacked numbers compare as equal if they are the same, but NaN to nothing and zeros to each
other. -/
theorem compare_eq_some_eq_iff (u v : UnpackedFloat) :
    u.compare v = some .eq ↔
      (u = v ∧ u ≠ .notANumber) ∨ ∃ s t, u = .zero s ∧ v = .zero t := by
  rcases u with s | _ | s | ⟨s, m, d, hm⟩ <;> rcases v with t | _ | t | ⟨t, n, e, hn⟩
  case finite.finite =>
    rw [compare_finite_iff, UnpackedFloat.finite.injEq]
    constructor
    · exact fun h => .inl ⟨h, fun h => by cases h⟩
    · rintro (h | ⟨_, _, h, _⟩)
      · exact h.1
      · cases h
  case infinity.infinity =>
    by_cases hst : s = t
    · subst hst
      exact iff_of_true (by cases s <;> rfl) (.inl ⟨rfl, fun h => by cases h⟩)
    · refine iff_of_false (fun h => ?_) ?_
      · cases s <;> cases t <;> first | exact hst rfl | cases h
      · rintro (⟨h, -⟩ | ⟨_, _, h, -⟩)
        · exact hst (UnpackedFloat.infinity.inj h)
        · cases h
  case zero.zero => exact iff_of_true rfl (.inr ⟨s, t, rfl, rfl⟩)
  all_goals
    refine iff_of_false (fun h => ?_) ?_
    · first | cases h | (cases s <;> cases h) | (cases t <;> cases h)
    · rintro (⟨h, hne⟩ | ⟨_, _, h, h'⟩)
      · cases h <;> exact hne rfl
      · cases h <;> cases h'

/-- A number that is not NaN is known from its reading. -/
theorem Reading.inj {x y : Float} {u : UnpackedFloat} (hx : Reading x u) (hy : Reading y u)
    (hu : u ≠ .notANumber) : x = y := by
  cases hx with
  | nan h => exact absurd rfl hu
  | infinity hs he hf =>
    cases hy with
    | infinity hs' he' hf' => exact eq_of_fields (hs.trans hs'.symm) (by omega) (by omega)
  | zero hs he hf =>
    cases hy with
    | zero hs' he' hf' => exact eq_of_fields (hs.trans hs'.symm) (by omega) (by omega)
  | subnormal hs he hm =>
    cases hy with
    | subnormal hs' he' hm' => exact eq_of_fields (hs.trans hs'.symm) (by omega) (by omega)
    | normal hs' he' he'' hm' hexp' =>
      have := fractionField_lt x
      omega
  | normal hs he he₂ hm hexp =>
    cases hy with
    | subnormal hs' he' hm' =>
      have := fractionField_lt y
      omega
    | normal hs' he' he'' hm' hexp' =>
      exact eq_of_fields (hs.trans hs'.symm) (by omega) (by omega)

theorem Reading.isZero {x : Float} {s : UnpackedFloat.Sign} (h : Reading x (.zero s)) :
    IsZero x := by
  cases h with
  | zero hs he hf => exact ⟨he, hf⟩

theorem unpack_of_isZero {x : Float} (h : IsZero x) : x.toModel.unpack = .zero (sign x) := by
  obtain ⟨he, hf⟩ := h
  have hx := reading_unpack x
  generalize x.toModel.unpack = u at hx
  cases hx with
  | nan h => simp [isNaN, he] at h
  | infinity hs he' hf' => omega
  | zero hs he' hf' => rw [hs]
  | @subnormal _ m hpos hs he' hm => omega
  | normal hs he' he'' hm hexp => omega

theorem isNaN_eq_false {x : Float} (h : exponentField x ≠ 0x7FF ∨ fractionField x = 0) :
    isNaN x = false := by
  rcases h with h | h <;> simp [isNaN, h]

theorem unpack_ne_notANumber_iff (x : Float) :
    x.toModel.unpack ≠ .notANumber ↔ isNaN x = false := by
  have hx := reading_unpack x
  generalize x.toModel.unpack = u at hx
  cases hx with
  | nan h => exact iff_of_false (fun hne => hne rfl) (by simp [h])
  | infinity hs he hf => exact iff_of_true (fun h => by cases h) (isNaN_eq_false (.inr hf))
  | zero hs he hf => exact iff_of_true (fun h => by cases h) (isNaN_eq_false (.inr hf))
  | subnormal hs he hm => exact iff_of_true (fun h => by cases h) (isNaN_eq_false (.inl (by omega)))
  | normal hs he he' hm hexp => exact iff_of_true (fun h => by cases h) (isNaN_eq_false (.inl he'))

theorem beq_iff (x y : Float) :
    (x == y) = true ↔ (x = y ∧ isNaN x = false) ∨ (IsZero x ∧ IsZero y) := by
  show (x.toModel.unpack.compare y.toModel.unpack == some .eq) = true ↔ _
  rw [beq_iff_eq, compare_eq_some_eq_iff]
  constructor
  · rintro (⟨hxy, hx⟩ | ⟨s, t, hx, hy⟩)
    · have hy := reading_unpack y
      rw [← hxy] at hy
      exact .inl ⟨(reading_unpack x).inj hy hx, (unpack_ne_notANumber_iff x).mp hx⟩
    · have hx' := reading_unpack x
      have hy' := reading_unpack y
      rw [hx] at hx'
      rw [hy] at hy'
      exact .inr ⟨hx'.isZero, hy'.isZero⟩
  · rintro (⟨rfl, hx⟩ | ⟨hx, hy⟩)
    · exact .inl ⟨rfl, (unpack_ne_notANumber_iff x).mpr hx⟩
    · exact .inr ⟨_, _, unpack_of_isZero hx, unpack_of_isZero hy⟩

theorem isZero_iff_beq_zero (x : Float) : IsZero x ↔ (x == 0.0) = true := by
  rw [beq_iff]
  constructor
  · intro hx
    exact .inr ⟨hx, rfl, rfl⟩
  · rintro (⟨rfl, _⟩ | ⟨hx, _⟩)
    · exact ⟨rfl, rfl⟩
    · exact hx

theorem isNaN_of_isZero {x : Float} (h : IsZero x) : isNaN x = false :=
  isNaN_eq_false (.inr h.2)

/-- A zero of either sign is the integer zero. -/
theorem integer?_of_isZero {x : Float} (h : IsZero x) : integer? x = some 0 := by
  have hd : dyadic? x = some ⟨signBit x, 0, -1074⟩ := by simp [dyadic?, h.1, h.2]
  simp only [integer?, hd, if_neg (show ¬ (0 : Int) ≤ -1074 by decide), Nat.zero_mod,
    if_true, Nat.zero_div]
  cases signBit x <;> rfl

/-- The number without the sign of zero. -/
def plain (x : Float) : Float := if x == 0.0 then 0.0 else x

theorem plain_of_isZero {x : Float} (h : IsZero x) : plain x = 0.0 :=
  if_pos ((isZero_iff_beq_zero x).mp h)

theorem plain_of_not_isZero {x : Float} (h : ¬ IsZero x) : plain x = x :=
  if_neg (mt (isZero_iff_beq_zero x).mpr h)

theorem plain_eq_iff (x y : Float) : plain x = plain y ↔ x = y ∨ (IsZero x ∧ IsZero y) := by
  have hzero : IsZero 0.0 := ⟨rfl, rfl⟩
  by_cases hx : IsZero x <;> by_cases hy : IsZero y
  · simp [plain_of_isZero hx, plain_of_isZero hy, hx, hy]
  · rw [plain_of_isZero hx, plain_of_not_isZero hy]
    refine ⟨fun h => absurd (h ▸ hzero) hy, ?_⟩
    rintro (rfl | h)
    · exact absurd hx hy
    · exact absurd h.2 hy
  · rw [plain_of_not_isZero hx, plain_of_isZero hy]
    refine ⟨fun h => absurd (h ▸ hzero) hx, ?_⟩
    rintro (rfl | h)
    · exact absurd hy hx
    · exact absurd h.1 hx
  · simp [plain_of_not_isZero hx, plain_of_not_isZero hy, hx]

end TreeScript.Decimal

namespace TreeScript

open Decimal

/-- Numbers are equal exactly when they are the same, the sign of zero aside. -/
theorem sameNumber_iff (x y : Float) : sameNumber x y = true ↔ plain x = plain y := by
  rw [sameNumber, Bool.or_eq_true, Bool.and_eq_true, beq_iff, plain_eq_iff]
  constructor
  · rintro ((⟨h, _⟩ | h) | ⟨hx, hy⟩)
    · exact .inl h
    · exact .inr h
    · exact .inl (eq_of_isNaN hx hy)
  · rintro (rfl | h)
    · cases hx : isNaN x with
      | false => exact .inl (.inl ⟨rfl, rfl⟩)
      | true => exact .inr ⟨rfl, rfl⟩
    · exact .inl (.inr h)

/-- The literal without the sign of zero; only a NaN keeps its origin. -/
def NumberLiteral.plain (a : NumberLiteral) : NumberLiteral :=
  ⟨Decimal.plain a.value, if isNaN a.value then a.origin else .json⟩

theorem NumberLiteral.same_iff (a b : NumberLiteral) : a.same b = true ↔ a.plain = b.plain := by
  obtain ⟨x, o⟩ := a
  obtain ⟨y, p⟩ := b
  simp only [same, plain, Bool.or_eq_true, Bool.and_eq_true, beq_iff, NumberLiteral.mk.injEq,
    plain_eq_iff]
  constructor
  · rintro ((⟨rfl, hx⟩ | ⟨hx, hy⟩) | ⟨⟨hx, hy⟩, ho⟩)
    · exact ⟨.inl rfl, by simp [hx]⟩
    · exact ⟨.inr ⟨hx, hy⟩, by simp [isNaN_of_isZero, hx, hy]⟩
    · exact ⟨.inl (eq_of_isNaN hx hy), by simp [hx, hy, beq_iff_eq.mp ho]⟩
  · rintro ⟨rfl | ⟨hx, hy⟩, ho⟩
    · cases hx : isNaN x with
      | false => exact .inl (.inl ⟨rfl, rfl⟩)
      | true =>
        simp only [hx, if_true] at ho
        exact .inr ⟨⟨rfl, rfl⟩, beq_iff_eq.mpr ho⟩
    · exact .inl (.inr ⟨hx, hy⟩)

end TreeScript
