import TreeScript.Decimal.Notation
import TreeScript.Json.Decode
import TreeScript.Proofs.ShortestDigits
import TreeScript.Proofs.WholeNumbers

/-!
# Written numbers are read back

However a finite number is laid out, its text is a numeral: digits, perhaps a fraction, and perhaps an
exponent, that stand for its shortest digits. A reader of numerals that goes on to the first character
that cannot belong to one finds the number again, and likewise an integer.
-/

namespace TreeScript.Decimal

/-! ## Digits -/

theorem natOfDigits_eq (ds : List Char) : natOfDigits ds = Nat.ofDigitChars 10 ds 0 := by
  unfold natOfDigits Nat.ofDigitChars
  congr 1
  funext n c
  rw [Nat.mul_comm]
  rfl

theorem natOfDigits_append (ds es : List Char) :
    natOfDigits (ds ++ es) = 10 ^ es.length * natOfDigits ds + natOfDigits es := by
  rw [natOfDigits_eq, natOfDigits_eq, natOfDigits_eq, Nat.ofDigitChars_append,
    Nat.ofDigitChars_eq_ofDigitChars_zero]

theorem natOfDigits_zeros (n : ℕ) : natOfDigits (zeros n) = 0 := by
  rw [natOfDigits_eq, zeros, Nat.ofDigitChars_replicate_zero, Nat.mul_zero]

theorem natOfDigits_toDigits (n : ℕ) : natOfDigits (Nat.toDigits 10 n) = n := by
  rw [natOfDigits_eq, Nat.ofDigitChars_ten_toDigits]

def AreDigits (ds : List Char) : Prop := ∀ c ∈ ds, c.isDigit = true

theorem AreDigits.append {ds es : List Char} (hds : AreDigits ds) (hes : AreDigits es) :
    AreDigits (ds ++ es) := by
  intro c hc
  rcases List.mem_append.mp hc with hc | hc
  · exact hds c hc
  · exact hes c hc

theorem areDigits_zeros (n : ℕ) : AreDigits (zeros n) := by
  intro c hc
  rw [List.eq_of_mem_replicate hc]
  rfl

theorem areDigits_toDigits (n : ℕ) : AreDigits (Nat.toDigits 10 n) :=
  fun _ hc => Nat.isDigit_of_mem_toDigits (by decide) (by decide) hc

/-- A positive natural is written without zeros in front. -/
theorem exists_toDigits_eq_cons {n : ℕ} (hn : 0 < n) :
    ∃ c cs, Nat.toDigits 10 n = c :: cs ∧ c ≠ '0' := by
  induction n using Nat.strongRecOn with
  | ind n ih =>
    by_cases hlt : n < 10
    · refine ⟨n.digitChar, [], Nat.toDigits_of_lt_base hlt, ?_⟩
      rw [ne_eq, Nat.digitChar_eq_zero]
      omega
    · obtain ⟨c, cs, hcs, hc⟩ := ih (n / 10) (by omega) (by omega)
      refine ⟨c, cs ++ [(n % 10).digitChar], ?_, hc⟩
      rw [Nat.toDigits_of_base_le (by decide) (by omega), hcs]
      rfl

/-- Text that goes on with something else than a digit. -/
def NoDigit (rest : List Char) : Prop := ∀ c ∈ rest.head?, c.isDigit = false

section Span

variable {ds rest : List Char} (hds : AreDigits ds) (hrest : NoDigit rest)

include hds hrest

theorem takeWhile_digits : (ds ++ rest).takeWhile Char.isDigit = ds := by
  rw [List.takeWhile_append_of_pos hds]
  cases rest with
  | nil => simp
  | cons c rest => rw [List.takeWhile_cons_of_neg (by simp [hrest c rfl]), List.append_nil]

theorem dropWhile_digits : (ds ++ rest).dropWhile Char.isDigit = rest := by
  rw [List.dropWhile_append_of_pos hds]
  cases rest with
  | nil => rfl
  | cons c rest => rw [List.dropWhile_cons_of_neg (by simp [hrest c rfl])]

end Span

/-! ## Numerals -/

/-- Digits, perhaps with a fraction, and perhaps with an exponent. -/
structure Numeral where
  whole : List Char
  fraction : List Char := []
  exponent : Option Int := none
  deriving Repr, DecidableEq

namespace Numeral

def fractionText (ds : List Char) : List Char := if ds.isEmpty then [] else '.' :: ds

/-- An exponent has a sign and at least two digits. -/
def exponentText : Option Int → List Char
  | none => []
  | some e =>
    let places := Nat.toDigits 10 e.natAbs
    'e' :: (if e < 0 then '-' else '+') :: (zeros (2 - places.length) ++ places)

def text (t : Numeral) : List Char := t.whole ++ (fractionText t.fraction ++ exponentText t.exponent)

/-- Whether there are no digits but those of an integer. -/
def isInteger (t : Numeral) : Bool := t.fraction.isEmpty && t.exponent.isNone

/-- What the numeral stands for. -/
def decimal (t : Numeral) : Dec :=
  ⟨natOfDigits (t.whole ++ t.fraction), t.exponent.getD 0 - t.fraction.length⟩

/-- There are digits in front of the point, and a zero comes first only if it comes alone. -/
structure IsWellFormed (t : Numeral) : Prop where
  whole : AreDigits t.whole
  fraction : AreDigits t.fraction
  leading : t.whole = ['0'] ∨ ∃ c cs, t.whole = c :: cs ∧ c ≠ '0'

/-- A numeral starts with a digit. -/
theorem IsWellFormed.exists_text_eq_cons {t : Numeral} (ht : t.IsWellFormed) :
    ∃ c cs, t.text = c :: cs ∧ c.isDigit = true := by
  have hcons {c : Char} {cs : List Char} (h : t.whole = c :: cs) :
      ∃ c cs, t.text = c :: cs ∧ c.isDigit = true := by
    refine ⟨c, cs ++ (fractionText t.fraction ++ exponentText t.exponent), ?_, ?_⟩
    · rw [text, h]
      rfl
    · exact ht.whole c (h ▸ List.mem_cons_self)
  rcases ht.leading with h | ⟨c, cs, h, -⟩
  · exact hcons h
  · exact hcons h

end Numeral

theorem natOfDigits_cons_zero (ds : List Char) : natOfDigits ('0' :: ds) = natOfDigits ds :=
  (natOfDigits_append ['0'] ds).trans (Nat.zero_add _)

theorem areDigits_zero : AreDigits ['0'] := areDigits_zeros 1

theorem Dec.eq_of {c : Dec} {digits : ℕ} {exponent : ℤ} (hdigits : digits = c.digits)
    (hexponent : exponent = c.exponent) : Dec.mk digits exponent = c := by
  rw [hdigits, hexponent]

/-- How a decimal is laid out: as a numeral with a fraction or an exponent, which stands for it. -/
def LaysOut (c : Dec) (text : List Char) : Prop :=
  ∃ t : Numeral, t.IsWellFormed ∧ t.isInteger = false ∧ t.text = text ∧ t.decimal.value = c.value

/-- The digits of a positive decimal, the first of which is no zero. -/
structure DigitsOf (c : Dec) (d : Char) (ds : List Char) : Prop where
  value : natOfDigits (d :: ds) = c.digits
  digits : AreDigits (d :: ds)
  leading : d ≠ '0'

theorem exists_digitsOf {c : Dec} (hc : 0 < c.digits) :
    ∃ d ds, Nat.toDigits 10 c.digits = d :: ds ∧ DigitsOf c d ds := by
  obtain ⟨d, ds, hcons, hd⟩ := exists_toDigits_eq_cons hc
  exact ⟨d, ds, hcons, hcons ▸ natOfDigits_toDigits c.digits, hcons ▸ areDigits_toDigits c.digits, hd⟩

section Layout

variable {c : Dec} {d : Char} {ds : List Char} (hc : DigitsOf c d ds)

include hc

/-- The digits behind the point, after zeros. -/
theorem laysOut_fraction {k : ℕ} (hexponent : c.exponent = -(k + (d :: ds).length : ℤ)) :
    LaysOut c ('0' :: '.' :: (zeros k ++ d :: ds)) := by
  let t : Numeral := ⟨['0'], zeros k ++ d :: ds, none⟩
  refine ⟨t, ⟨areDigits_zero, (areDigits_zeros k).append hc.digits, .inl rfl⟩, ?_, ?_, ?_⟩
  · simp [t, Numeral.isInteger]
  · simp [t, Numeral.text, Numeral.fractionText, Numeral.exponentText]
  · refine congrArg Dec.value (Dec.eq_of ?_ ?_)
    · rw [List.singleton_append, natOfDigits_cons_zero, natOfDigits_append, natOfDigits_zeros,
        hc.value, Nat.mul_zero, Nat.zero_add]
    · simp only [t, Option.getD_none, List.length_append, zeros, List.length_replicate]
      omega

/-- The digits and perhaps zeros in front of the point, and one zero behind it. -/
theorem laysOut_whole {k : ℕ} (hexponent : c.exponent = k) :
    LaysOut c (d :: ds ++ zeros k ++ ['.', '0']) := by
  let t : Numeral := ⟨d :: ds ++ zeros k, ['0'], none⟩
  have hleading : t.whole = ['0'] ∨ ∃ c cs, t.whole = c :: cs ∧ c ≠ '0' :=
    .inr ⟨d, ds ++ zeros k, rfl, hc.leading⟩
  refine ⟨t, ⟨hc.digits.append (areDigits_zeros k), areDigits_zero, hleading⟩, rfl, ?_, ?_⟩
  · simp [t, Numeral.text, Numeral.fractionText, Numeral.exponentText]
  · -- one more zero stands behind the point
    have hnat : natOfDigits (t.whole ++ t.fraction) = c.digits * 10 ^ (k + 1) := by
      rw [natOfDigits_append, natOfDigits_append, natOfDigits_zeros, hc.value, pow_succ]
      simp only [t, zeros, List.length_replicate, List.length_singleton]
      rw [show natOfDigits ['0'] = 0 from rfl]
      ring
    have hplace : t.exponent.getD 0 - (t.fraction.length : ℤ) = -1 := rfl
    rw [Dec.value, Numeral.decimal, hnat, hplace, Dec.value, hexponent, zpow_natCast, zpow_neg_one]
    push_cast
    rw [pow_succ]
    field_simp

/-- The point among the digits. -/
theorem laysOut_among {k : ℕ} (hk : k < ds.length) (hexponent : c.exponent = k - ds.length) :
    LaysOut c ((d :: ds).take (k + 1) ++ '.' :: (d :: ds).drop (k + 1)) := by
  let t : Numeral := ⟨(d :: ds).take (k + 1), (d :: ds).drop (k + 1), none⟩
  have hdrop : ds.drop k ≠ [] := by
    rw [ne_eq, List.drop_eq_nil_iff]
    omega
  refine ⟨t, ⟨?_, ?_, .inr ⟨d, ds.take k, rfl, hc.leading⟩⟩, ?_, ?_, ?_⟩
  · exact fun e he => hc.digits e (List.mem_of_mem_take he)
  · exact fun e he => hc.digits e (List.mem_of_mem_drop he)
  · simp [t, Numeral.isInteger, hdrop]
  · simp [t, Numeral.text, Numeral.fractionText, Numeral.exponentText, hdrop]
  · refine congrArg Dec.value (Dec.eq_of ?_ ?_)
    · rw [List.take_append_drop, hc.value]
    · simp only [t, Option.getD_none, List.length_drop, List.length_cons]
      omega

/-- Positionally, the point stands in front of the digits, behind them or among them. -/
theorem laysOut_positional {leading : ℤ} (hleading : leading = c.exponent + ds.length) :
    LaysOut c (positional (d :: ds) leading) := by
  unfold positional
  dsimp only
  split
  · exact laysOut_fraction hc (by rw [List.length_cons]; omega)
  · split
    · next hlength =>
      rw [List.length_cons] at hlength
      exact laysOut_whole hc (by rw [List.length_cons]; omega)
    · next hlength =>
      rw [List.length_cons] at hlength
      exact laysOut_among hc (by omega) (by omega)

/-- Scientifically, one digit stands in front of the point. -/
theorem laysOut_scientific {n : Notation} (hn : n.pointBeforeExponent = false) {leading : ℤ}
    (hleading : leading = c.exponent + ds.length) : LaysOut c (scientific n (d :: ds) leading) := by
  let t : Numeral := ⟨[d], ds, some leading⟩
  refine ⟨t, ⟨?_, ?_, .inr ⟨d, [], rfl, hc.leading⟩⟩, ?_, ?_, ?_⟩
  · exact fun e he => hc.digits e (List.mem_cons.mpr (.inl (List.mem_singleton.mp he)))
  · exact fun e he => hc.digits e (List.mem_cons_of_mem d he)
  · simp [t, Numeral.isInteger]
  · -- without a second digit there is no point
    cases ds with
    | nil => simp [t, Numeral.text, Numeral.fractionText, Numeral.exponentText, scientific, hn]
    | cons e ds => simp [t, Numeral.text, Numeral.fractionText, Numeral.exponentText, scientific]
  · refine congrArg Dec.value (Dec.eq_of hc.value ?_)
    simp only [t, Option.getD_some]
    omega

end Layout

theorem laysOut_layout {c : Dec} (hc : 0 < c.digits) {n : Notation}
    (hn : n.pointBeforeExponent = false) : LaysOut c (layout n c) := by
  obtain ⟨d, ds, hcons, hdigits⟩ := exists_digitsOf hc
  have hleading : c.exponent + (d :: ds).length - 1 = c.exponent + ds.length := by
    rw [List.length_cons]
    omega
  unfold layout
  dsimp only
  rw [hcons]
  split
  · exact laysOut_positional hdigits hleading
  · exact laysOut_scientific hdigits hn hleading

/-! ## Numbers that are not finite -/

theorem dyadic?_eq_none {x : Float} (hx : dyadic? x = none) : exponentField x = 0x7FF := by
  unfold dyadic? at hx
  dsimp only at hx
  split at hx
  · assumption
  · split at hx <;> cases hx

/-- An infinity is known from its sign. -/
theorem infinity_signBit {x : Float} (hx : dyadic? x = none) (hnan : isNaN x = false) :
    infinity (signBit x) = x := by
  have hexponent := dyadic?_eq_none hx
  have hfraction : fractionField x = 0 := by
    simpa [isNaN, hexponent] using hnan
  have hbits : nearestBits (Nat.pow 2 1024) 1 = 0x7FF * 2 ^ 52 := by decide +kernel
  unfold infinity nearest
  rw [if_neg (by decide +kernel)]
  apply eq_of_toBits_toNat
  rw [toBits_eq, hexponent, hfraction, hbits]
  cases signBit x <;> rfl

/-- NaN and the infinities have names. -/
theorem written_of_dyadic?_eq_none {x : Float} (hx : dyadic? x = none) (n : Notation) :
    (x = nan ∧ written n x = n.nan) ∨ (x = infinity true ∧ written n x = "-" ++ n.infinity) ∨
      (x = infinity false ∧ written n x = n.infinity) := by
  unfold written
  rw [hx]
  dsimp only
  cases hnan : isNaN x with
  | true => exact .inl ⟨eq_of_isNaN hnan (by decide +kernel), rfl⟩
  | false =>
    have hinfinity := infinity_signBit hx hnan
    cases hsign : signBit x with
    | true => exact .inr (.inl ⟨(hsign ▸ hinfinity).symm, rfl⟩)
    | false => exact .inr (.inr ⟨(hsign ▸ hinfinity).symm, rfl⟩)

end TreeScript.Decimal

namespace TreeScript.Json

open Decimal

/-! ## Reading numerals -/

/-- Text in which no numeral goes on. -/
def EndsNumeral (rest : List Char) : Prop :=
  ∀ c ∈ rest.head?, c.isDigit = false ∧ c ≠ '.' ∧ c ≠ 'e' ∧ c ≠ 'E'

section Numeral

variable {rest : List Char}

theorem wholeDigits_append {whole : List Char} (hwhole : AreDigits whole)
    (hleading : whole = ['0'] ∨ ∃ c cs, whole = c :: cs ∧ c ≠ '0') (hrest : NoDigit rest) :
    wholeDigits (whole ++ rest) = (whole, rest) := by
  rcases hleading with rfl | ⟨c, cs, rfl, hc⟩
  · rfl
  · have htake := takeWhile_digits hwhole hrest
    have hdrop := dropWhile_digits hwhole hrest
    unfold wholeDigits
    split
    · next heq =>
      cases heq
      exact absurd rfl hc
    · rw [htake, hdrop]

theorem fractionDigits_point (s : List Char) :
    fractionDigits ('.' :: s) =
      if (s.takeWhile Char.isDigit).isEmpty then ([], '.' :: s)
      else (s.takeWhile Char.isDigit, s.dropWhile Char.isDigit) := rfl

theorem fractionDigits_append {fraction : List Char} (hfraction : AreDigits fraction)
    (hrest : NoDigit rest) (hpoint : ∀ c ∈ rest.head?, c ≠ '.') :
    fractionDigits (Numeral.fractionText fraction ++ rest) = (fraction, rest) := by
  cases fraction with
  | nil =>
    show fractionDigits rest = ([], rest)
    unfold fractionDigits
    split
    · exact absurd rfl (hpoint '.' rfl)
    · rfl
  | cons c cs =>
    rw [show Numeral.fractionText (c :: cs) ++ rest = '.' :: (c :: cs ++ rest) from rfl,
      fractionDigits_point, takeWhile_digits hfraction hrest, dropWhile_digits hfraction hrest]
    rfl

theorem exponentPart_append (e : Option ℤ) (hrest : EndsNumeral rest) :
    exponentPart (Numeral.exponentText e ++ rest) = (e, rest) := by
  cases e with
  | none =>
    show exponentPart rest = _
    cases rest with
    | nil => rfl
    | cons c rest =>
      obtain ⟨-, -, he, hE⟩ := hrest c rfl
      unfold exponentPart
      dsimp only
      rw [if_neg (by simp [he, hE])]
  | some e =>
    have hplaces : AreDigits
        (zeros (2 - (Nat.toDigits 10 e.natAbs).length) ++ Nat.toDigits 10 e.natAbs) :=
      (areDigits_zeros _).append (areDigits_toDigits _)
    have hvalue : natOfDigits
        (zeros (2 - (Nat.toDigits 10 e.natAbs).length) ++ Nat.toDigits 10 e.natAbs) = e.natAbs := by
      rw [natOfDigits_append, natOfDigits_zeros, natOfDigits_toDigits, Nat.mul_zero, Nat.zero_add]
    have hne : (zeros (2 - (Nat.toDigits 10 e.natAbs).length) ++ Nat.toDigits 10 e.natAbs).isEmpty =
        false := by simp
    have hdigit : NoDigit rest := fun c hc => (hrest c hc).1
    rw [Numeral.exponentText]
    generalize zeros (2 - (Nat.toDigits 10 e.natAbs).length) ++ Nat.toDigits 10 e.natAbs = places
      at hplaces hvalue hne ⊢
    have htake := takeWhile_digits hplaces hdigit
    have hdrop := dropWhile_digits hplaces hdigit
    by_cases he : e < 0
    · have hsign : takeSign ('-' :: (places ++ rest)) = ⟨true, places ++ rest⟩ := rfl
      rw [if_pos he, List.cons_append, List.cons_append, exponentPart]
      dsimp only
      rw [hsign, htake, hdrop, hvalue, hne, if_pos ⟨.inl rfl, rfl⟩, if_pos rfl,
        show -(e.natAbs : ℤ) = e by omega]
    · have hsign : takeSign ('+' :: (places ++ rest)) = ⟨false, places ++ rest⟩ := rfl
      rw [if_neg he, List.cons_append, List.cons_append, exponentPart]
      dsimp only
      rw [hsign, htake, hdrop, hvalue, hne, if_pos ⟨.inl rfl, rfl⟩, if_neg Bool.false_ne_true,
        show (e.natAbs : ℤ) = e by omega]

variable {t : Numeral} (ht : t.IsWellFormed) (hrest : EndsNumeral rest)

include ht hrest

/-- A numeral is read to its end: as an integer if it is nothing more, and else as a number. -/
theorem unsignedNumber_text (negative : Bool) (start : List Char) :
    unsignedNumber negative start (t.text ++ rest) =
      if t.isInteger then (integerOf negative t.whole).map (·, rest)
      else .ok (.float (ofDecimal negative t.decimal.digits t.decimal.exponent) .json, rest) := by
  -- no part of the numeral reads on into the next one
  have hafter : ∀ c ∈ (Numeral.exponentText t.exponent ++ rest).head?,
      c.isDigit = false ∧ c ≠ '.' := by
    intro c hc
    cases he : t.exponent with
    | none =>
      rw [he] at hc
      exact ⟨(hrest c hc).1, (hrest c hc).2.1⟩
    | some e =>
      rw [he] at hc
      cases hc
      exact ⟨rfl, by decide⟩
  have hbehind : NoDigit
      (Numeral.fractionText t.fraction ++ (Numeral.exponentText t.exponent ++ rest)) := by
    intro c hc
    cases hf : t.fraction with
    | nil =>
      rw [hf] at hc
      exact (hafter c hc).1
    | cons d ds =>
      rw [hf] at hc
      cases hc
      rfl
  have hwhole := wholeDigits_append ht.whole ht.leading hbehind
  have hfraction := fractionDigits_append ht.fraction (fun c hc => (hafter c hc).1)
    fun c hc => (hafter c hc).2
  have hne : t.whole.isEmpty = false := by
    rcases ht.leading with h | ⟨c, cs, h, -⟩
    · rw [h]
      rfl
    · rw [h]
      rfl
  unfold unsignedNumber
  rw [Numeral.text, List.append_assoc, List.append_assoc, hwhole]
  dsimp only
  rw [hne, hfraction]
  dsimp only
  rw [exponentPart_append t.exponent hrest, Numeral.isInteger]
  simp only [Bool.false_eq_true, if_false]
  cases hinteger : t.fraction.isEmpty && t.exponent.isNone with
  | true =>
    simp only [if_true]
    cases integerOf negative t.whole <;> rfl
  | false => rfl

/-- A sign comes before a numeral. -/
theorem number_text (negative : Bool) :
    number ((if negative then '-' :: t.text else t.text) ++ rest) =
      if t.isInteger then (integerOf negative t.whole).map (·, rest)
      else .ok (.float (ofDecimal negative t.decimal.digits t.decimal.exponent) .json, rest) := by
  cases negative with
  | true => exact unsignedNumber_text ht hrest true _
  | false =>
    have hread := unsignedNumber_text ht hrest false (t.text ++ rest)
    obtain ⟨c, cs, hcons, hc⟩ := ht.exists_text_eq_cons
    simp only [Bool.false_eq_true, if_false]
    rw [hcons] at hread ⊢
    unfold number
    split
    · next heq =>
      cases heq
      cases hc
    · exact hread

end Numeral

/-! ## Reading what was written -/

/-- A finite number is written as a numeral that stands for it. -/
theorem exists_numeral_of_written {x : Float} {d : Decimal.Dyadic} (hx : dyadic? x = some d)
    {n : Notation} (hn : n.pointBeforeExponent = false) :
    ∃ t : Numeral, t.IsWellFormed ∧ t.isInteger = false ∧
      (written n x).toList = (if d.negative then '-' :: t.text else t.text) ∧
      ofDecimal d.negative t.decimal.digits t.decimal.exponent = x := by
  unfold written
  rw [hx]
  dsimp only
  rw [String.toList_ofList]
  by_cases hd : d.mantissa = 0
  · rw [if_pos hd]
    let t : Numeral := ⟨['0'], ['0'], none⟩
    refine ⟨t, ⟨areDigits_zero, areDigits_zero, .inl rfl⟩, rfl, rfl, ?_⟩
    exact nearest_zero hx hd 1
  · rw [if_neg hd]
    have hproper := isProper_of_dyadic? hx hd
    obtain ⟨t, ht, hinteger, htext, hvalue⟩ := laysOut_layout (digits_shortest_pos hproper) hn
    refine ⟨t, ht, hinteger, by rw [htext], ?_⟩
    exact ofDecimal_shortest hx hd hvalue

/-- A finite number is read back from its text. -/
theorem number_written {x : Float} {d : Decimal.Dyadic} (hx : dyadic? x = some d)
    {n : Notation} (hn : n.pointBeforeExponent = false) {rest : List Char} (hrest : EndsNumeral rest) :
    number ((written n x).toList ++ rest) = .ok (.float x .json, rest) := by
  obtain ⟨t, ht, hinteger, htext, hvalue⟩ := exists_numeral_of_written hx hn
  rw [htext, number_text ht hrest, hinteger, hvalue]
  rfl

/-- The numeral of an integer, without its sign. -/
def integerNumeral (i : ℤ) : Numeral := { whole := Nat.toDigits 10 i.natAbs }

theorem isWellFormed_integerNumeral (i : ℤ) : (integerNumeral i).IsWellFormed where
  whole := areDigits_toDigits _
  fraction _ hc := nomatch hc
  leading := by
    rcases Nat.eq_zero_or_pos i.natAbs with hzero | hpos
    · left
      rw [integerNumeral, hzero]
      rfl
    · exact .inr (exists_toDigits_eq_cons hpos)

theorem toList_toString (i : ℤ) :
    (toString i).toList =
      if decide (i < 0) then '-' :: (integerNumeral i).text else (integerNumeral i).text := by
  have htext : (integerNumeral i).text = Nat.toDigits 10 i.natAbs := List.append_nil _
  rw [htext, Int.toString_eq_repr, Int.repr_eq_if]
  by_cases hi : i < 0
  · rw [if_neg (by omega), decide_eq_true hi, if_pos rfl, String.toList_append, Nat.toList_repr,
      show (-i).toNat = i.natAbs by omega]
    rfl
  · rw [if_pos (by omega), decide_eq_false hi, if_neg Bool.false_ne_true, Nat.toList_repr,
      show i.toNat = i.natAbs by omega]

/-- The digits of an integer are read back, unless they are too many. -/
theorem number_toString {i : ℤ} (hi : i.natAbs < 10 ^ longestInteger) {rest : List Char}
    (hrest : EndsNumeral rest) : number ((toString i).toList ++ rest) = .ok (.integer i, rest) := by
  have hlength : ¬ longestInteger < (Nat.toDigits 10 i.natAbs).length := by
    rw [not_lt, Nat.length_toDigits_le_iff (by decide) (by decide)]
    exact hi
  have hread : integerOf (decide (i < 0)) (integerNumeral i).whole = .ok (.integer i) := by
    unfold integerOf
    rw [integerNumeral, if_neg hlength, natOfDigits_toDigits]
    dsimp only
    by_cases hneg : i < 0
    · rw [decide_eq_true hneg, if_pos rfl, show -(i.natAbs : ℤ) = i by omega]
    · rw [decide_eq_false hneg, if_neg Bool.false_ne_true, show (i.natAbs : ℤ) = i by omega]
  rw [toList_toString, number_text (isWellFormed_integerNumeral i) hrest, hread]
  rfl

/-- No number is an integer too long to be read. -/
theorem natAbs_lt_longestInteger {x : Float} {i : ℤ} (hx : integer? x = some i) :
    i.natAbs < 10 ^ longestInteger := by
  have hlong : 2 ^ 1024 ≤ 10 ^ longestInteger := by decide +kernel
  exact lt_of_lt_of_le (natAbs_lt_of_integer? hx) hlong

end TreeScript.Json
