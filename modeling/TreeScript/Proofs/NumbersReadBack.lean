import TreeScript.Proofs.JsonRoundTrip
import TreeScript.Proofs.Reports
import TreeScript.Proofs.Takes
import TreeScript.Proofs.WrittenNumbers

/-!
# Displayed numbers are read back

A number is displayed as an integer, as a numeral with a fraction or an exponent, or by a name.
The reader of numbers in text takes each of them: it finds nothing to strip and no underscore, takes
the sign, and reads the numeral to its end. It finds the number again, the sign of zero aside. So the
built-in functions `number` and `str` undo each other on numbers, and a number that is written as a
document runs to an equal number.
-/

namespace TreeScript.Decimal

open TreeScript.Text

/-! ## Characters of numerals -/

/-- The characters that numerals are made of. -/
def numeralChars : List Char :=
  ['0', '1', '2', '3', '4', '5', '6', '7', '8', '9', '+', '-', '.', 'e']

/-- A numeral has no blank, no underscore and only plain digits. -/
structure IsPlain (c : Char) : Prop where
  notBlank : isNumberBlank c = false
  plainDigit : plainDigit c = c
  notUnderscore : c ≠ '_'

theorem isPlain_of_mem {c : Char} (hc : c ∈ numeralChars) : IsPlain c := by
  have hall : numeralChars.all
      (fun c => !isNumberBlank c && plainDigit c == c && c != '_') = true := by decide +kernel
  have hplain := List.all_eq_true.mp hall c hc
  simp only [Bool.and_eq_true, Bool.not_eq_true', beq_iff_eq, bne_iff_ne] at hplain
  exact ⟨hplain.1.1, hplain.1.2, hplain.2⟩

theorem mem_numeralChars_of_isDigit {c : Char} (hc : c.isDigit = true) : c ∈ numeralChars := by
  have hall : ∀ n < 10, Char.ofNat (48 + n) ∈ numeralChars := by decide
  have hrange : 48 ≤ c.toNat ∧ c.toNat ≤ 57 := Char.isDigit_iff_toNat.mp hc
  have hvalue : 48 + (c.toNat - 48) = c.toNat := by omega
  rw [← Char.ofNat_toNat c, ← hvalue]
  exact hall _ (by omega)

theorem toLower_of_isDigit {c : Char} (hc : c.isDigit = true) : c.toLower = c := by
  have hall : numeralChars.all (fun c => c.toLower == c) = true := by decide
  exact eq_of_beq (List.all_eq_true.mp hall c (mem_numeralChars_of_isDigit hc))

theorem stripBlanks_eq_self {s : List Char} (hs : ∀ c ∈ s, isNumberBlank c = false) :
    stripBlanks s = s := by
  have hkeep {t : List Char} (ht : ∀ c ∈ t, isNumberBlank c = false) :
      t.dropWhile isNumberBlank = t := by
    cases t with
    | nil => rfl
    | cons c t => rw [List.dropWhile_cons_of_neg (by simp [ht c List.mem_cons_self])]
  rw [stripBlanks, hkeep hs, hkeep fun c hc => hs c (List.mem_reverse.mp hc), List.reverse_reverse]

theorem dropUnderscores_eq_self {s : List Char} (hs : ∀ c ∈ s, c ≠ '_') (afterDigit : Bool) :
    dropUnderscores afterDigit s = some s := by
  induction s generalizing afterDigit with
  | nil => rfl
  | cons c s ih =>
    have hc : c ≠ '_' := hs c List.mem_cons_self
    rw [dropUnderscores, ih fun d hd => hs d (List.mem_cons_of_mem _ hd)]
    · rfl
    · exact hc

/-- Nothing is taken out of text of plain characters. -/
theorem plain_text {s : List Char} (hs : ∀ c ∈ s, c ∈ numeralChars) :
    dropUnderscores false ((stripBlanks s).map plainDigit) = some s := by
  have hmap : s.map plainDigit = s :=
    (List.map_congr_left fun c hc => (isPlain_of_mem (hs c hc)).plainDigit).trans (List.map_id s)
  rw [stripBlanks_eq_self fun c hc => (isPlain_of_mem (hs c hc)).notBlank, hmap]
  exact dropUnderscores_eq_self (fun c hc => (isPlain_of_mem (hs c hc)).notUnderscore) false

/-! ## Numerals -/

namespace Numeral

variable {t : Numeral}

/-- The digits of an exponent, at least two. -/
def places (e : ℤ) : List Char :=
  zeros (2 - (Nat.toDigits 10 e.natAbs).length) ++ Nat.toDigits 10 e.natAbs

theorem exponentText_some (e : ℤ) :
    exponentText (some e) = 'e' :: (if e < 0 then '-' else '+') :: places e := rfl

theorem areDigits_places (e : ℤ) : AreDigits (places e) :=
  (areDigits_zeros _).append (areDigits_toDigits _)

theorem natOfDigits_places (e : ℤ) : natOfDigits (places e) = e.natAbs := by
  rw [places, natOfDigits_append, natOfDigits_zeros, natOfDigits_toDigits, Nat.mul_zero,
    Nat.zero_add]

theorem isEmpty_places (e : ℤ) : (places e).isEmpty = false := by simp [places]

theorem mem_numeralChars_text (ht : t.IsWellFormed) : ∀ c ∈ t.text, c ∈ numeralChars := by
  have hdigits {ds : List Char} (hds : AreDigits ds) (c : Char) (hc : c ∈ ds) : c ∈ numeralChars :=
    mem_numeralChars_of_isDigit (hds c hc)
  intro c hc
  rcases List.mem_append.mp hc with hc | hc
  · exact hdigits ht.whole c hc
  rcases List.mem_append.mp hc with hc | hc
  · rw [fractionText] at hc
    split at hc
    · cases hc
    · rcases List.mem_cons.mp hc with rfl | hc
      · decide
      · exact hdigits ht.fraction c hc
  · cases he : t.exponent with
    | none =>
      rw [he] at hc
      cases hc
    | some e =>
      rw [he, exponentText_some] at hc
      rcases List.mem_cons.mp hc with rfl | hc
      · decide
      rcases List.mem_cons.mp hc with rfl | hc
      · split <;> decide
      · exact hdigits (areDigits_places e) c hc

theorem exponent?_exponentText (e : Option ℤ) : exponent? (exponentText e) = some (e.getD 0) := by
  cases e with
  | none => rfl
  | some e =>
    have hall : (places e).all Char.isDigit = true := List.all_eq_true.mpr (areDigits_places e)
    have hsign : takeSign ((if e < 0 then '-' else '+') :: places e) = ⟨decide (e < 0), places e⟩ := by
      by_cases he : e < 0
      · rw [if_pos he, decide_eq_true he]
        rfl
      · rw [if_neg he, decide_eq_false he]
        rfl
    rw [exponentText_some, exponent?, if_pos (.inl rfl), hsign]
    dsimp only
    rw [isEmpty_places, hall, natOfDigits_places]
    simp only [Bool.not_true, Bool.or_false, Bool.false_eq_true, if_false, decide_eq_true_eq,
      Option.getD_some, Option.some.injEq]
    split <;> omega

theorem noDigit_exponentText (e : Option ℤ) : NoDigit (exponentText e) := by
  intro c hc
  cases e with
  | none => cases hc
  | some e =>
    cases hc
    rfl

theorem noDigit_afterWhole (fraction : List Char) (e : Option ℤ) :
    NoDigit (fractionText fraction ++ exponentText e) := by
  intro c hc
  cases fraction with
  | nil => exact noDigit_exponentText e c hc
  | cons d ds =>
    cases hc
    rfl

/-- The digits after a point, if there is one, and what comes behind them. -/
def takeFraction : List Char → List Char × List Char
  | '.' :: rest => (rest.takeWhile Char.isDigit, rest.dropWhile Char.isDigit)
  | rest => ([], rest)

theorem unsigned?_eq (negative : Bool) (s : List Char) :
    unsigned? negative s =
      let whole := s.takeWhile Char.isDigit
      let (fraction, tail) := takeFraction (s.dropWhile Char.isDigit)
      if whole.isEmpty && fraction.isEmpty then none
      else (exponent? tail).map fun e =>
        ofDecimal negative (natOfDigits (whole ++ fraction)) (e - fraction.length) := rfl

theorem takeFraction_text {fraction : List Char} (hfraction : AreDigits fraction) (e : Option ℤ) :
    takeFraction (fractionText fraction ++ exponentText e) = (fraction, exponentText e) := by
  cases fraction with
  | nil => cases e <;> rfl
  | cons d ds =>
    show ((d :: ds ++ exponentText e).takeWhile Char.isDigit,
      (d :: ds ++ exponentText e).dropWhile Char.isDigit) = _
    rw [takeWhile_digits hfraction (noDigit_exponentText e),
      dropWhile_digits hfraction (noDigit_exponentText e)]

/-- A numeral is read to its end. -/
theorem unsigned?_text (ht : t.IsWellFormed) (negative : Bool) :
    unsigned? negative t.text = some (ofDecimal negative t.decimal.digits t.decimal.exponent) := by
  have hrest := noDigit_afterWhole t.fraction t.exponent
  have hne : t.whole.isEmpty = false := by
    rcases ht.leading with h | ⟨c, cs, h, -⟩
    · rw [h]
      rfl
    · rw [h]
      rfl
  rw [unsigned?_eq, text, takeWhile_digits ht.whole hrest, dropWhile_digits ht.whole hrest,
    takeFraction_text ht.fraction]
  dsimp only
  rw [hne, exponent?_exponentText]
  rfl

end Numeral

/-- A text that is a numeral with a sign stands for the number that the numeral does. -/
theorem ofText?_of_numeral {t : Numeral} (ht : t.IsWellFormed) {negative : Bool} {text : String}
    (htext : text.toList = if negative then '-' :: t.text else t.text) :
    ofText? text = some (ofDecimal negative t.decimal.digits t.decimal.exponent) := by
  obtain ⟨c, cs, hcons, hc⟩ := ht.exists_text_eq_cons
  have hchars : ∀ c ∈ text.toList, c ∈ numeralChars := by
    rw [htext]
    intro c hc
    cases negative with
    | true =>
      rcases List.mem_cons.mp hc with rfl | hc
      · decide
      · exact t.mem_numeralChars_text ht c hc
    | false => exact t.mem_numeralChars_text ht c hc
  have hsign : takeSign text.toList = ⟨negative, t.text⟩ := by
    rw [htext]
    cases negative with
    | true => rfl
    | false =>
      show takeSign t.text = _
      rw [hcons]
      unfold takeSign
      split
      · next heq =>
        cases heq
        cases hc
      · next heq =>
        cases heq
        cases hc
      · rfl
  -- a name begins with a letter
  have hname (name : String) (letter : Char) (hletter : letter.isDigit = false)
      (hname : name.toList.head? = some letter) : String.ofList (t.text.map Char.toLower) ≠ name := by
    rintro rfl
    rw [String.toList_ofList, hcons] at hname
    have hlower : c.toLower = c := toLower_of_isDigit hc
    cases hname
    rw [hlower, hc] at hletter
    cases hletter
  unfold ofText?
  rw [plain_text hchars, Option.bind_eq_bind, Option.bind_some, hsign]
  dsimp only
  rw [if_neg (not_or.mpr ⟨hname "inf" 'i' rfl rfl, hname "infinity" 'i' rfl rfl⟩),
    if_neg (hname "nan" 'n' rfl rfl)]
  exact t.unsigned?_text ht negative

/-! ## Displayed numbers -/

theorem ofText?_nan : ofText? "nan" = some nan := rfl

theorem ofText?_infinity (negative : Bool) :
    ofText? (if negative then "-inf" else "inf") = some (infinity negative) := by
  cases negative <;> rfl

/-- An integer in text stands for the number nearest to it. -/
theorem ofText?_toString (i : ℤ) :
    ofText? (toString i) = some (nearest (decide (i < 0)) i.natAbs 1) := by
  have hdecimal : (Json.integerNumeral i).decimal = ⟨i.natAbs, 0⟩ := by
    refine Dec.eq_of ?_ rfl
    show natOfDigits (Nat.toDigits 10 i.natAbs ++ []) = i.natAbs
    rw [List.append_nil, natOfDigits_toDigits]
  rw [ofText?_of_numeral (Json.isWellFormed_integerNumeral i) (Json.toList_toString i), hdecimal]
  unfold ofDecimal
  dsimp only
  by_cases hi : i.natAbs = 0
  · rw [if_pos hi, hi]
  · rw [if_neg hi, if_neg (by decide), if_neg (by omega), Int.toNat_zero, Int.neg_zero, Int.toNat_zero,
      Nat.pow_eq, Nat.pow_zero, Nat.mul_one]

/-- The number nearest to the integer that a whole number is equals that number. -/
theorem sameNumber_nearest {x : Float} {i : ℤ} (hx : integer? x = some i) :
    sameNumber (nearest (decide (i < 0)) i.natAbs 1) x = true := by
  rw [sameNumber_iff, plain_eq_iff]
  by_cases hi : i = 0
  · subst hi
    exact .inr ⟨⟨rfl, rfl⟩, isZero_of_integer? hx⟩
  · exact .inl (nearest_of_integer? hx hi)

/-- The text that a number is displayed as stands for an equal number. -/
theorem ofText?_displayNumber (x : Float) :
    ∃ y, ofText? (displayNumber x) = some y ∧ sameNumber y x = true := by
  have hself : sameNumber x x = true := (sameNumber_iff x x).mpr rfl
  unfold displayNumber
  cases hx : integer? x with
  | some i => exact ⟨_, ofText?_toString i, sameNumber_nearest hx⟩
  | none =>
    dsimp only
    cases hd : dyadic? x with
    | some d =>
      obtain ⟨t, ht, -, htext, hvalue⟩ := Json.exists_numeral_of_written hd (n := general) rfl
      exact ⟨x, (ofText?_of_numeral ht htext).trans (congrArg some hvalue), hself⟩
    | none =>
      rcases written_of_dyadic?_eq_none hd general with ⟨hnan, htext⟩ | ⟨hinf, htext⟩ | ⟨hinf, htext⟩
      · exact ⟨x, by rw [htext, hnan]; exact ofText?_nan, hself⟩
      · exact ⟨x, by rw [htext, hinf]; exact ofText?_infinity true, hself⟩
      · exact ⟨x, by rw [htext, hinf]; exact ofText?_infinity false, hself⟩

/-- The most digits that a whole number has. -/
def longestWhole : ℕ := 309

theorem length_toDigits_of_integer? {x : Float} {i : ℤ} (hx : integer? x = some i) :
    (Nat.toDigits 10 i.natAbs).length ≤ longestWhole := by
  have hlong : 2 ^ 1024 ≤ 10 ^ longestWhole := by decide +kernel
  rw [Nat.length_toDigits_le_iff (by decide) (by decide)]
  exact lt_of_lt_of_le (natAbs_lt_of_integer? hx) hlong

/-- The integer of a whole number is in the range of numbers, and is nearest to an equal number. -/
theorem exists_ofInteger? {x : Float} {i : ℤ} (hx : integer? x = some i) :
    ∃ y, ofInteger? i = some y ∧ sameNumber y x = true := by
  have hsame := sameNumber_nearest hx
  refine ⟨_, ?_, hsame⟩
  have hfinite : exponentField (nearest (decide (i < 0)) i.natAbs 1) ≠ 0x7FF := by
    by_cases hi : i = 0
    · subst hi
      decide
    · rw [nearest_of_integer? hx hi]
      obtain ⟨d, hd, -⟩ := integer?_eq_some hx
      rcases dyadic?_eq_some hd with ⟨hzero, -⟩ | ⟨-, hfinite, -⟩
      · rw [hzero]
        decide
      · exact hfinite
  unfold ofInteger?
  dsimp only
  rw [if_neg hfinite]

end TreeScript.Decimal

namespace TreeScript

open Decimal

/-! ## Built-in functions -/

namespace Run

variable {s t u : Store} {f v w : Ref} {name : String}

/-- A built-in function of one argument does what its code does. -/
theorem takes_call_native {evaluate : Evaluator} (hroom : evaluate.room.line = true)
    (site : Option (Option Loc)) {code : Intrinsic}
    (hf : s.heap.payload f = .native name (some 1) code)
    (h : Takes (applyIntrinsic evaluate.room name code [v]) s w t) :
    Takes (call evaluate f [v] site) s w t := by
  obtain ⟨listedName, hname⟩ := @exists_callName s.heap f (by simp [hf]) evaluate.room
  refine Takes.listed ((takes_look _ s).bind ?_) hroom hname [v] site
  rw [hf]
  refine (takes_look _ s).bind ?_
  rw [hf]
  exact h

theorem takes_str (room : Room) (name : String) (hv : ∀ items, s.heap.payload v ≠ .list items) :
    Takes (applyIntrinsic room name .str [v]) s s.heap.objects.size
      { s with heap := (s.heap.alloc (.string (s.heap.display v))).2 } :=
  (takes_lookDeep (Heap.display?_of_not_list hv _)).bind (takes_make _ s)

theorem takes_number (room : Room) (name : String) {text : String} {x : Float}
    (hv : s.heap.payload v = .string text) (hx : ofText? text = some x) :
    Takes (applyIntrinsic room name .number [v]) s s.heap.objects.size
      { s with heap := (s.heap.alloc (.number x)).2 } := by
  refine (takes_look _ s).bind ?_
  rw [hv]
  dsimp only
  rw [hx]
  show Takes (make (·.alloc (.number x))) _ _ _
  exact takes_make _ s

variable {evaluate : Evaluator} {callee arg left right : Expr}

theorem takes_name (limits : Limits) (nesting : Nat) (loc : Option Loc)
    (h : s.scope.lookup? name = some v) :
    Takes (evaluateAt limits (nesting + 1) (.name loc name)) s v s := by
  refine Takes.evaluateAt ((takes_lookScope _ s).bind ?_)
  rw [h]
  exact takes_pure v s

theorem takes_evaluateLevel_call (rounds : Nat) (loc : Option Loc)
    (hcallee : Takes (evaluate callee) s f t) (harg : Takes (evaluate arg) t v u) {s' : Store}
    (hcall : Takes (call evaluate f [v] (some loc)) u w s') :
    Takes (evaluateLevel evaluate rounds (.call loc callee [arg])) s w s' := by
  have hargs : Takes (evaluateAll evaluate [arg]) t [v] u :=
    harg.bind ((takes_pure [] u).bind (takes_pure [v] u))
  exact hcallee.bind (hargs.bind hcall)

theorem takes_evaluateLevel_equal (rounds : Nat) (loc : Option Loc)
    (hleft : Takes (evaluate left) s v t) (hright : Takes (evaluate right) t w u) {same : Bool}
    (hsame : u.heap.same? evaluate.room.compared v w = some same) :
    Takes (evaluateLevel evaluate rounds (.operator loc "==" left right)) s
      (Heap.ofBool same) u :=
  hleft.bind (hright.bind ((takes_lookDeep hsame).bind (takes_pure _ u)))

/-- There is always room to compare numbers. -/
theorem same?_of_numbers {h : Heap} {a b : Ref} {x y : Float} (ha : h.payload a = .number x)
    (hb : h.payload b = .number y) (room : Nat) :
    h.same? room a b = some (sameNumber x y) := by
  have hreach : h.reach a = 0 := by rw [Heap.reach, ha, Heap.codeDepth, ha]
  have hordered : h.Ordered a ∧ h.Ordered b := ⟨.of_payload ha (by simp), .of_payload hb (by simp)⟩
  rw [hordered.1.same?_of_reach hordered.2 (.inl (hreach ▸ Nat.zero_le room)), Heap.same, ha, hb]

/-- A number that is shown as a text and read from it is an equal number. -/
theorem takes_number_of_str {r g : Ref} {x : Float} {strName numberName : String}
    (hr : s.heap.payload r = .number x) (hf : s.heap.payload f = .native strName (some 1) .str)
    (hg : s.heap.payload g = .native numberName (some 1) .number) :
    ∃ text y t u,
      (∀ evaluate : Evaluator, evaluate.room.line = true → ∀ site,
        Takes (call evaluate f [r] site) s text t ∧ Takes (call evaluate g [text] site) t y u) ∧
      t.scope = s.scope ∧ u.scope = s.scope ∧
      ∃ z, u.heap.payload y = .number z ∧ u.heap.payload r = .number x ∧
        sameNumber z x = true := by
  obtain ⟨y, hy, hsame⟩ := ofText?_displayNumber x
  have hdisplay : s.heap.display r = displayNumber x := by rw [Heap.display, hr]
  let shown := (s.heap.alloc (.string (displayNumber x))).2
  have hshown {p : Payload} {v : Ref} (hv : s.heap.payload v = p) (hp : p ≠ .null) :
      shown.payload v = p := by
    rw [← hv]
    exact s.heap.payload_add_of_ne_null _ (hv ▸ hp)
  let read := (shown.alloc (.number y)).2
  have hread : read.payload r = .number x := by
    have hold := hshown hr (by simp)
    rw [← hold]
    exact shown.payload_add_of_ne_null _ (by simp [hold])
  have htext : shown.payload s.heap.objects.size = .string (displayNumber x) :=
    s.heap.payload_alloc_self _
  refine ⟨s.heap.objects.size, shown.objects.size, ⟨shown, s.scope⟩, ⟨read, s.scope⟩, ?_, rfl, rfl,
    y, shown.payload_alloc_self _, hread, hsame⟩
  intro evaluate hroom site
  have hstr := takes_str evaluate.room strName (s := s) (v := r) (by simp [hr])
  rw [hdisplay] at hstr
  refine ⟨takes_call_native hroom site hf hstr, ?_⟩
  exact takes_call_native hroom site (hshown hg (by simp)) (takes_number _ numberName htext hy)

end Run

/-- The code that compares a number with what is read from the text it is shown as. -/
def Expr.readsBack (loc : Option Loc) (number str x : String) : Expr :=
  .operator loc "=="
    (.call loc (.name loc number) [.call loc (.name loc str) [.name loc x]]) (.name loc x)

theorem Run.takes_readsBack {s : Store} {r f g : Ref} {x : Float}
    {number str name strName numberName : String} (limits : Limits) (nesting : Nat)
    (loc : Option Loc)
    (hname : s.scope.lookup? name = some r) (hr : s.heap.payload r = .number x)
    (hstr : s.scope.lookup? str = some f) (hf : s.heap.payload f = .native strName (some 1) .str)
    (hnumber : s.scope.lookup? number = some g)
    (hg : s.heap.payload g = .native numberName (some 1) .number) :
    ∃ t, Takes (evaluateAt limits (nesting + 4) (.readsBack loc number str name)) s Heap.trueRef t := by
  obtain ⟨text, y, t, u, hcalls, ht, hu, z, hz, hr', hsame⟩ := takes_number_of_str hr hf hg
  obtain ⟨htext, -⟩ := hcalls (evaluateAt limits (nesting + 1)) rfl (some loc)
  obtain ⟨-, hy⟩ := hcalls (evaluateAt limits (nesting + 2)) rfl (some loc)
  have hshow : Takes (evaluateAt limits (nesting + 2) (.call loc (.name loc str) [.name loc name])) s
      text t :=
    Takes.evaluateAt (takes_evaluateLevel_call _ loc (takes_name limits nesting loc hstr)
      (takes_name limits nesting loc hname) htext)
  have hread : Takes (evaluateAt limits (nesting + 3)
      (.call loc (.name loc number) [.call loc (.name loc str) [.name loc name]])) s y u :=
    Takes.evaluateAt (takes_evaluateLevel_call _ loc (takes_name limits _ loc hnumber) hshow hy)
  have hcompare := takes_evaluateLevel_equal limits.rounds loc hread
    (takes_name limits (nesting + 2) loc ((congrArg (·.lookup? name) hu).trans hname))
    (same?_of_numbers hz hr' _)
  rw [hsame] at hcompare
  exact ⟨u, Takes.evaluateAt hcompare⟩

/-! ## Documents -/

/-- Data in JSON's own kinds is encoded as a text that is read as the data. -/
theorem exists_json {depths : Depths} {d : Data} (hd : Json.Native depths.json d) (pretty : Bool) :
    ∃ text, encodeDocument d (some "json") pretty = .ok text ∧
      readDocument text (some "json") none depths = .ok { root := d } := by
  have hname : (some "json").bind Format.ofName? = some .json := by decide
  have hread := Json.decode_encode hd (if pretty then .indented else .oneLine)
  refine ⟨Json.encode (if pretty then .indented else .oneLine) d, ?_, ?_⟩
  · unfold encodeDocument
    rw [hname]
  · rw [readDocument_json, hread]
    rfl

namespace Runner

/-- A program that takes the store of a runner to another one succeeds. -/
theorem run_of_takes {r : Runner} {program : List Expr} {v : Ref} {t : Store}
    (h : Run.Takes (evaluateProgram r.limits program) r.machine.store v t) :
    (r.run program).1 = .ok (.success v) ∧ (r.run program).2.machine.store = t := by
  obtain ⟨m', hrun, hm', -⟩ := h { r.machine with effects := #[], calls := [] } rfl
  unfold run
  dsimp only
  rw [hrun]
  exact ⟨rfl, hm'⟩

theorem takes_numberProgram (limits : Limits) (literal : NumberLiteral) (s : Store) :
    Run.Takes (evaluateProgram limits [.number none literal]) s s.heap.objects.size
      { s with heap := (s.heap.alloc (.number literal.value)).2 } := by
  obtain ⟨nesting, hnesting⟩ := Nat.exists_eq_succ_of_ne_zero (Nat.ne_of_gt limits.nesting_pos)
  refine Run.Takes.bind ?_ (Run.takes_pure _ _)
  unfold Run.evaluate
  rw [hnesting]
  refine Run.Takes.evaluateAt ?_
  show Run.Takes (Run.make (·.alloc (.number literal.value))) _ _ _
  exact Run.takes_make _ s

/-- The data of a number describes an expression for an equal number. -/
theorem building_toData (runner : Runner) {h : Heap} {r : Ref} {x : Float}
    (hr : h.payload r = .number x) :
    ∃ literal,
      runner.building { root := h.toData r } = .ok ([.number none literal], runner.nans) ∧
      sameNumber literal.value x = true := by
  obtain ⟨room, hroom⟩ :=
    Nat.exists_eq_succ_of_ne_zero (Nat.ne_of_gt runner.limits.documents.calls_pos)
  rw [building, hroom, Heap.toData, hr]
  dsimp only
  cases hx : integer? x with
  | some i =>
    obtain ⟨y, hy, hsame⟩ := exists_ofInteger? hx
    refine ⟨⟨y, .json⟩, ?_, hsame⟩
    show (Build.expr runner.origin (.integer i) [] (room + 1) >>= fun e => pure [e]) _ = _
    rw [Build.expr]
    simp only [Parts.look, hy]
    rfl
  | none =>
    refine ⟨⟨x, .json⟩, ?_, (sameNumber_iff x x).mpr rfl⟩
    show (Build.expr runner.origin (.float x .json) [] (room + 1) >>= fun e => pure [e]) _ = _
    rw [Build.expr]
    rfl

end Runner

namespace Machine

variable {m : Machine} {r : Ref} {x : Float}

/-- Every number value is shown as a text that is read back as an equal number, by the built-in
functions applied to values, by code that compares the two, and by a document. Whole numbers are shown
as exact integers, of `longestWhole` digits at the most. -/
theorem numbers_readBack (hr : m.heap.payload r = .number x) :
    (∀ i, integer? x = some i →
      m.heap.display r = toString i ∧ (Nat.toDigits 10 i.natAbs).length ≤ longestWhole) ∧
    (∀ f g strName numberName, m.heap.payload f = .native strName (some 1) .str →
      m.heap.payload g = .native numberName (some 1) .number →
      (∀ evaluate : Evaluator, evaluate.room.line = true → ∀ site site', ∃ text y m₁ m₂,
        Run.call evaluate f [r] site m = .done text m₁ ∧
        Run.call evaluate g [text] site' m₁ = .done y m₂ ∧ m₂.heap.same y r = true) ∧
      (∀ (limits : Limits) loc number str name, 4 ≤ limits.nesting →
        m.scope.lookup? number = some g → m.scope.lookup? str = some f →
        m.scope.lookup? name = some r →
        ∃ m', Run.evaluate limits (.readsBack loc number str name) m = .done Heap.trueRef m')) ∧
    (∀ (runner : Runner) pretty, ∃ text v y,
      encodeDocument (m.heap.toData r) (some "json") pretty = .ok text ∧
        (runner.runDocument text (some "json")).1 = .ok (.success v) ∧
        (runner.runDocument text (some "json")).2.machine.heap.payload v = .number y ∧
        sameNumber y x = true) := by
  refine ⟨?_, ?_, ?_⟩
  · intro i hi
    refine ⟨by rw [Heap.display, hr]; simp [displayNumber, hi], ?_⟩
    exact length_toDigits_of_integer? hi
  · intro f g strName numberName hf hg
    refine ⟨?_, ?_⟩
    · intro evaluate hroom site site'
      obtain ⟨text, y, t, u, hcalls, -, -, z, hz, hr', hsame⟩ :=
        Run.takes_number_of_str (s := m.store) hr hf hg
      obtain ⟨m₁, hrun, hm₁, -⟩ := (hcalls evaluate hroom site).1 m rfl
      obtain ⟨m₂, hrun', hm₂, -⟩ := (hcalls evaluate hroom site').2 m₁ hm₁
      have hheap : m₂.heap = u.heap := congrArg Store.heap hm₂
      refine ⟨text, y, m₁, m₂, hrun, hrun', ?_⟩
      rw [hheap, Heap.same, hz, hr']
      exact hsame
    · intro limits loc number str name hlimits hnumber hstr hname
      obtain ⟨nesting, hnesting⟩ := Nat.exists_eq_add_of_le' hlimits
      obtain ⟨t, ht⟩ := Run.takes_readsBack (s := m.store) limits nesting loc hname hr hstr hf
        hnumber hg
      obtain ⟨m', hrun, -⟩ := ht m rfl
      refine ⟨m', ?_⟩
      rw [Run.evaluate, hnesting]
      exact hrun
  · intro runner pretty
    have hdepth : m.heap.depth r = 0 := Heap.depth_of_not_list (by simp [hr])
    have hnative : Json.Native runner.limits.documents.json (m.heap.toData r) :=
      (m.heap.native_toData r).mono (hdepth ▸ Nat.zero_le _)
    obtain ⟨text, hencode, hread⟩ := exists_json hnative pretty
    obtain ⟨literal, hbuild, hsame⟩ := runner.building_toData hr
    let start : Runner := { runner with machine := { runner.machine with effects := #[] } }
    have hrun : runner.runDocument text (some "json") = start.run [.number none literal] :=
      Runner.runDocument_of_built hread hbuild
    obtain ⟨hresult, hstore⟩ := Runner.run_of_takes (r := start)
      (Runner.takes_numberProgram runner.limits literal start.machine.store)
    have hheap := congrArg Store.heap hstore
    refine ⟨text, _, literal.value, hencode, hrun ▸ hresult, ?_, hsame⟩
    rw [hrun]
    exact (congrArg (·.payload start.machine.heap.objects.size) hheap).trans
      (start.machine.heap.payload_alloc_self _)

/-- Negative zero is shown as `0`, which is read back as an equal number. -/
theorem numbers_readBack_negativeZero :
    let start := (Runner.new true false).machine
    let m := { start with
      heap := (start.heap.alloc (.number (-0.0))).2
      scope := start.scope.define "x" start.heap.objects.size }
    m.heap.display 16 = "0" ∧
    (∃ m', Run.evaluate .standard (.readsBack none "number" "str" "x") m = .done Heap.trueRef m') ∧
    ∃ text v y, encodeDocument (m.heap.toData 16) (some "json") false = .ok text ∧
      ((Runner.new true false).runDocument text (some "json")).1 = .ok (.success v) ∧
      ((Runner.new true false).runDocument text (some "json")).2.machine.heap.payload v = .number y ∧
      sameNumber y (-0.0) = true := by
  intro start m
  have hr : m.heap.payload 16 = .number (-0.0) := rfl
  obtain ⟨hdisplay, hcalls, hdocument⟩ := numbers_readBack hr
  have hzero : integer? (-0.0) = some 0 := integer?_of_isZero ⟨rfl, rfl⟩
  have hcode := (hcalls 14 12 "str" "number" rfl rfl).2 .standard none "number" "str" "x" (by decide)
    (Scope.lookup?_of_head rfl) (Scope.lookup?_of_head rfl) (Scope.lookup?_of_head rfl)
  exact ⟨(hdisplay 0 hzero).1, hcode, hdocument (Runner.new true false) false⟩

end Machine

end TreeScript
