import TreeScript.Document.Encode
import TreeScript.Proofs.NestedLists
import TreeScript.Proofs.WrittenNumbers

/-!
# JSON that was written is read back

Strings are read back character by character, numbers as numerals, the words that stand for a value as
words, and lists item by item: after each item comes a comma or the closing bracket, behind blanks in
the layout over lines, and neither can be taken for a part of a number. So the text of all data of
JSON's own kinds is read back, and the data of a value, of whatever kind, is of these.
-/

namespace TreeScript.Json

open Decimal

/-! ## Strings -/

theorem escaped?_of_escapeLetter? {c letter : Char} (h : escapeLetter? c = some letter) :
    escaped? letter = some c ∧ letter ≠ 'u' := by
  unfold escapeLetter? at h
  split at h <;> cases h <;> exact ⟨rfl, by decide⟩

theorem hex4?_hexDigits {n : Nat} (hn : n < 0x20) :
    ∃ a b c d, Text.hexDigits 4 n = [a, b, c, d] ∧ hex4? a b c d = some n := by
  have hall : ∀ n < 0x20, hex4? (Text.hexDigit (n / 16 / 16 / 16 % 16))
      (Text.hexDigit (n / 16 / 16 % 16)) (Text.hexDigit (n / 16 % 16)) (Text.hexDigit (n % 16)) =
        some n := by decide
  exact ⟨_, _, _, _, rfl, hall n hn⟩

theorem stringUnits_letter {opening s : List Char} {letter c : Char} (hletter : letter ≠ 'u')
    (hescaped : escaped? letter = some c) :
    stringUnits opening ('\\' :: letter :: s) =
      (stringUnits opening s).map fun (units, rest) => (c.toNat :: units, rest) := by
  rw [stringUnits, hescaped]
  · dsimp only
    cases stringUnits opening s <;> rfl
  · exact fun _ _ _ _ _ _ hu _ => hletter hu
  · exact hletter

theorem stringUnits_plain {opening s : List Char} {c : Char} (hquote : c ≠ '"') (hslash : c ≠ '\\')
    (hcontrol : ¬ c.toNat < 0x20) :
    stringUnits opening (c :: s) =
      (stringUnits opening s).map fun (units, rest) => (c.toNat :: units, rest) := by
  rw [stringUnits, if_neg hcontrol]
  · cases stringUnits opening s <;> rfl
  · exact hquote
  all_goals
    intros
    exact hslash ‹_›

theorem stringUnits_unicode {opening s : List Char} {a b c d next : Char} {unit : Nat}
    (hvalue : hex4? a b c d = some unit) :
    stringUnits opening ('\\' :: 'u' :: a :: b :: c :: d :: next :: s) =
      (stringUnits opening (next :: s)).map fun (units, rest) => (unit :: units, rest) := by
  rw [stringUnits, hvalue]
  dsimp only
  cases stringUnits opening (next :: s) <;> rfl

theorem stringUnits_escapeChar (opening : List Char) (c next : Char) (s : List Char) :
    stringUnits opening (escapeChar c ++ next :: s) =
      (stringUnits opening (next :: s)).map fun (units, rest) => (c.toNat :: units, rest) := by
  unfold escapeChar
  split
  · next letter hletter =>
    obtain ⟨hescaped, hne⟩ := escaped?_of_escapeLetter? hletter
    exact stringUnits_letter hne hescaped
  · next hnone =>
    split
    · next hcontrol =>
      obtain ⟨a, b, c', d, hdigits, hvalue⟩ := hex4?_hexDigits hcontrol
      rw [hdigits]
      exact stringUnits_unicode hvalue
    · next hcontrol =>
      refine stringUnits_plain ?_ ?_ hcontrol
      · rintro rfl
        cases hnone
      · rintro rfl
        cases hnone

/-- What was escaped is read back, up to the quote that ends it. -/
theorem stringUnits_quoted (opening s rest : List Char) :
    stringUnits opening (s.flatMap escapeChar ++ '"' :: rest) = .ok (s.map Char.toNat, rest) := by
  induction s with
  | nil => rfl
  | cons c s ih =>
    rw [List.flatMap_cons, List.append_assoc]
    -- a four-digit escape is read only if a character follows, and the closing quote is one
    cases htail : s.flatMap escapeChar ++ '"' :: rest with
    | nil => simp at htail
    | cons next tail =>
      rw [htail] at ih
      rw [stringUnits_escapeChar, ih]
      rfl

theorem not_surrogate (c : Char) :
    isHighSurrogate c.toNat = false ∧ isLowSurrogate c.toNat = false := by
  have hvalid : c.toNat < 0xD800 ∨ (0xDFFF < c.toNat ∧ c.toNat < 0x110000) := c.valid
  unfold isHighSurrogate isLowSurrogate
  simp only [Bool.and_eq_false_iff, decide_eq_false_iff_not]
  omega

/-- Characters are no surrogates, so they are joined one by one. -/
theorem joinUnits_map (s : List Char) : joinUnits (s.map Char.toNat) = s := by
  induction s with
  | nil => rfl
  | cons c s ih =>
    obtain ⟨hhigh, hlow⟩ := not_surrogate c
    cases s with
    | nil => simp [joinUnits, hhigh, hlow]
    | cons d s =>
      rw [List.map_cons, List.map_cons, joinUnits, hhigh, hlow, ← List.map_cons, ih,
        Char.ofNat_toNat]
      rfl

/-- A text is read back from between its quotes. -/
theorem string_quote (opening rest : List Char) (s : String) :
    string opening (s.toList.flatMap escapeChar ++ '"' :: rest) = .ok (s, rest) := by
  unfold string
  rw [stringUnits_quoted]
  show Except.ok (String.ofList (joinUnits (s.toList.map Char.toNat)), rest) = _
  rw [joinUnits_map, String.ofList_toList]

/-! ## Where a value starts and ends -/

def Blank (s : List Char) : Prop := ∀ c ∈ s, isSpace c = true

theorem skipSpace_append {blank s : List Char} (hblank : Blank blank)
    (hs : ∀ c ∈ s.head?, isSpace c = false) : skipSpace (blank ++ s) = s := by
  unfold skipSpace
  rw [List.dropWhile_append_of_pos hblank]
  cases s with
  | nil => rfl
  | cons c s => rw [List.dropWhile_cons_of_neg (by simp [hs c rfl])]

/-- After a value there are blanks and the end of its list, or a comma. -/
theorem endsNumeral_blank {blank : List Char} (hblank : Blank blank) (rest : List Char) :
    EndsNumeral (blank ++ ']' :: rest) := by
  intro c hc
  cases blank with
  | nil =>
    cases hc
    decide
  | cons d blank =>
    cases hc
    have hspace := hblank c List.mem_cons_self
    simp only [isSpace, Bool.or_eq_true, beq_iff_eq] at hspace
    rcases hspace with ((rfl | rfl) | rfl) | rfl <;> decide

theorem endsNumeral_comma (rest : List Char) : EndsNumeral (',' :: rest) := by
  rintro c ⟨⟩
  decide

/-- Text that starts like a number: with a digit, or with a sign and a digit. -/
inductive StartsNumber : List Char → Prop
  | digit {c : Char} {s : List Char} (hc : c.isDigit = true) : StartsNumber (c :: s)
  | signed {c : Char} {s : List Char} (hc : c.isDigit = true) : StartsNumber ('-' :: c :: s)

theorem StartsNumber.append {s : List Char} (hs : StartsNumber s) (rest : List Char) :
    StartsNumber (s ++ rest) := by
  cases hs with
  | digit hc => exact .digit hc
  | signed hc => exact .signed hc

theorem StartsNumber.ne_cons {s t : List Char} {c : Char} (hs : StartsNumber s)
    (hdigit : c.isDigit = false) (hsign : c ≠ '-') : s ≠ c :: t := by
  rintro rfl
  cases hs with
  | digit hc => exact Bool.false_ne_true (hdigit.symm.trans hc)
  | signed _ => exact hsign rfl

/-- Text that starts like a value. -/
def StartsValue (s : List Char) : Prop :=
  ∃ c cs, s = c :: cs ∧ isSpace c = false ∧ c ≠ ']' ∧ c ≠ '\ufeff'

theorem StartsValue.append {s : List Char} (hs : StartsValue s) (rest : List Char) :
    StartsValue (s ++ rest) := by
  obtain ⟨c, cs, rfl, hc⟩ := hs
  exact ⟨c, cs ++ rest, rfl, hc⟩

theorem StartsValue.head {s : List Char} (hs : StartsValue s) :
    ∀ c ∈ s.head?, isSpace c = false := by
  obtain ⟨c, cs, rfl, hc, -⟩ := hs
  rintro c' ⟨⟩
  exact hc

theorem StartsNumber.startsValue {s : List Char} (hs : StartsNumber s) : StartsValue s := by
  cases hs with
  | @digit c s hc =>
    have hne : ∀ d, d.isDigit = false → c ≠ d := by
      rintro d hd rfl
      exact Bool.false_ne_true (hd.symm.trans hc)
    refine ⟨c, s, rfl, ?_, hne ']' rfl, hne '\ufeff' rfl⟩
    simp [isSpace, hne ' ' rfl, hne '\t' rfl, hne '\n' rfl, hne '\r' rfl]
  | signed hc => exact ⟨'-', _, rfl, rfl, by decide, by decide⟩

/-- Text that is read as the data, whatever follows that cannot go on a numeral. -/
structure ReadsAs (read : List Char → Except Stop (Data × List Char)) (s : List Char) (d : Data) :
    Prop where
  starts : StartsValue s
  reads : ∀ rest, EndsNumeral rest → read (s ++ rest) = .ok (d, rest)

/-! ## Words and numbers -/

/-- Text that starts like a number starts with none of the words, if no word does so. -/
theorem StartsNumber.find?_eq_none {α : Type} {words : List (List Char × α)} {s : List Char}
    (hs : StartsNumber s) (hwords : ∀ word ∈ words, ∀ t, ¬ StartsNumber (word.1 ++ t)) :
    words.find? (fun word => word.1.isPrefixOf s) = none := by
  rw [List.find?_eq_none]
  intro word hword hprefix
  rw [List.isPrefixOf_iff_prefix] at hprefix
  obtain ⟨t, rfl⟩ := hprefix
  exact hwords word hword t hs

theorem not_startsNumber_name {name : List Char × Data} (hname : name ∈ names) (t : List Char) :
    ¬ StartsNumber (name.1 ++ t) := by
  intro hs
  simp only [names, List.mem_cons, List.not_mem_nil, or_false] at hname
  -- no word starts with a digit, and the one with a sign has a letter behind it
  rcases hname with rfl | rfl | rfl | rfl | rfl | rfl <;> cases hs
  all_goals
    next hdigit => cases hdigit

/-- What is no array and no object is read without regard to how deep it is. -/
theorem value_scalar (nesting : Nat) {c : Char} (s : List Char) (hlist : c ≠ '[')
    (hobject : c ≠ '\x7b') : value nesting (c :: s) = scalar (c :: s) := by
  unfold value
  split
  · next heq => exact absurd (List.cons.inj heq).1 hlist
  · next heq => exact absurd (List.cons.inj heq).1 hobject
  · next heq => exact absurd (List.cons.inj heq).1 hlist
  · next heq => exact absurd (List.cons.inj heq).1 hobject
  · rfl

/-- Text that starts like a number is read as one. -/
theorem value_number (nesting : Nat) (s : List Char) (hs : StartsNumber s) :
    value nesting s = number s := by
  have hnone : named? s = none := by
    unfold named?
    rw [hs.find?_eq_none fun name => not_startsNumber_name]
    rfl
  have hscalar : scalar s = number s := by
    rw [scalar, hnone]
    exact fun body => hs.ne_cons (by decide) (by decide)
  rw [← hscalar]
  cases s with
  | nil => cases hs
  | cons c s =>
    refine value_scalar nesting s ?_ ?_
    · rintro rfl
      exact hs.ne_cons (by decide) (by decide) rfl
    · rintro rfl
      exact hs.ne_cons (by decide) (by decide) rfl

/-- A word stands for its value. -/
theorem readsAs_word {name : List Char × Data} (hname : name ∈ names) (nesting : Nat) :
    ReadsAs (value nesting) name.1 name.2 := by
  simp only [names, List.mem_cons, List.not_mem_nil, or_false] at hname
  rcases hname with rfl | rfl | rfl | rfl | rfl | rfl <;>
    exact ⟨⟨_, _, rfl, rfl, by decide, by decide⟩, fun rest _ =>
      (value_scalar nesting _ (by decide) (by decide)).trans rfl⟩

/-- A number is read back by any reader that leaves numerals to the reader of numbers. -/
theorem readsAs_number {read : List Char → Except Stop (Data × List Char)}
    (hnumber : ∀ s, StartsNumber s → read s = number s) {s : List Char} {d : Data}
    (hs : StartsNumber s)
    (hread : ∀ rest, EndsNumeral rest → number (s ++ rest) = .ok (d, rest)) : ReadsAs read s d where
  starts := hs.startsValue
  reads rest hrest := (hnumber _ (hs.append rest)).trans (hread rest hrest)

theorem startsNumber_text {t : Numeral} (ht : t.IsWellFormed) (negative : Bool) :
    StartsNumber (if negative then '-' :: t.text else t.text) := by
  obtain ⟨c, cs, hcons, hc⟩ := ht.exists_text_eq_cons
  rw [hcons]
  cases negative with
  | true => exact .signed hc
  | false => exact .digit hc

theorem startsNumber_toString (i : ℤ) : StartsNumber (toString i).toList := by
  rw [toList_toString]
  exact startsNumber_text (isWellFormed_integerNumeral i) _

theorem startsNumber_written {x : Float} {d : Decimal.Dyadic} (hx : dyadic? x = some d)
    {n : Notation} (hn : n.pointBeforeExponent = false) : StartsNumber (written n x).toList := by
  obtain ⟨t, ht, -, htext, -⟩ := exists_numeral_of_written hx hn
  rw [htext]
  exact startsNumber_text ht d.negative

/-- What is not finite is written as a word. -/
theorem written_mem_names {x : Float} (hx : dyadic? x = none) :
    ((written numberNotation x).toList, Data.float x .json) ∈ names := by
  rcases written_of_dyadic?_eq_none hx numberNotation with ⟨rfl, hw⟩ | ⟨rfl, hw⟩ | ⟨rfl, hw⟩
  · rw [hw]
    simp [names, numberNotation]
  · rw [hw]
    simp [names, numberNotation]
  · rw [hw]
    simp [names, numberNotation]

/-- Every number is read back: a finite one as a numeral, the others as words. -/
theorem readsAs_float (x : Float) (nesting : Nat) :
    ReadsAs (value nesting) (written numberNotation x).toList (.float x .json) := by
  cases hx : dyadic? x with
  | some d =>
    exact readsAs_number (value_number nesting) (startsNumber_written hx rfl) fun _ =>
      number_written hx rfl
  | none => exact readsAs_word (written_mem_names hx) nesting

/-! ## Lists -/

/-- How a list goes on after its opening bracket: its parts with commas between them, and blanks
anywhere around. -/
def Encloses (parts : List (List Char)) (s : List Char) : Prop :=
  ∃ opening between closing, Blank opening ∧ Blank between ∧ Blank closing ∧
    s = opening ++ ((',' :: between).intercalate parts ++ (closing ++ [']']))

theorem length_le_intercalate (sep : List Char) {part : List Char} {parts : List (List Char)}
    (hpart : part ∈ parts) : part.length ≤ (sep.intercalate parts).length := by
  induction parts with
  | nil => cases hpart
  | cons first rest ih =>
    cases rest with
    | nil => rw [List.intercalate_singleton, List.mem_singleton.mp hpart]
    | cons second rest =>
      rw [List.intercalate_cons_cons, List.length_append, List.length_append]
      rcases List.mem_cons.mp hpart with rfl | hpart
      · omega
      · have := ih hpart
        omega

/-- A part is shorter than the list. -/
theorem Encloses.length_lt {parts : List (List Char)} {part s : List Char} (hs : Encloses parts s)
    (hpart : part ∈ parts) : part.length < s.length := by
  obtain ⟨opening, between, closing, -, -, -, rfl⟩ := hs
  have hle := length_le_intercalate (',' :: between) hpart
  simp only [List.length_append, List.length_singleton]
  omega

section Elements

variable {read : List Char → Except Stop (Data × List Char)}

theorem elements_last {s closing rest : List Char} {d : Data}
    (hread : read s = .ok (d, closing ++ ']' :: rest)) (hclosing : Blank closing) (fuel : Nat) :
    elements read (fuel + 1) s = .ok ([d], rest) := by
  have hskip : skipSpace (closing ++ ']' :: rest) = ']' :: rest :=
    skipSpace_append hclosing (by simp [isSpace])
  rw [elements, hread]
  simp only [bind, Except.bind]
  rw [hskip]
  rfl

theorem elements_next {s blank next : List Char} {d : Data}
    (hread : read s = .ok (d, ',' :: (blank ++ next))) (hblank : Blank blank)
    (hnext : StartsValue next) (fuel : Nat) :
    elements read (fuel + 1) s =
      (elements read fuel next).map fun (items, rest) => (d :: items, rest) := by
  have hcomma : skipSpace (',' :: (blank ++ next)) = ',' :: (blank ++ next) := rfl
  rw [elements, hread]
  simp only [bind, Except.bind]
  rw [hcomma]
  simp only [skipSpace_append hblank hnext.head]
  cases elements read fuel next <;> rfl

theorem startsValue_intercalate (sep : List Char) {part : List Char} {parts : List (List Char)}
    (hpart : StartsValue part) : StartsValue (sep.intercalate (part :: parts)) := by
  cases parts with
  | nil => rwa [List.intercalate_singleton]
  | cons next parts =>
    rw [List.intercalate_cons_cons, List.append_assoc]
    exact hpart.append _

/-- Elements are read to the bracket that ends their list, if each one is. -/
theorem elements_intercalate {between closing : List Char} (hbetween : Blank between)
    (hclosing : Blank closing) (rest : List Char) {parts : List (List Char)} {ds : List Data}
    (hparts : List.Forall₂ (ReadsAs read) parts ds) (hne : parts ≠ []) {fuel : Nat}
    (hfuel : ((',' :: between).intercalate parts).length < fuel) :
    elements read fuel ((',' :: between).intercalate parts ++ (closing ++ ']' :: rest)) =
      .ok (ds, rest) := by
  induction hparts generalizing fuel with
  | nil => exact absurd rfl hne
  | @cons part d parts ds hpart hparts ih =>
    obtain ⟨fuel, rfl⟩ : ∃ n, fuel = n + 1 := ⟨fuel - 1, by omega⟩
    cases hparts with
    | nil =>
      rw [List.intercalate_singleton]
      exact elements_last (hpart.reads _ (endsNumeral_blank hclosing rest)) hclosing fuel
    | @cons next e parts ds hnext hparts =>
      rw [List.intercalate_cons_cons] at hfuel ⊢
      -- a comma stands before what is left, so that one round of fuel is enough for each element
      have htail : elements read fuel
          ((',' :: between).intercalate (next :: parts) ++ (closing ++ ']' :: rest)) =
            .ok (e :: ds, rest) := by
        refine ih (List.cons_ne_nil next parts) ?_
        rw [List.length_append, List.length_append, List.length_cons] at hfuel
        omega
      have hstarts : StartsValue
          ((',' :: between).intercalate (next :: parts) ++ (closing ++ ']' :: rest)) :=
        (startsValue_intercalate _ hnext.starts).append _
      rw [List.append_assoc, List.append_assoc, List.cons_append,
        elements_next (hpart.reads _ (endsNumeral_comma _)) hbetween hstarts, htail]
      rfl

/-- A list is read to its end, if its parts are. -/
theorem array_encloses {parts : List (List Char)} {ds : List Data} {s : List Char}
    (hs : Encloses parts s) (hparts : List.Forall₂ (ReadsAs read) parts ds) (hne : parts ≠ [])
    (rest : List Char) : array read (s ++ rest) = .ok (.list ds, rest) := by
  obtain ⟨opening, between, closing, hopening, hbetween, hclosing, rfl⟩ := hs
  have hstarts : StartsValue
      ((',' :: between).intercalate parts ++ (closing ++ ']' :: rest)) := by
    cases hparts with
    | nil => exact absurd rfl hne
    | cons hpart hparts => exact (startsValue_intercalate _ hpart.starts).append _
  have helements : elements read
      (((',' :: between).intercalate parts ++ (closing ++ ']' :: rest)).length + 1)
      ((',' :: between).intercalate parts ++ (closing ++ ']' :: rest)) = .ok (ds, rest) := by
    refine elements_intercalate hbetween hclosing rest hparts hne ?_
    rw [List.length_append]
    omega
  have htext : opening ++ ((',' :: between).intercalate parts ++ (closing ++ [']'])) ++ rest =
      opening ++ ((',' :: between).intercalate parts ++ (closing ++ ']' :: rest)) := by simp
  rw [htext]
  generalize (',' :: between).intercalate parts ++ (closing ++ ']' :: rest) = body
    at hstarts helements
  rw [array, skipSpace_append hopening hstarts.head]
  obtain ⟨c, cs, rfl, -, hc, -⟩ := hstarts
  split
  · next heq =>
    cases heq
    exact absurd rfl hc
  · rw [helements]
    rfl

end Elements

/-! ## Values -/

/-- Data that JSON has a notation of its own for, with integers that are not too long to be read, and
at most so many lists inside each other. -/
inductive Native : ℕ → Data → Prop
  | null (nesting : ℕ) : Native nesting .null
  | boolean (nesting : ℕ) (b : Bool) : Native nesting (.boolean b)
  | integer (nesting : ℕ) {i : ℤ} (hi : i.natAbs < 10 ^ longestInteger) : Native nesting (.integer i)
  | float (nesting : ℕ) (x : Float) : Native nesting (.float x .json)
  | text (nesting : ℕ) (s : String) : Native nesting (.text s)
  | list {nesting : ℕ} {items : List Data} (hitems : ∀ d ∈ items, Native nesting d) :
    Native (nesting + 1) (.list items)

theorem Native.mono {n m : ℕ} {d : Data} (hd : Native n d) (h : n ≤ m) : Native m d := by
  induction hd generalizing m with
  | null n => exact .null m
  | boolean n b => exact .boolean m b
  | integer n hi => exact .integer m hi
  | float n x => exact .float m x
  | text n s => exact .text m s
  | list hitems ih =>
    cases m with
    | zero => cases h
    | succ m => exact .list fun d hd => ih d hd (Nat.le_of_succ_le_succ h)

theorem blank_open (layout : Layout) (level : Nat) : Blank (layout.open level) := by
  cases layout with
  | oneLine => exact fun _ hc => nomatch hc
  | indented =>
    intro c hc
    rcases List.mem_cons.mp hc with rfl | hc
    · rfl
    · rw [List.eq_of_mem_replicate hc]
      rfl

/-- Between elements there are a comma and blanks. -/
theorem exists_between_eq (layout : Layout) (level : Nat) :
    ∃ blank, layout.between level = ',' :: blank ∧ Blank blank := by
  cases layout with
  | oneLine => exact ⟨[' '], rfl, by simp [Blank, isSpace]⟩
  | indented => exact ⟨_, rfl, blank_open .indented level⟩

theorem writeItems_eq_map (layout : Layout) (level : Nat) (items : List Data) :
    writeItems layout level items = items.map (write layout level) := by
  induction items with
  | nil => rfl
  | cons item rest ih => rw [writeItems, ih, List.map_cons]

/-- Both layouts put blanks and commas around the elements. -/
theorem exists_write_list (layout : Layout) (level : Nat) {items : List Data} (hne : items ≠ []) :
    ∃ s, write layout level (.list items) = '[' :: s ∧
      Encloses (items.map (write layout (level + 1))) s := by
  obtain ⟨blank, hbetween, hblank⟩ := exists_between_eq layout (level + 1)
  refine ⟨_, ?_, layout.open (level + 1), blank, layout.open level, blank_open layout (level + 1),
    hblank, blank_open layout level, rfl⟩
  rw [write, writeItems_eq_map, bracket, if_neg (by simpa using hne), hbetween]
  simp

/-- What was written is read back. -/
theorem readsAs_write {nesting : ℕ} {d : Data} (hd : Native nesting d) (layout : Layout)
    (level : Nat) : ReadsAs (value nesting) (write layout level d) d := by
  induction hd generalizing level with
  | null n =>
    have hnull : ("null".toList, Data.null) ∈ names := by simp [names]
    exact readsAs_word hnull n
  | boolean n b =>
    have htrue : ("true".toList, Data.boolean true) ∈ names := by simp [names]
    have hfalse : ("false".toList, Data.boolean false) ∈ names := by simp [names]
    cases b with
    | true => exact readsAs_word htrue n
    | false => exact readsAs_word hfalse n
  | integer n hi =>
    exact readsAs_number (value_number n) (startsNumber_toString _) fun _ => number_toString hi
  | float n x => exact readsAs_float x n
  | text n s =>
    refine ⟨⟨'"', _, rfl, rfl, by decide, by decide⟩, fun rest _ => ?_⟩
    rw [write, quote, List.append_assoc, List.cons_append, List.singleton_append,
      value_scalar n _ (by decide) (by decide), scalar, string_quote]
    rfl
  | @list n items hitems ih =>
    by_cases hne : items = []
    · subst hne
      exact ⟨⟨'[', _, rfl, rfl, by decide, by decide⟩, fun rest _ => rfl⟩
    · obtain ⟨s, hs, hencloses⟩ := exists_write_list layout level hne
      rw [hs]
      refine ⟨⟨'[', s, rfl, rfl, by decide, by decide⟩, fun rest _ => ?_⟩
      refine array_encloses hencloses ?_ (by simpa using hne) rest
      rw [List.forall₂_map_left_iff, List.forall₂_same]
      exact fun d hd => ih d hd (level + 1)

theorem document_write {nesting : ℕ} {d : Data} (hd : Native nesting d) (layout : Layout) :
    document nesting (write layout 0 d) = .ok d := by
  obtain ⟨hstarts, hreads⟩ := readsAs_write hd layout 0
  have hvalue := hreads [] fun _ hc => nomatch hc
  rw [List.append_nil] at hvalue
  generalize write layout 0 d = s at hstarts hvalue
  have hskip : skipSpace ([] ++ s) = s := skipSpace_append (fun _ hc => nomatch hc) hstarts.head
  rw [List.nil_append] at hskip
  obtain ⟨c, cs, rfl, -, -, hc⟩ := hstarts
  rw [document, hskip, hvalue]
  · rfl
  · intro _ hs
    cases hs
    exact hc rfl

/-- The text of data in JSON's own kinds is read back as the data, in both layouts. -/
theorem decode_encode {nesting : ℕ} {d : Data} (hd : Native nesting d) (layout : Layout) :
    decode (encode layout d) nesting = .ok d := by
  rw [decode, encode, String.toList_ofList, document_write hd]
  rfl

end TreeScript.Json

namespace TreeScript

namespace Heap

/-- Values made up of numbers, texts, truth values and null by lists. -/
inductive IsData (h : Heap) : Ref → Prop
  | number {r : Ref} {x : Float} (hr : h.payload r = .number x) : IsData h r
  | string {r : Ref} {s : String} (hr : h.payload r = .string s) : IsData h r
  | boolean {r : Ref} {b : Bool} (hr : h.payload r = .boolean b) : IsData h r
  | null {r : Ref} (hr : h.payload r = .null) : IsData h r
  | list {r : Ref} {items : List Ref} (hr : h.payload r = .list items)
    (hitems : ∀ i ∈ items, IsData h i) : IsData h r

/-- The data of a value: of a whole number its integer, of another number itself, and of a list the data
of its items. -/
inductive HasData (h : Heap) (r : Ref) : Data → Prop
  | integer {x : Float} {i : Int} (hr : h.payload r = .number x)
    (hx : Decimal.integer? x = some i) : HasData h r (.integer i)
  | float {x : Float} (hr : h.payload r = .number x) (hx : Decimal.integer? x = none) :
    HasData h r (.float x .json)
  | text {s : String} (hr : h.payload r = .string s) : HasData h r (.text s)
  | boolean {b : Bool} (hr : h.payload r = .boolean b) : HasData h r (.boolean b)
  | null (hr : h.payload r = .null) : HasData h r .null
  | list {items : List Ref} {ds : List Data} (hr : h.payload r = .list items)
    (hitems : ∀ i ∈ items, h.IsData i) (hds : ds = items.map h.toData) : HasData h r (.list ds)

theorem hasData {h : Heap} (hh : h.ListsOrdered) {r : Ref} (hr : h.IsData r) :
    h.HasData r (h.toData r) := by
  cases hr with
  | @number _ x hr =>
    rw [toData, hr]
    dsimp only
    cases hx : Decimal.integer? x with
    | some i => exact .integer hr hx
    | none => exact .float hr hx
  | string hr =>
    rw [toData, hr]
    exact .text hr
  | boolean hr =>
    rw [toData, hr]
    exact .boolean hr
  | null hr =>
    rw [toData, hr]
    exact .null hr
  | list hr hitems =>
    rw [toData_list hh hr]
    exact .list hr hitems rfl

/-- Whatever a value is, its data is of JSON's own kinds: what is no data itself is shown as a text,
no number is an integer too long to be read, and the data has as many levels of lists as the value. -/
theorem native_toData (h : Heap) (r : Ref) : Json.Native (h.depth r) (h.toData r) := by
  induction r using Nat.strongRecOn with
  | ind r ih =>
    rw [toData]
    cases hr : h.payload r with
    | null => exact .null _
    | boolean b => exact .boolean _ b
    | number x =>
      dsimp only
      cases hx : Decimal.integer? x with
      | some i => exact .integer _ (Json.natAbs_lt_longestInteger hx)
      | none => exact .float _ x
    | string s => exact .text _ s
    | list items =>
      rw [depth, hr]
      refine .list fun d hd => ?_
      obtain ⟨i, hi, rfl⟩ := List.mem_map.mp hd
      by_cases hlt : i < r
      · rw [dif_pos hlt]
        refine (ih i hlt).mono (List.le_max_of_le (List.mem_map_of_mem hi) ?_)
        rw [dif_pos hlt]
      · rw [dif_neg hlt]
        exact .null _
    | _ => exact .text _ _

/-- A value is written as JSON exactly if it is nested no deeper than the host can convert. -/
theorem serialize_json (h : Heap) (r : Ref) (pretty : Bool) (depths : Depths) :
    h.serialize r (some "json") pretty depths =
      if h.depth r ≤ depths.exported then
        .ok (Json.encode (if pretty then .indented else .oneLine) (h.toData r))
      else .error .tooDeep := by
  have hname : (some "json").bind Format.ofName? = some .json := by decide
  by_cases hdepth : h.depth r ≤ depths.exported
  · simp [serialize, toData?, hdepth, hname, encodeDocument, Except.mapError]
  · rw [serialize, toData?, if_neg hdepth, if_neg hdepth]

/-- Empty lists in lists are data. -/
theorem isData_nest {h : Heap} {k n : Nat} (hk : k ≤ n) :
    (h.nest n).IsData (h.objects.size + k) := by
  induction k with
  | zero => exact .list (payload_nest_innermost n) fun _ hi => nomatch hi
  | succ k ih =>
    refine .list (payload_nest_enclosing hk) fun i hi => ?_
    rw [List.mem_singleton.mp hi]
    exact ih (Nat.le_of_succ_le hk)

end Heap

/-- The text of a list is taken for JSON. -/
theorem sniff_encode (layout : Json.Layout) (items : List Data) :
    Format.sniff (Json.encode layout (.list items)) = .json := by
  have hstart : ∃ s, Json.write layout 0 (.list items) = '[' :: s := by
    rw [Json.write, Json.bracket]
    split <;> exact ⟨_, rfl⟩
  obtain ⟨s, hs⟩ := hstart
  rw [Json.encode, hs, Format.sniff, String.toList_ofList]
  rfl

end TreeScript
