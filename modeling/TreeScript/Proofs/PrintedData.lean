import TreeScript.Proofs.JsonRoundTrip
import TreeScript.Proofs.Reached
import TreeScript.Value.Printed

/-!
# Printed data

Here is a reader of printed values. Quoted texts are read up to the first quote that no backslash
precedes, so that brackets, commas and line breaks inside of them count for nothing, and lists are read
in whatever layout their length has given them. It finds the data of every value made up of numbers,
texts, truth values and null by lists, at every indentation and level of nesting. So such values are
equal if they are printed alike.
-/

namespace TreeScript

namespace Printed

open Decimal Json

/-! ## A reader -/

/-- A quoted text, from the character after its opening quote on. -/
def quoted (opening : List Char) : List Char → Except Stop (List Char × List Char)
  | [] => fail .unterminatedString opening
  | '\'' :: rest => .ok ([], rest)
  | '\\' :: c :: rest => (quoted opening rest).map fun (s, rest) => (c :: s, rest)
  | c :: rest => (quoted opening rest).map fun (s, rest) => (c :: s, rest)

/-- The words that stand for a value. -/
def words : List (List Char × Data) :=
  [("null".toList, .null), ("true".toList, .boolean true), ("false".toList, .boolean false),
   ("nan".toList, .float nan .json), ("inf".toList, .float (infinity false) .json),
   ("-inf".toList, .float (infinity true) .json)]

def word? (s : List Char) : Option (Data × List Char) :=
  (words.find? fun word => word.1.isPrefixOf s).map fun word => (word.2, s.drop word.1.length)

/-- A value of at most the given nesting. -/
def value : Nat → List Char → Except Stop (Data × List Char)
  | 0, s => fail .expectingValue s
  | depth + 1, s =>
    match s with
    | '\'' :: body => (quoted s body).map fun (text, rest) => (.text (String.ofList text), rest)
    | '[' :: rest => array (value depth) rest
    | _ =>
      match word? s with
      | some found => .ok found
      | none => number s

/-- A printed value and nothing else. -/
def read (text : String) : Except Stop Data := do
  let (data, rest) ← value (text.toList.length + 1) text.toList
  if rest.isEmpty then pure data else fail .extraData rest

/-! ## Texts -/

/-- How a character stands between quotes. -/
def escape (c : Char) : List Char := if c = '\\' ∨ c = '\'' then ['\\', c] else [c]

theorem toList_quoteText (s : String) :
    (quoteText s).toList = '\'' :: (s.toList.flatMap escape ++ ['\'']) :=
  String.toList_ofList

theorem quoted_escape (opening s : List Char) (c : Char) :
    quoted opening (escape c ++ s) = (quoted opening s).map fun (text, rest) => (c :: text, rest) := by
  unfold escape
  by_cases hc : c = '\\' ∨ c = '\''
  · rw [if_pos hc]
    rfl
  · -- a character that is not escaped neither starts an escape nor ends the text
    obtain ⟨hslash, hquote⟩ := not_or.mp hc
    rw [if_neg hc, List.singleton_append, quoted]
    · exact hquote
    · rintro _ _ rfl
      exact absurd rfl hslash

/-- Quoted text is read up to the quote that ends it, whatever it holds. -/
theorem quoted_flatMap (opening s rest : List Char) :
    quoted opening (s.flatMap escape ++ '\'' :: rest) = .ok (s, rest) := by
  induction s with
  | nil => rfl
  | cons c s ih =>
    rw [List.flatMap_cons, List.append_assoc, quoted_escape, ih]
    rfl

theorem readsAs_quoteText (s : String) (depth : Nat) :
    ReadsAs (value (depth + 1)) (quoteText s).toList (.text s) := by
  rw [toList_quoteText]
  refine ⟨⟨'\'', _, rfl, rfl, by decide, by decide⟩, fun rest _ => ?_⟩
  rw [List.cons_append, List.append_assoc, List.singleton_append, value, quoted_flatMap]
  show Except.ok (Data.text (String.ofList s.toList), rest) = _
  rw [String.ofList_toList]

/-! ## Words and numbers -/

theorem not_startsNumber_word {word : List Char × Data} (hword : word ∈ words) (t : List Char) :
    ¬ StartsNumber (word.1 ++ t) := by
  intro hs
  simp only [words, List.mem_cons, List.not_mem_nil, or_false] at hword
  rcases hword with rfl | rfl | rfl | rfl | rfl | rfl <;> cases hs
  all_goals
    next hdigit => cases hdigit

/-- Text that starts like a number is read as one. -/
theorem value_number (depth : Nat) (s : List Char) (hs : StartsNumber s) :
    value (depth + 1) s = number s := by
  have hnone : word? s = none := by
    unfold word?
    rw [hs.find?_eq_none fun word => not_startsNumber_word]
    rfl
  rw [value, hnone]
  · exact fun body => hs.ne_cons (by decide) (by decide)
  · exact fun body => hs.ne_cons (by decide) (by decide)

theorem readsAs_word {word : List Char × Data} (hword : word ∈ words) (depth : Nat) :
    ReadsAs (value (depth + 1)) word.1 word.2 := by
  simp only [words, List.mem_cons, List.not_mem_nil, or_false] at hword
  rcases hword with rfl | rfl | rfl | rfl | rfl | rfl <;>
    exact ⟨⟨_, _, rfl, rfl, by decide, by decide⟩, fun rest _ => rfl⟩

/-- What is not finite is displayed as a word. -/
theorem written_mem_words {x : Float} (hx : dyadic? x = none) :
    ((written general x).toList, Data.float x .json) ∈ words := by
  rcases written_of_dyadic?_eq_none hx general with ⟨rfl, hw⟩ | ⟨rfl, hw⟩ | ⟨rfl, hw⟩
  · rw [hw]
    simp [words, general]
  · rw [hw]
    simp [words, general]
  · rw [hw]
    simp [words, general]

/-- Every number is read back: a whole one as an integer, another as it is. -/
theorem readsAs_displayNumber {h : Heap} {r : Ref} {x : Float} (hr : h.payload r = .number x)
    (depth : Nat) : ReadsAs (value (depth + 1)) (displayNumber x).toList (h.toData r) := by
  rw [Heap.toData, hr]
  unfold displayNumber
  dsimp only
  cases hinteger : integer? x with
  | some i =>
    exact readsAs_number (value_number depth) (startsNumber_toString i) fun _ =>
      number_toString (natAbs_lt_longestInteger hinteger)
  | none =>
    cases hx : dyadic? x with
    | some d =>
      exact readsAs_number (value_number depth) (startsNumber_written hx rfl) fun _ =>
        number_written hx rfl
    | none => exact readsAs_word (written_mem_words hx) depth

/-! ## Lists -/

theorem intercalate_map_append (sep before : List Char) {parts : List (List Char)}
    (hne : parts ≠ []) :
    sep.intercalate (parts.map (before ++ ·)) = before ++ (sep ++ before).intercalate parts := by
  induction parts with
  | nil => exact absurd rfl hne
  | cons part rest ih =>
    cases rest with
    | nil => simp
    | cons next rest =>
      rw [List.map_cons, List.map_cons, List.intercalate_cons_cons, List.intercalate_cons_cons,
        ← List.map_cons, ih (List.cons_ne_nil next rest)]
      simp

/-- A line break and the blanks in front of the next line. -/
theorem blank_indentation (indent level : Nat) :
    Blank ('\n' :: (indentation indent level).toList) := by
  intro c hc
  rcases List.mem_cons.mp hc with rfl | hc
  · rfl
  · rw [indentation, String.toList_ofList] at hc
    rw [List.eq_of_mem_replicate hc]
    rfl

theorem toList_printList_nil (indent level : Nat) :
    (printList indent level []).toList = ['[', ']'] := by
  have hnil : printList indent level [] = "[]" := if_pos rfl
  rw [hnil]
  rfl

/-- On one line or over many, a list stands between brackets, with commas and blanks. -/
theorem exists_printList (indent level : Nat) {parts : List String} (hne : parts ≠ []) :
    ∃ s, (printList indent level parts).toList = '[' :: s ∧
      Encloses (parts.map String.toList) s := by
  have hempty : ¬ parts.isEmpty = true := by simpa using hne
  unfold printList
  rw [if_neg hempty]
  dsimp only
  split
  · -- on one line there are blanks behind the commas only
    refine ⟨_, ?_, [], [' '], [], ?_, ?_, ?_, rfl⟩
    · simp [String.toList_intercalate]
    · exact fun _ hc => nomatch hc
    · simp [Blank, isSpace]
    · exact fun _ hc => nomatch hc
  · -- over many lines, the blanks in front of an item belong to the comma before it
    generalize hinner : (indentation indent (level + 1)).toList = inner
    have hlines : (parts.map (indentation indent (level + 1) ++ ·)).map String.toList =
        (parts.map String.toList).map (inner ++ ·) := by
      rw [List.map_map, List.map_map]
      refine List.map_congr_left fun part _ => ?_
      show (indentation indent (level + 1) ++ part).toList = inner ++ part.toList
      rw [String.toList_append, hinner]
    have hjoin : (String.intercalate ",\n"
        (parts.map (indentation indent (level + 1) ++ ·))).toList =
          inner ++ (',' :: '\n' :: inner).intercalate (parts.map String.toList) := by
      rw [String.toList_intercalate, hlines]
      exact intercalate_map_append [',', '\n'] inner (by simpa using hne)
    have hblank : Blank ('\n' :: inner) := hinner ▸ blank_indentation indent (level + 1)
    refine ⟨_, ?_, '\n' :: inner, '\n' :: inner, '\n' :: (indentation indent level).toList,
      hblank, hblank, blank_indentation indent level, rfl⟩
    simp only [String.toList_append, hjoin]
    simp

/-- A list is read back if its items are, whatever its layout is. -/
theorem readsAs_printList (indent level : Nat) {depth : Nat} {parts : List String} {ds : List Data}
    (hparts : List.Forall₂ (ReadsAs (value depth)) (parts.map String.toList) ds) :
    ReadsAs (value (depth + 1)) (printList indent level parts).toList (.list ds) := by
  by_cases hne : parts = []
  · subst hne
    cases hparts
    rw [toList_printList_nil]
    exact ⟨⟨'[', _, rfl, rfl, by decide, by decide⟩, fun rest _ => rfl⟩
  · obtain ⟨s, hs, hencloses⟩ := exists_printList indent level hne
    rw [hs]
    refine ⟨⟨'[', s, rfl, rfl, by decide, by decide⟩, fun rest _ => ?_⟩
    exact array_encloses hencloses hparts (by simpa using hne) rest

/-- An item is shorter than the list it is printed in. -/
theorem length_lt_printList (indent level : Nat) {parts : List String} {part : String}
    (hpart : part ∈ parts) :
    part.toList.length < (printList indent level parts).toList.length := by
  obtain ⟨s, hs, hencloses⟩ := exists_printList indent level (List.ne_nil_of_mem hpart)
  have hlt := hencloses.length_lt (List.mem_map_of_mem hpart)
  rw [hs, List.length_cons]
  omega

/-! ## Values -/

section Values

variable {h : Heap} (hh : h.ListsOrdered)

include hh

omit hh in
/-- A list is printed if its items are, in the layout that their texts have. -/
theorem print?_list {r : Ref} {items : List Ref} (hr : h.payload r = .list items)
    {indent nesting level : Nat} (text : Ref → String)
    (hitems : ∀ i ∈ items, h.print? indent nesting i (level + 1) = some (text i)) :
    h.print? indent (nesting + 1) r level = some (printList indent level (items.map text)) := by
  rw [Heap.print?, hr]
  dsimp only
  cases items with
  | nil => rfl
  | cons i items =>
    rw [mapM_eq_some_map hitems]
    rfl

omit hh in
/-- A list that is printed has items that are. -/
theorem print?_list_cases {r : Ref} {items : List Ref} (hr : h.payload r = .list items)
    {indent nesting level : Nat} {printed : String}
    (hprint : h.print? indent nesting r level = some printed) :
    ∃ text : Ref → String, printed = printList indent level (items.map text) ∧
      ∀ i ∈ items, h.print? indent (nesting - 1) i (level + 1) = some (text i) := by
  rw [Heap.print?.eq_def, hr] at hprint
  dsimp only at hprint
  cases items with
  | nil =>
    cases hprint
    exact ⟨fun _ => "", rfl, fun i hi => absurd hi List.not_mem_nil⟩
  | cons first rest =>
    cases nesting with
    | zero => cases hprint
    | succ nesting =>
      obtain ⟨parts, hparts, hlayout⟩ := Option.bind_eq_some_iff.mp hprint
      cases hlayout
      let text (i : Ref) : String := (h.print? indent nesting i (level + 1)).getD ""
      have htext : ∀ i ∈ first :: rest, h.print? indent nesting i (level + 1) = some (text i) := by
        intro i hi
        cases hi' : h.print? indent nesting i (level + 1) with
        | some s => simp only [text, hi', Option.getD_some]
        | none => cases hparts.symm.trans (mapM_eq_none_iff.mpr ⟨i, hi, hi'⟩)
      exact ⟨text, congrArg _ (Option.some.inj (hparts.symm.trans (mapM_eq_some_map htext))), htext⟩

/-- What data was printed as is read as the data. -/
theorem readsAs_print {v : Ref} (hv : h.IsData v) {indent nesting level : Nat} {text : String}
    (hprint : h.print? indent nesting v level = some text) {depth : Nat}
    (hdepth : text.toList.length ≤ depth) :
    ReadsAs (value (depth + 1)) text.toList (h.toData v) := by
  have hother {r : Ref} {nesting : Nat} {text : String} (hr : ∀ items, h.payload r ≠ .list items)
      (hprint : h.display? nesting r = some text) : text = h.display r := by
    rw [Heap.display?_of_not_list hr] at hprint
    exact (Option.some.inj hprint).symm
  induction hv generalizing nesting level text depth with
  | @number r x hr =>
    rw [Heap.print?, hr] at hprint
    rw [hother (by simp [hr]) hprint, Heap.display, hr]
    exact readsAs_displayNumber hr depth
  | @string r s hr =>
    rw [Heap.print?, hr] at hprint
    cases hprint
    rw [Heap.toData, hr]
    exact readsAs_quoteText s depth
  | @boolean r b hr =>
    rw [Heap.print?, hr] at hprint
    rw [hother (by simp [hr]) hprint, Heap.display, Heap.toData, hr]
    dsimp only
    cases b <;> exact ⟨⟨_, _, rfl, rfl, by decide, by decide⟩, fun rest _ => rfl⟩
  | @null r hr =>
    rw [Heap.print?, hr] at hprint
    rw [hother (by simp [hr]) hprint, Heap.display, Heap.toData, hr]
    dsimp only
    exact ⟨⟨_, _, rfl, rfl, by decide, by decide⟩, fun rest _ => rfl⟩
  | @list r items hr hitems ih =>
    obtain ⟨part, rfl, hparts⟩ := print?_list_cases hr hprint
    rw [Heap.toData_list hh hr]
    -- the items have the next level, and are shorter than the list
    apply readsAs_printList
    rw [List.map_map, List.forall₂_map_left_iff, List.forall₂_map_right_iff, List.forall₂_same]
    intro i hi
    have hpart : part i ∈ items.map part := List.mem_map_of_mem hi
    have hlt := length_lt_printList indent level hpart
    obtain ⟨n, rfl⟩ : ∃ n, depth = n + 1 := ⟨depth - 1, by omega⟩
    exact ih i hi (hparts i hi) (by omega)

/-- The printed form of data is read back as the data. -/
theorem read_print {v : Ref} (hv : h.IsData v) {indent nesting level : Nat} {text : String}
    (hprint : h.print? indent nesting v level = some text) : read text = .ok (h.toData v) := by
  have hvalue := (readsAs_print hh hv hprint (Nat.le_refl _)).reads [] fun _ hc => nomatch hc
  rw [List.append_nil] at hvalue
  unfold read
  rw [hvalue]
  rfl

/-- Data that is nested no deeper than there is room for is printed. -/
theorem exists_print {v : Ref} (hv : h.IsData v) {indent nesting level : Nat}
    (hroom : h.depth v ≤ nesting) : ∃ text, h.print? indent nesting v level = some text := by
  induction hv generalizing nesting level with
  | @list r items hr hitems ih =>
    rw [Heap.depth_list hh hr] at hroom
    obtain ⟨nesting, rfl⟩ : ∃ n, nesting = n + 1 := ⟨nesting - 1, by omega⟩
    let text (i : Ref) : String := (h.print? indent nesting i (level + 1)).getD ""
    refine ⟨_, print?_list hr text fun i hi => ?_⟩
    have hle : h.depth i ≤ nesting :=
      Nat.le_trans (Heap.le_foldr_max (List.mem_map_of_mem hi)) (Nat.le_of_succ_le_succ hroom)
    obtain ⟨s, hs⟩ : ∃ s, h.print? indent nesting i (level + 1) = some s := ih i hi hle
    simp only [text, hs, Option.getD_some]
  | @string r s hr => exact ⟨_, by rw [Heap.print?, hr]⟩
  | number hr =>
    rw [Heap.print?, hr]
    exact ⟨_, Heap.display?_of_not_list (by simp [hr]) nesting⟩
  | boolean hr =>
    rw [Heap.print?, hr]
    exact ⟨_, Heap.display?_of_not_list (by simp [hr]) nesting⟩
  | null hr =>
    rw [Heap.print?, hr]
    exact ⟨_, Heap.display?_of_not_list (by simp [hr]) nesting⟩

end Values

end Printed

namespace Heap

section Unambiguous

variable {h : Heap} (hh : h.ListsOrdered)

include hh

/-- Values with the same data are equal, if they are data: the sign of a zero is all of them that the
data does not show. -/
theorem same_of_toData_eq {v w : Ref} (hv : h.IsData v) (hw : h.IsData w)
    (heq : h.toData v = h.toData w) : h.same v w = true := by
  induction v using Nat.strongRecOn generalizing w with
  | ind v ih =>
    rw [same_iff_agrees hh]
    -- kinds of values that have the same data are the same kind
    have hdv := hasData hh hv
    have hdw := hasData hh hw
    rw [heq] at hdv
    generalize h.toData w = d at hdv hdw
    cases hdv with
    | integer hr hx =>
      cases hdw with
      | integer hs hy =>
        exact .number hr hs ((Decimal.plain_eq_iff _ _).mp (Decimal.plain_eq_of_integer? hx hy))
    | float hr _ =>
      cases hdw with
      | float hs _ => exact .number hr hs (.inl rfl)
    | text hr =>
      cases hdw with
      | text hs => exact .string hr hs
    | boolean hr =>
      cases hdw with
      | boolean hs => exact .boolean hr hs
    | null hr =>
      cases hdw with
      | null hs => exact .null hr hs
    | @list items ds hr hitems hds =>
      cases hdw with
      | @list items' _ hs hitems' hds' =>
        have hmap : items.map h.toData = items'.map h.toData := hds.symm.trans hds'
        rw [← List.forall₂_eq_eq_eq, List.forall₂_map_left_iff, List.forall₂_map_right_iff,
          List.forall₂_iff_zip] at hmap
        obtain ⟨hlength, hzip⟩ := hmap
        refine .list hr hs (List.forall₂_iff_zip.mpr ⟨hlength, fun {i j} hij => ?_⟩)
        obtain ⟨hi, hj⟩ := List.of_mem_zip hij
        exact ih i (hh v items hr i hi) (hitems i hi) (hitems' j hj) (hzip hij)

/-- Numbers, texts, truth values, null and lists of them are printed as far as there is room, and what
they are printed as can be read back, on one line or over many, at every indentation and level. So if
two of them are printed alike, be it at different levels, they are equal. The texts are those without
lone surrogates. -/
theorem printed_unambiguous :
    (∀ v, h.IsData v → ∀ indent nesting level, h.depth v ≤ nesting →
      ∃ text, h.print? indent nesting v level = some text) ∧
    (∀ v, h.IsData v → ∀ indent nesting level text, h.print? indent nesting v level = some text →
      Printed.read text = .ok (h.toData v)) ∧
    (∀ v w, h.IsData v → h.IsData w → ∀ indent indent' nesting nesting' level level' text,
      h.print? indent nesting v level = some text →
      h.print? indent' nesting' w level' = some text → h.same v w = true) := by
  refine ⟨fun v hv indent nesting level => Printed.exists_print hh hv,
    fun v hv indent nesting level text => Printed.read_print hh hv, ?_⟩
  intro v w hv hw indent indent' nesting nesting' level level' text hprint hprint'
  have hread := Printed.read_print hh hv hprint
  have hread' := Printed.read_print hh hw hprint'
  exact same_of_toData_eq hh hv hw (Except.ok.inj (hread.symm.trans hread'))

omit hh in
/-- Two lists that hold a zero each, of either sign, are printed alike at different levels. -/
theorem printed_unambiguous_zeros :
    let zeros := ((Heap.initial.alloc (.number 0.0)).2.alloc (.number (-0.0))).2
    let h := ((zeros.alloc (.list [11])).2.alloc (.list [12])).2
    h.ListsOrdered ∧ h.IsData 13 ∧ h.IsData 14 ∧
      (∃ text, h.print? 2 1 13 0 = some text ∧ h.print? 4 1 14 1 = some text) ∧
      h.same 13 14 = true := by
  intro zeros h
  have hreached : ({ (Machine.bare false).store with heap := h } : Store).Reached := by
    refine .add (.add (.add (.add (.start false) ?_) ?_) ?_) ?_
    · exact fun _ hp => nomatch hp
    · exact fun _ hp => nomatch hp
    · rintro p (_ | ⟨_, ⟨⟩⟩)
      decide
    · rintro p (_ | ⟨_, ⟨⟩⟩)
      decide
  have hh : h.ListsOrdered := hreached.listsOrdered
  have hzero (indent nesting level : Nat) (r : Ref) (x : Float) (hr : h.payload r = .number x)
      (hx : Decimal.IsZero x) : h.print? indent nesting r level = some "0" := by
    have hshown := display?_of_not_list (h := h) (r := r) (by simp [hr]) nesting
    rw [print?, hr]
    refine hshown.trans (congrArg some ?_)
    rw [display, hr]
    dsimp only
    rw [displayNumber, Decimal.integer?_of_isZero hx]
    rfl
  have h11 : h.payload 11 = .number 0.0 := rfl
  have h12 : h.payload 12 = .number (-0.0) := rfl
  have h13 : h.payload 13 = .list [11] := rfl
  have h14 : h.payload 14 = .list [12] := rfl
  have hleft : h.print? 2 1 13 0 = some (printList 2 0 ["0"]) := by
    refine Printed.print?_list h13 (fun _ => "0") fun i hi => ?_
    rw [List.mem_singleton.mp hi]
    exact hzero 2 0 1 11 0.0 h11 ⟨rfl, rfl⟩
  have hright : h.print? 4 1 14 1 = some (printList 4 1 ["0"]) := by
    refine Printed.print?_list h14 (fun _ => "0") fun i hi => ?_
    rw [List.mem_singleton.mp hi]
    exact hzero 4 0 2 12 (-0.0) h12 ⟨rfl, rfl⟩
  have hdata13 : h.IsData 13 := .list h13 fun i hi => List.mem_singleton.mp hi ▸ .number h11
  have hdata14 : h.IsData 14 := .list h14 fun i hi => List.mem_singleton.mp hi ▸ .number h12
  exact ⟨hh, hdata13, hdata14, ⟨_, hleft, hright⟩,
    (printed_unambiguous hh).2.2 13 14 hdata13 hdata14 2 4 1 1 0 1 _ hleft hright⟩

end Unambiguous

end Heap

end TreeScript
