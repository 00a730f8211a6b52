import TreeScript.Document.Load

/-!
# Places in data

A document gives places in the `line` and `origin` fields of its nodes and
patterns. `Data.unplaced` takes out the places that are valid, at every depth; two
documents that become the same data this way differ at most in valid places.

A mapping keeps one empty field for what was taken out, so that it stays apart
from a mapping without any field: which of the two it is decides whether it counts
as true.
-/

namespace TreeScript

namespace Data

def isPlaceKey (k : Data) : Bool := k.sameKey (.text "line") || k.sameKey (.text "origin")

def isValidLine : Option Data → Bool
  | none | some .null => true
  | some (.integer line) => Text.isWritable line
  | _ => false

def isValidOrigin : Option Data → Bool
  | none | some (.text _) => true
  | _ => false

/-- Whether the place that a mapping gives is valid, or it gives none: the line is an integer that
can be written, and the origin, if there is one, is text. -/
def hasValidPlace (entries : List (Data × Data)) : Bool :=
  isValidLine (field? entries "line") && isValidOrigin (field? entries "origin")

/-- Whether an entry is a part of a place, and one that can be valid. -/
def isPlaceEntry (entry : Data × Data) : Bool :=
  entry.1.isPlaceKey && (isValidLine (some entry.2) || isValidOrigin (some entry.2))

/-- Takes a valid place out of the entries of a mapping. -/
def dropPlace (entries : List (Data × Data)) : List (Data × Data) :=
  if hasValidPlace entries && !entries.isEmpty then
    (.text "line", .null) :: entries.filter fun entry => !isPlaceEntry entry
  else entries

mutual

/-- The data without the places that nodes and patterns validly give. -/
def unplaced : Data → Data
  | .list items => .list (unplacedItems items)
  | .mapping entries => .mapping (dropPlace (unplacedEntries entries))
  | d => d

def unplacedItems : List Data → List Data
  | [] => []
  | item :: rest => item.unplaced :: unplacedItems rest

def unplacedEntries : List (Data × Data) → List (Data × Data)
  | [] => []
  | (key, value) :: rest => (key, value.unplaced) :: unplacedEntries rest

end

theorem unplacedEntries_eq_map (entries : List (Data × Data)) :
    unplacedEntries entries = entries.map fun entry => (entry.1, entry.2.unplaced) := by
  induction entries with
  | nil => rfl
  | cons entry rest ih =>
    obtain ⟨key, value⟩ := entry
    rw [unplacedEntries, ih, List.map_cons]

theorem unplacedItems_eq_map (items : List Data) : unplacedItems items = items.map unplaced := by
  induction items with
  | nil => rfl
  | cons item rest ih => rw [unplacedItems, ih, List.map_cons]

/-! ## Reading -/

theorem sameKey_text_iff (k : Data) (name : String) :
    k.sameKey (.text name) = true ↔ k = .text name := by
  cases k <;> simp [sameKey, asInteger?]

theorem field?_cons (key value : Data) (rest : List (Data × Data)) (name : String) :
    field? ((key, value) :: rest) name =
      if key.sameKey (.text name) then some value else field? rest name := by
  unfold field?
  rw [List.find?_cons]
  cases key.sameKey (.text name) <;> rfl

theorem field?_unplacedEntries (entries : List (Data × Data)) (name : String) :
    field? (unplacedEntries entries) name = (field? entries name).map unplaced := by
  induction entries with
  | nil => rfl
  | cons entry rest ih =>
    obtain ⟨key, value⟩ := entry
    rw [unplacedEntries, field?_cons, field?_cons, ih]
    split <;> rfl

/-- A field that is no part of a place. -/
abbrev IsOwnField (name : String) : Prop := name ≠ "line" ∧ name ≠ "origin"

theorem sameKey_of_isPlaceKey {k : Data} {name : String} (hname : IsOwnField name)
    (hk : k.isPlaceKey = true) : k.sameKey (.text name) = false := by
  rw [isPlaceKey, Bool.or_eq_true, sameKey_text_iff, sameKey_text_iff] at hk
  obtain ⟨hline, horigin⟩ := hname
  rw [← Bool.not_eq_true, sameKey_text_iff]
  rintro rfl
  rcases hk with hk | hk
  · exact hline (Data.text.inj hk)
  · exact horigin (Data.text.inj hk)

theorem field?_filter (entries : List (Data × Data)) {name : String} (hname : IsOwnField name) :
    field? (entries.filter fun entry => !isPlaceEntry entry) name = field? entries name := by
  induction entries with
  | nil => rfl
  | cons entry rest ih =>
    obtain ⟨key, value⟩ := entry
    rw [field?_cons, List.filter_cons]
    cases hplace : isPlaceEntry (key, value) with
    | true =>
      have hkey : key.isPlaceKey = true := ((Bool.and_eq_true _ _).mp hplace).1
      simp [ih, sameKey_of_isPlaceKey hname hkey]
    | false =>
      simp only [Bool.not_false, if_true]
      rw [field?_cons, ih]

theorem field?_dropPlace (entries : List (Data × Data)) {name : String} (hname : IsOwnField name) :
    field? (dropPlace entries) name = field? entries name := by
  unfold dropPlace
  split
  · rw [field?_cons, sameKey_of_isPlaceKey hname (by decide)]
    exact field?_filter entries hname
  · rfl

/-- What a node has in its other fields is what it had there, without places. -/
theorem field?_unplaced (entries : List (Data × Data)) {name : String} (hname : IsOwnField name) :
    field? (dropPlace (unplacedEntries entries)) name = (field? entries name).map unplaced := by
  rw [field?_dropPlace _ hname, field?_unplacedEntries]

theorem isValidLine_unplaced (d : Option Data) :
    isValidLine (d.map unplaced) = isValidLine d := by
  cases d with
  | none => rfl
  | some d => cases d <;> rfl

theorem isValidOrigin_unplaced (d : Option Data) :
    isValidOrigin (d.map unplaced) = isValidOrigin d := by
  cases d with
  | none => rfl
  | some d => cases d <;> rfl

theorem hasValidPlace_unplacedEntries (entries : List (Data × Data)) :
    hasValidPlace (unplacedEntries entries) = hasValidPlace entries := by
  simp only [hasValidPlace, field?_unplacedEntries, isValidLine_unplaced, isValidOrigin_unplaced]

/-- A mapping from which the place is taken gives none. -/
theorem line_dropPlace {entries : List (Data × Data)} (h : hasValidPlace entries = true) :
    field? (dropPlace entries) "line" = none ∨ field? (dropPlace entries) "line" = some .null := by
  unfold dropPlace
  cases entries with
  | nil => exact .inl rfl
  | cons entry rest =>
    rw [h]
    exact .inr rfl

theorem dropPlace_of_invalid {entries : List (Data × Data)} (h : hasValidPlace entries = false) :
    dropPlace entries = entries := by
  rw [dropPlace, h]
  rfl

theorem unplacedItems_isEmpty (items : List Data) :
    (unplacedItems items).isEmpty = items.isEmpty := by
  cases items <;> rfl

theorem dropPlace_unplacedEntries_isEmpty (entries : List (Data × Data)) :
    (dropPlace (unplacedEntries entries)).isEmpty = entries.isEmpty := by
  unfold dropPlace
  cases entries with
  | nil => rfl
  | cons entry rest => split <;> rfl

@[simp] theorem truthy_unplaced (d : Data) : d.unplaced.truthy = d.truthy := by
  cases d <;> simp [unplaced, truthy, unplacedItems_isEmpty, dropPlace_unplacedEntries_isEmpty]

/-- Of a mapping with nothing but a line, the empty field is left. -/
theorem unplaced_line {line : Int} (h : Text.isWritable line = true) :
    unplaced (.mapping [(.text "line", .integer line)]) = .mapping [(.text "line", .null)] := by
  simp [unplaced, unplacedEntries, dropPlace, hasValidPlace, isValidLine, isValidOrigin,
    isPlaceEntry, field?, sameKey, isPlaceKey, h]

end Data

/-- The parts of a document without the places in them. -/
def Parts.unplaced (parts : Parts) : Parts := parts.map fun part => (part.1, part.2.unplaced)

def Document.unplaced (d : Document) : Document := ⟨d.root.unplaced, d.parts.unplaced⟩

theorem Parts.look_unplaced (parts : Parts) (d : Data) :
    parts.unplaced.look d.unplaced = (parts.look d).unplaced := by
  cases d with
  | part id isMapping =>
    have hlookup : parts.unplaced.lookup id = (parts.lookup id).map Data.unplaced := by
      induction parts with
      | nil => rfl
      | cons part rest ih =>
        obtain ⟨n, content⟩ := part
        simp only [Parts.unplaced, List.map_cons, List.lookup_cons]
        cases id == n with
        | true => rfl
        | false => exact ih
    simp only [Data.unplaced, Parts.look, hlookup]
    cases parts.lookup id <;> rfl
  | _ => rfl

namespace Data

/-! ## Showing -/

section Lists

variable {α β : Type}

/-- Mapping under a change of what goes in and what comes out. -/
theorem mapM_map_eq {f g : α → Option β} {a : α → α} {b : β → β} (h : ∀ x, g (a x) = (f x).map b)
    (xs : List α) : (xs.map a).mapM g = (xs.mapM f).map (List.map b) := by
  induction xs with
  | nil => rfl
  | cons x xs ih =>
    rw [List.map_cons, List.mapM_cons, List.mapM_cons, ih, h]
    cases f x with
    | none => rfl
    | some y => cases xs.mapM f <;> rfl

/-- What is left out may be mapped before, if it is left as it is. -/
theorem mapM_filter_eq {f : α → Option α} {p : α → Bool}
    (hkept : ∀ x y, f x = some y → p y = p x) (hleft : ∀ x, p x = false → f x = some x)
    (xs : List α) : (xs.filter p).mapM f = (xs.mapM f).map (List.filter p) := by
  induction xs with
  | nil => rfl
  | cons x xs ih =>
    rw [List.mapM_cons, List.filter_cons]
    cases hp : p x with
    | false =>
      rw [hleft x hp, if_neg (by simp), ih]
      cases xs.mapM f with
      | none => rfl
      | some ys => simp [hp]
    | true =>
      rw [if_pos rfl, List.mapM_cons, ih]
      cases hx : f x with
      | none => rfl
      | some y =>
        have hy := (hkept x y hx).trans hp
        cases xs.mapM f with
        | none => rfl
        | some ys => simp [hy]

end Lists

/-- Data is shown as it is; only lists and mappings are shown as others. -/
theorem shown?_cases {parts : Parts} {room : Nat} {above : List Nat} {d e : Data}
    (h : d.shown? parts room above = some e) :
    isValidLine (some e) = isValidLine (some d) ∧
      isValidOrigin (some e) = isValidOrigin (some d) := by
  cases room with
  | zero => cases h
  | succ room =>
    rw [shown?] at h
    split at h
    · cases h
      exact ⟨rfl, rfl⟩
    · cases d with
      | list items =>
        obtain ⟨_, -, rfl⟩ := Option.map_eq_some_iff.mp h
        exact ⟨rfl, rfl⟩
      | mapping entries =>
        obtain ⟨_, -, rfl⟩ := Option.map_eq_some_iff.mp h
        exact ⟨rfl, rfl⟩
      | part id isMapping =>
        dsimp only at h
        split at h
        · obtain ⟨_, -, rfl⟩ := Option.map_eq_some_iff.mp h
          exact ⟨rfl, rfl⟩
        · obtain ⟨_, -, rfl⟩ := Option.map_eq_some_iff.mp h
          exact ⟨rfl, rfl⟩
        · cases h
          exact ⟨rfl, rfl⟩
      | _ =>
        cases h
        exact ⟨rfl, rfl⟩

section Shown

variable {parts : Parts} {room : Nat} {above : List Nat}

/-- An entry of a mapping as it is shown. -/
abbrev shownPair? (parts : Parts) (room : Nat) (above : List Nat) (entry : Data × Data) :
    Option (Data × Data) :=
  (entry.2.shown? parts room above).map (entry.1, ·)

theorem shownPair?_eq_some {entry entry' : Data × Data}
    (h : shownPair? parts room above entry = some entry') :
    entry'.1 = entry.1 ∧ entry.2.shown? parts room above = some entry'.2 := by
  obtain ⟨value, hvalue, rfl⟩ := Option.map_eq_some_iff.mp h
  exact ⟨rfl, hvalue⟩

theorem isPlaceEntry_of_shown {entry entry' : Data × Data}
    (h : shownPair? parts room above entry = some entry') :
    isPlaceEntry entry' = isPlaceEntry entry := by
  obtain ⟨hkey, hvalue⟩ := shownPair?_eq_some h
  obtain ⟨hline, horigin⟩ := shown?_cases hvalue
  rw [isPlaceEntry, isPlaceEntry, hkey, hline, horigin]

/-- The parts of a valid place are shown as they are. -/
theorem shownPair?_of_isPlaceEntry {entry : Data × Data} (h : isPlaceEntry entry = true) :
    shownPair? parts (room + 1) above entry = some entry := by
  obtain ⟨key, value⟩ := entry
  have hvalue := ((Bool.and_eq_true _ _).mp h).2
  cases value <;> first | rfl | cases hvalue

/-- The fields of entries that are shown are as valid as those of the entries. -/
theorem hasValidPlace_of_shown {entries entries' : List (Data × Data)}
    (h : entries.mapM (shownPair? parts room above) = some entries') :
    hasValidPlace entries' = hasValidPlace entries := by
  have hfield (name : String) :
      isValidLine (field? entries' name) = isValidLine (field? entries name) ∧
        isValidOrigin (field? entries' name) = isValidOrigin (field? entries name) := by
    induction entries generalizing entries' with
    | nil =>
      cases h
      exact ⟨rfl, rfl⟩
    | cons entry rest ih =>
      rw [List.mapM_cons] at h
      cases hentry : shownPair? parts room above entry with
      | none => rw [hentry] at h; cases h
      | some entry' =>
        cases hrest : rest.mapM (shownPair? parts room above) with
        | none => rw [hentry, hrest] at h; cases h
        | some rest' =>
          rw [hentry, hrest] at h
          cases h
          obtain ⟨hkey, hvalue⟩ := shownPair?_eq_some hentry
          obtain ⟨key, value⟩ := entry
          obtain ⟨key', value'⟩ := entry'
          cases hkey
          rw [field?_cons, field?_cons]
          split
          · exact shown?_cases hvalue
          · exact ih hrest
  rw [hasValidPlace, hasValidPlace, (hfield "line").1, (hfield "origin").2]

theorem shownEntries_isEmpty {entries entries' : List (Data × Data)}
    (h : entries.mapM (shownPair? parts room above) = some entries') :
    entries'.isEmpty = entries.isEmpty := by
  cases entries with
  | nil =>
    cases h
    rfl
  | cons entry rest =>
    rw [List.mapM_cons] at h
    cases hentry : shownPair? parts room above entry with
    | none => rw [hentry] at h; cases h
    | some entry' =>
      cases hrest : rest.mapM (shownPair? parts room above) with
      | none => rw [hentry, hrest] at h; cases h
      | some rest' =>
        rw [hentry, hrest] at h
        cases h
        rfl

/-- Taking the place out of entries that are shown is showing them without their place. -/
theorem shown_dropPlace (entries : List (Data × Data)) :
    (dropPlace entries).mapM (shownPair? parts room above) =
      (entries.mapM (shownPair? parts room above)).map dropPlace := by
  by_cases hdrops : (hasValidPlace entries && !entries.isEmpty) = true
  · rw [dropPlace, if_pos hdrops]
    cases room with
    | zero =>
      -- nothing is shown without room, and there is an entry that would have to be
      cases entries with
      | nil => simp at hdrops
      | cons entry rest => rfl
    | succ room =>
      rw [List.mapM_cons, mapM_filter_eq (fun _ _ h => by rw [isPlaceEntry_of_shown h])
        fun _ h => shownPair?_of_isPlaceEntry (by simpa using h)]
      cases hshown : entries.mapM (shownPair? parts (room + 1) above) with
      | none => rfl
      | some entries' =>
        have hdrops' : (hasValidPlace entries' && !entries'.isEmpty) = true := by
          rwa [hasValidPlace_of_shown hshown, shownEntries_isEmpty hshown]
        rw [Option.map_some, Option.map_some, dropPlace, if_pos hdrops']
        rfl
  · rw [dropPlace, if_neg hdrops]
    cases hshown : entries.mapM (shownPair? parts room above) with
    | none => rfl
    | some entries' =>
      have hdrops' : ¬ (hasValidPlace entries' && !entries'.isEmpty) = true := by
        rwa [hasValidPlace_of_shown hshown, shownEntries_isEmpty hshown]
      rw [Option.map_some, dropPlace, if_neg hdrops']

theorem recursIn_unplaced (d : Data) : d.unplaced.recursIn above = d.recursIn above := by
  cases d <;> rfl

theorem andAbove_unplaced (d : Data) : d.unplaced.andAbove above = d.andAbove above := by
  cases d <;> rfl

/-- By induction on the room: data without places is shown as the data is, without places. -/
theorem shown?_unplaced (parts : Parts) (room : Nat) (above : List Nat) (d : Data) :
    d.unplaced.shown? parts.unplaced room above = (d.shown? parts room above).map unplaced := by
  induction room generalizing above d with
  | zero => rfl
  | succ room ih =>
    rw [shown?, shown?, recursIn_unplaced, andAbove_unplaced, Parts.look_unplaced]
    split
    · rfl
    · cases hlook : parts.look d with
      | list items =>
        simp only [unplaced, unplacedItems_eq_map]
        rw [mapM_map_eq (ih (d.andAbove above))]
        cases items.mapM (shown? parts room (d.andAbove above)) with
        | none => rfl
        | some items' => simp [unplaced, unplacedItems_eq_map]
      | mapping entries =>
        have hvalue (entry : Data × Data) :
            shownPair? parts.unplaced room (d.andAbove above) (entry.1, entry.2.unplaced) =
              (shownPair? parts room (d.andAbove above) entry).map
                fun entry => (entry.1, entry.2.unplaced) := by
          rw [shownPair?, ih, shownPair?, Option.map_map, Option.map_map]
          rfl
        have hentries : (dropPlace (unplacedEntries entries)).mapM
            (shownPair? parts.unplaced room (d.andAbove above)) =
              (entries.mapM (shownPair? parts room (d.andAbove above))).map
                fun entries => dropPlace (unplacedEntries entries) := by
          rw [shown_dropPlace, unplacedEntries_eq_map, mapM_map_eq hvalue, Option.map_map]
          exact congrArg (Option.map · _) (funext fun entries => by
            rw [Function.comp_apply, unplacedEntries_eq_map])
        simp only [unplaced]
        rw [hentries, Option.map_map, Option.map_map]
        rfl
      | _ => rfl

end Shown

end Data

/-! ## Faults -/

namespace BuildFault

/-- A fault without the places in what it is about. -/
def unplaced : BuildFault → BuildFault
  | .badLine line => .badLine line.unplaced
  | .badOrigin origin => .badOrigin origin.unplaced
  | .missingField kind field => .missingField kind.unplaced field
  | .notANumber kind field value => .notANumber kind.unplaced field value.unplaced
  | .notAScalar kind field value => .notAScalar kind.unplaced field value.unplaced
  | .notAList field value => .notAList field value.unplaced
  | .notNodes value => .notNodes value.unplaced
  | .notAnExpression value => .notAnExpression value.unplaced
  | .badTarget => .badTarget
  | .badFunctionName name => .badFunctionName name.unplaced
  | .nodeWithoutKind node => .nodeWithoutKind node.unplaced
  | .unknownNode kind => .unknownNode kind.unplaced
  | .notAPattern value => .notAPattern value.unplaced
  | .patternWithoutKind pattern => .patternWithoutKind pattern.unplaced
  | .unknownPattern kind => .unknownPattern kind.unplaced
  | .tooManyDigits => .tooManyDigits
  | .integerTooLarge => .integerTooLarge
  | .tooDeep => .tooDeep

/-- What is shown of data without places is what is shown of the data, without places. -/
theorem mapShown?_unplaced {f g : Data → Option Data}
    (h : ∀ d, g d.unplaced = (f d).map Data.unplaced) (fault : BuildFault) :
    fault.unplaced.mapShown? g = (fault.mapShown? f).map unplaced := by
  cases fault with
  | notANumber kind field value | notAScalar kind field value =>
    simp only [unplaced, mapShown?, h]
    cases f kind <;> cases f value <;> rfl
  | notAList | notNodes | badTarget | tooManyDigits | integerTooLarge | tooDeep => rfl
  | _ =>
    simp only [unplaced, mapShown?, h, Option.map_map]
    rfl

/-- A fault that does not make a document invalid is about no data. -/
theorem unplaced_eq {f : BuildFault} (h : DocumentFault.kind (.building f) ≠ .invalid) :
    f.unplaced = f := by
  cases f <;> first | rfl | exact absurd rfl h

end BuildFault

theorem DocumentFault.kind_building_unplaced (f : BuildFault) :
    kind (.building f.unplaced) = kind (.building f) := by
  cases f <;> rfl

end TreeScript
