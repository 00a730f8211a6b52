import TreeScript.Text.Ranges

/-!
# Blank characters

The blank characters around numbers, names in tags and whole documents: the
29 characters that Unicode counts as white space or as separators of lines,
paragraphs and records.
-/

namespace TreeScript.Text

def blanks : List (Nat × Nat) :=
  [(0x9, 0xD), (0x1C, 0x20), (0x85, 0x85), (0xA0, 0xA0), (0x1680, 0x1680), (0x2000, 0x200A),
   (0x2028, 0x2029), (0x202F, 0x202F), (0x205F, 0x205F), (0x3000, 0x3000)]

def isBlank (c : Char) : Bool := inRanges blanks c.toNat

def trimStart (s : List Char) : List Char := s.dropWhile isBlank

/-- The maximal runs of characters that are not blank. -/
def words (s : List Char) : List (List Char) :=
  (s.foldr (fun c (word, rest) =>
    if isBlank c then ([], if word.isEmpty then rest else word :: rest) else (c :: word, rest)) ([], []))
  |> fun (word, rest) => if word.isEmpty then rest else word :: rest

end TreeScript.Text
