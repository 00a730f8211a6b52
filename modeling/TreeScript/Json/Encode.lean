import TreeScript.Data.Written

/-!
# Writing JSON

Two layouts: on one line with a blank after each comma and colon, or with one
element a line, indented by two blanks a level. Only quotes, backslashes and
control characters are escaped. A whole number is written without a fraction
only where the data holds an integer.
-/

namespace TreeScript.Json

def numberNotation : Decimal.Notation where
  nan := "NaN"
  infinity := "Infinity"

/-- The letter of a short escape. -/
def escapeLetter? : Char → Option Char
  | '"' => some '"'
  | '\\' => some '\\'
  | '\n' => some 'n'
  | '\r' => some 'r'
  | '\t' => some 't'
  | '\x0c' => some 'f'
  | '\x08' => some 'b'
  | _ => none

def escapeChar (c : Char) : List Char :=
  match escapeLetter? c with
  | some letter => ['\\', letter]
  | none => if c.toNat < 0x20 then '\\' :: 'u' :: Text.hexDigits 4 c.toNat else [c]

def quote (s : String) : List Char := '"' :: s.toList.flatMap escapeChar ++ ['"']

inductive Layout where
  | oneLine
  | indented
  deriving Repr, DecidableEq

/-- What stands between an opening bracket and the first element, at the level of the elements. -/
def Layout.open : Layout → Nat → List Char
  | .oneLine, _ => []
  | .indented, level => '\n' :: List.replicate (2 * level) ' '

def Layout.between : Layout → Nat → List Char
  | .oneLine, _ => [',', ' ']
  | .indented, level => ',' :: '\n' :: List.replicate (2 * level) ' '

/-- Elements between brackets; without elements the brackets close at once. -/
def bracket (layout : Layout) (level : Nat) (opening closing : Char) (parts : List (List Char)) :
    List Char :=
  if parts.isEmpty then [opening, closing]
  else
    opening :: layout.open (level + 1) ++ (layout.between (level + 1)).intercalate parts
      ++ layout.open level ++ [closing]

mutual

def write (layout : Layout) (level : Nat) : Data → List Char
  | .null => "null".toList
  | .boolean b => (if b then "true" else "false").toList
  | .integer i => (toString i).toList
  | .float x _ => (Decimal.written numberNotation x).toList
  | .text s => quote s
  | .list items | .tuple items | .set items =>
    bracket layout level '[' ']' (writeItems layout (level + 1) items)
  | .mapping entries => bracket layout level '\x7b' '\x7d' (writeEntries layout (level + 1) entries)
  | .bytes b => quote (Text.quotedBytes b)
  | .date d => quote d.iso
  | .moment m => quote m.iso
  | .part id isMapping => quote (Data.part id isMapping).plainText

def writeItems (layout : Layout) (level : Nat) : List Data → List (List Char)
  | [] => []
  | item :: rest => write layout level item :: writeItems layout level rest

def writeEntries (layout : Layout) (level : Nat) : List (Data × Data) → List (List Char)
  | [] => []
  | (key, value) :: rest =>
    (quote key.plainText ++ [':', ' '] ++ write layout level value)
      :: writeEntries layout level rest

end

def encode (layout : Layout) (data : Data) : String := String.ofList (write layout 0 data)

end TreeScript.Json
