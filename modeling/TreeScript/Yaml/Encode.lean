import TreeScript.Data.Written
import TreeScript.Yaml.Plain

/-!
# Writing YAML

Lists are written as blocks, one item a line, and scalars as plainly as they
can be read back: plain, else between single quotes, else between double quotes
with escapes. Lines are folded at blanks beyond column 80. Other data than
scalars and lists is written as its plain text.
-/

namespace TreeScript.Yaml

def numberNotation : Decimal.Notation where
  nan := ".nan"
  infinity := ".inf"
  pointBeforeExponent := true

/-- The column beyond which a line is folded. -/
def lineWidth : Nat := 80

def blanks (n : Nat) : List Char := List.replicate n ' '

def newLine (indent : Nat) : List Char := '\n' :: blanks indent

/-! ## Styles -/

/-- Whether a character can stand in a text without an escape. -/
def isSimple (c : Char) : Bool := c == '\n' || (' ' ≤ c && c ≤ '~')

/-- Whether a text holds two characters next to each other. -/
def hasPair (a b : Char) (s : List Char) : Bool := (s.zip (s.drop 1)).contains (a, b)

/-- Single quotes cannot keep a blank beside a line break. -/
def fitsSingleQuotes (s : List Char) : Bool :=
  s.all isSimple && !hasPair ' ' '\n' s && !hasPair '\n' ' ' s

/-- Whether a mark after the first character would end a plain scalar: a colon
before a gap, or a number sign after one. -/
def hasInnerMark (s : List Char) : Bool :=
  hasPair ' ' '#' s || hasPair ':' ' ' s || (s.length > 1 && s.getLast? == some ':')

/-- Whether the first character, given the next one, has a meaning of its own. -/
def hasLeadingMark (s : List Char) : Bool :=
  match s with
  | [] => false
  | c :: rest =>
    "#,[]\x7b\x7d&*!|>'\"%@`".toList.contains c || (['?', ':', '-'].contains c && rest.head?.all isGap)

def startsLikeSeparator (s : List Char) : Bool :=
  "---".toList.isPrefixOf s || "...".toList.isPrefixOf s

/-- Whether a text can stand without quotes on a line of its own and still read as text. -/
def fitsPlain (s : List Char) : Bool :=
  fitsSingleQuotes s && !s.contains '\n' && s.head? != some ' ' && s.getLast? != some ' '
    && !startsLikeSeparator s && !hasLeadingMark s && !hasInnerMark s
    && Tag.ofPlain (String.ofList s) == .text

inductive Style where
  | plain
  | single
  | double
  deriving Repr, DecidableEq

def styleOf (s : List Char) : Style :=
  if fitsPlain s then .plain else if fitsSingleQuotes s then .single else .double

/-! ## Texts -/

/-- The runs of blanks, of line breaks and of other characters of a text. -/
def runs (s : List Char) : List (List Char) :=
  s.splitBy fun a b => (a == ' ') == (b == ' ') && (a == '\n') == (b == '\n')

def doubleQuotes (run : List Char) : List Char :=
  run.flatMap fun c => if c == '\'' then ['\'', '\''] else [c]

/-- The runs of a text from a column on. Beyond the line width a single blank
between two runs becomes a new line; a line break is doubled, because a single
one would be folded. -/
def writeRuns (indent : Nat) (column : Nat) (first : Bool) : List (List Char) → List Char
  | [] => []
  | run :: rest =>
    if run == [' '] && lineWidth < column && !first && !rest.isEmpty then
      newLine indent ++ writeRuns indent indent false rest
    else if run.contains '\n' then
      '\n' :: run ++ blanks indent ++ writeRuns indent indent false rest
    else run ++ writeRuns indent (column + run.length) false rest

def writePlain (indent column : Nat) (s : List Char) : List Char :=
  writeRuns indent column true (runs s)

def writeSingle (indent column : Nat) (s : List Char) : List Char :=
  '\'' :: writeRuns indent (column + 1) true ((runs s).map doubleQuotes) ++ ['\'']

/-- The letter of a short escape. -/
def escapeLetter? : Char → Option Char
  | '\x00' => some '0'
  | '\x07' => some 'a'
  | '\x08' => some 'b'
  | '\t' => some 't'
  | '\n' => some 'n'
  | '\x0b' => some 'v'
  | '\x0c' => some 'f'
  | '\r' => some 'r'
  | '\x1b' => some 'e'
  | '"' => some '"'
  | '\\' => some '\\'
  | '\x85' => some 'N'
  | '\xa0' => some '_'
  | '\u2028' => some 'L'
  | '\u2029' => some 'P'
  | _ => none

def upperHex (width n : Nat) : List Char := (Text.hexDigits width n).map Char.toUpper

/-- A character with an escape, if it needs one. -/
def escape? (c : Char) : Option (List Char) :=
  match escapeLetter? c with
  | some letter => some ['\\', letter]
  | none =>
    if ' ' ≤ c ∧ c ≤ '~' then none
    else if c.toNat < 0x100 then some ('\\' :: 'x' :: upperHex 2 c.toNat)
    else if c.toNat < 0x10000 then some ('\\' :: 'u' :: upperHex 4 c.toNat)
    else some ('\\' :: 'U' :: upperHex 8 c.toNat)

/-- A new line inside double quotes; a blank at its start needs a mark. -/
def foldMark (indent : Nat) (next : Option Char) : List Char :=
  '\\' :: newLine indent ++ (if next == some ' ' then ['\\'] else [])

/-- The characters of a text between double quotes, from a column on. Beyond
the line width the text goes on in a new line before a blank or beside an
escape, but not at its ends. -/
def writeDouble (indent column : Nat) (first afterEscape : Bool) : List Char → List Char
  | [] => []
  | c :: rest =>
    let inside := !first && !rest.isEmpty
    match escape? c with
    | some escape =>
      let column := column + escape.length
      if inside && lineWidth + 1 < column then
        let mark := foldMark indent rest.head?
        let start := if rest.head? == some ' ' then indent + 1 else indent
        escape ++ mark ++ writeDouble indent start false true rest
      else escape ++ writeDouble indent column false true rest
    | none =>
      if inside && (c == ' ' || afterEscape) && lineWidth < column then
        let start := if c == ' ' then indent + 1 else indent
        foldMark indent (some c) ++ c :: writeDouble indent (start + 1) false false rest
      else c :: writeDouble indent (column + 1) false false rest

def writeText (indent column : Nat) (s : List Char) : List Char :=
  match styleOf s with
  | .plain => writePlain indent column s
  | .single => writeSingle indent column s
  | .double => '"' :: writeDouble indent (column + 1) true true s ++ ['"']

/-! ## Data -/

/-- The text of data that is no list, and its style. -/
def scalarText : Data → List Char
  | .null => "null".toList
  | .boolean b => (if b then "true" else "false").toList
  | .integer i => (toString i).toList
  | .float x _ => (Decimal.written numberNotation x).toList
  | d => d.plainText.toList

/-- Whether data is written without quotes. -/
def isPlain : Data → Bool
  | .null | .boolean _ | .integer _ | .float _ _ => true
  | .list _ => false
  | d => styleOf d.plainText.toList = .plain

/-- A scalar from a column on. -/
def writeScalar (indent column : Nat) (d : Data) : List Char :=
  match d with
  | .null | .boolean _ | .integer _ | .float _ _ => scalarText d
  | d => writeText indent column (scalarText d)

mutual

/-- Data that begins at the indentation of its lines. -/
def writeItem (indent : Nat) : Data → List Char
  | .list [] => ['[', ']']
  | .list items => (newLine indent).intercalate (writeItems indent items)
  | d => writeScalar indent indent d

/-- The items of a block, each behind a hyphen. -/
def writeItems (indent : Nat) : List Data → List (List Char)
  | [] => []
  | item :: rest => ('-' :: ' ' :: writeItem (indent + 2) item) :: writeItems indent rest

end

/-- A whole document. A plain scalar alone is closed by an end mark. -/
def encode (d : Data) : String :=
  let text := match d with
    | .list _ => writeItem 0 d
    | d => writeScalar 2 0 d
  String.ofList (text ++ '\n' :: if isPlain d then "...\n".toList else [])

end TreeScript.Yaml
