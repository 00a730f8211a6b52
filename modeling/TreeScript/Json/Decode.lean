import TreeScript.Data
import TreeScript.Decimal.Reading
import TreeScript.Document.Depths
import TreeScript.Text.Hex

/-!
# Reading JSON

The reader accepts JSON and the names `NaN`, `Infinity` and `-Infinity`. A
number without fraction and exponent is an integer, of any size up to 4300
digits. In an object the last value of a repeated key wins, at the place of the
first. An escaped surrogate that has no partner reads as U+FFFD.

A fault says what was expected and where. Readers return the rest of the text,
and a fault keeps the rest at which it arose, so a position is a difference of
lengths. Arrays and objects are read on the stack of the host, so reading breaks
off where too many are inside each other.
-/

namespace TreeScript.Json

inductive Problem where
  | byteOrderMark
  | extraData
  | expectingValue
  | expectingName
  | expectingColon
  | expectingComma
  | unterminatedString
  | controlCharacter
  | badEscape
  | badUnicodeEscape
  deriving Repr, DecidableEq

def Problem.message : Problem → String
  | .byteOrderMark => "Unexpected UTF-8 BOM (decode using utf-8-sig)"
  | .extraData => "Extra data"
  | .expectingValue => "Expecting value"
  | .expectingName => "Expecting property name enclosed in double quotes"
  | .expectingColon => "Expecting ':' delimiter"
  | .expectingComma => "Expecting ',' delimiter"
  | .unterminatedString => "Unterminated string starting at"
  | .controlCharacter => "Invalid control character at"
  | .badEscape => "Invalid \\escape"
  | .badUnicodeEscape => "Invalid \\uXXXX escape"

/-- Why reading stopped: a problem at the given rest of the text, an integer too long to read, or
an array or object too deep inside others. -/
inductive Stop where
  | problem (problem : Problem) (rest : List Char)
  | longInteger (digits : Nat)
  | tooDeep
  deriving Repr, DecidableEq

def fail {α : Type} (problem : Problem) (rest : List Char) : Except Stop α :=
  .error (.problem problem rest)

def isSpace (c : Char) : Bool := c == ' ' || c == '\t' || c == '\n' || c == '\r'

def skipSpace (s : List Char) : List Char := s.dropWhile isSpace

/-! ## Strings -/

/-- The character that a one-letter escape stands for. -/
def escaped? : Char → Option Char
  | '"' => some '"'
  | '\\' => some '\\'
  | '/' => some '/'
  | 'b' => some '\x08'
  | 'f' => some '\x0c'
  | 'n' => some '\n'
  | 'r' => some '\r'
  | 't' => some '\t'
  | _ => none

def hex4? (a b c d : Char) : Option Nat := do
  let a ← Text.hexValue? a
  let b ← Text.hexValue? b
  let c ← Text.hexValue? c
  let d ← Text.hexValue? d
  pure (((a * 16 + b) * 16 + c) * 16 + d)

/-- The code units of a string after its opening quote: code points, and for
escapes the sixteen bits they give. -/
def stringUnits (opening : List Char) : List Char → Except Stop (List Nat × List Char)
  | [] => fail .unterminatedString opening
  | '"' :: rest => .ok ([], rest)
  | '\\' :: 'u' :: a :: b :: c :: d :: next :: rest =>
    match hex4? a b c d with
    | none => fail .badUnicodeEscape ('u' :: a :: b :: c :: d :: next :: rest)
    | some unit => do
      let (units, rest) ← stringUnits opening (next :: rest)
      pure (unit :: units, rest)
  | '\\' :: 'u' :: rest => fail .badUnicodeEscape ('u' :: rest)
  | ['\\'] => fail .unterminatedString opening
  | '\\' :: letter :: rest =>
    match escaped? letter with
    | none => fail .badEscape ('\\' :: letter :: rest)
    | some c => do
      let (units, rest) ← stringUnits opening rest
      pure (c.toNat :: units, rest)
  | c :: rest =>
    if c.toNat < 0x20 then fail .controlCharacter (c :: rest)
    else do
      let (units, rest) ← stringUnits opening rest
      pure (c.toNat :: units, rest)

def isHighSurrogate (unit : Nat) : Bool := 0xD800 ≤ unit && unit < 0xDC00

def isLowSurrogate (unit : Nat) : Bool := 0xDC00 ≤ unit && unit < 0xE000

/-- Joins surrogate pairs; a surrogate without a partner becomes U+FFFD. -/
def joinUnits : List Nat → List Char
  | [] => []
  | [unit] => [if isHighSurrogate unit || isLowSurrogate unit then '\ufffd' else Char.ofNat unit]
  | unit :: next :: rest =>
    if isHighSurrogate unit && isLowSurrogate next then
      Char.ofNat (0x10000 + (unit - 0xD800) * 0x400 + (next - 0xDC00)) :: joinUnits rest
    else if isHighSurrogate unit || isLowSurrogate unit then '\ufffd' :: joinUnits (next :: rest)
    else Char.ofNat unit :: joinUnits (next :: rest)

/-- A string, from the character after its opening quote on. -/
def string (opening body : List Char) : Except Stop (String × List Char) := do
  let (units, rest) ← stringUnits opening body
  pure (String.ofList (joinUnits units), rest)

/-! ## Numbers -/

def longestInteger : Nat := 4300

def integerOf (negative : Bool) (digits : List Char) : Except Stop Data :=
  if longestInteger < digits.length then .error (.longInteger digits.length)
  else
    let n : Int := Decimal.natOfDigits digits
    .ok (.integer (if negative then -n else n))

/-- The digits of the integer part: a lone zero or a run that starts with another digit. -/
def wholeDigits : List Char → List Char × List Char
  | '0' :: rest => (['0'], rest)
  | s => (s.takeWhile Char.isDigit, s.dropWhile Char.isDigit)

/-- A fraction, if a digit follows the point. -/
def fractionDigits (s : List Char) : List Char × List Char :=
  match s with
  | '.' :: rest =>
    let digits := rest.takeWhile Char.isDigit
    if digits.isEmpty then ([], s) else (digits, rest.dropWhile Char.isDigit)
  | _ => ([], s)

/-- An exponent, if a digit follows the letter and its sign. -/
def exponentPart (s : List Char) : Option Int × List Char :=
  match s with
  | c :: rest =>
    let signed := Decimal.takeSign rest
    let digits := signed.rest.takeWhile Char.isDigit
    if (c = 'e' ∨ c = 'E') ∧ !digits.isEmpty then
      let n : Int := Decimal.natOfDigits digits
      (some (if signed.negative then -n else n), signed.rest.dropWhile Char.isDigit)
    else (none, s)
  | [] => (none, s)

/-- A number after its sign; the text from the sign on is kept for the fault. -/
def unsignedNumber (negative : Bool) (start s : List Char) : Except Stop (Data × List Char) :=
  let (whole, afterWhole) := wholeDigits s
  if whole.isEmpty then fail .expectingValue start
  else
    let (fraction, afterFraction) := fractionDigits afterWhole
    let (exponent, rest) := exponentPart afterFraction
    if fraction.isEmpty && exponent.isNone then do
      let data ← integerOf negative whole
      pure (data, rest)
    else
      let value := Decimal.ofDecimal negative (Decimal.natOfDigits (whole ++ fraction))
        (exponent.getD 0 - fraction.length)
      .ok (.float value .json, rest)

def number (s : List Char) : Except Stop (Data × List Char) :=
  match s with
  | '-' :: rest => unsignedNumber true s rest
  | _ => unsignedNumber false s s

/-! ## Values -/

/-- The words that stand for a value. -/
def names : List (List Char × Data) :=
  [("null".toList, .null), ("true".toList, .boolean true), ("false".toList, .boolean false),
   ("NaN".toList, .float Decimal.nan .json),
   ("Infinity".toList, .float (Decimal.infinity false) .json),
   ("-Infinity".toList, .float (Decimal.infinity true) .json)]

def named? (s : List Char) : Option (Data × List Char) :=
  (names.find? fun name => name.1.isPrefixOf s).map fun name => (name.2, s.drop name.1.length)

/-- The elements of an array after its opening bracket and blanks, given a reader for one value. -/
def elements (value : List Char → Except Stop (Data × List Char)) :
    Nat → List Char → Except Stop (List Data × List Char)
  | 0, s => fail .expectingValue s
  | fuel + 1, s => do
    let (item, rest) ← value s
    let rest := skipSpace rest
    match rest with
    | ']' :: rest => pure ([item], rest)
    | ',' :: rest =>
      let (items, rest) ← elements value fuel (skipSpace rest)
      pure (item :: items, rest)
    | _ => fail .expectingComma rest

/-- The members of an object after its opening brace and blanks, first to last. -/
def members (value : List Char → Except Stop (Data × List Char)) :
    Nat → List Char → Except Stop (List (Data × Data) × List Char)
  | 0, s => fail .expectingName s
  | fuel + 1, s =>
    match s with
    | '"' :: body => do
      let (name, rest) ← string s body
      let rest := skipSpace rest
      match rest with
      | ':' :: rest =>
        let (item, rest) ← value (skipSpace rest)
        let rest := skipSpace rest
        match rest with
        | '\x7d' :: rest => pure ([(.text name, item)], rest)
        | ',' :: rest =>
          let (entries, rest) ← members value fuel (skipSpace rest)
          pure ((.text name, item) :: entries, rest)
        | _ => fail .expectingComma rest
      | _ => fail .expectingColon rest
    | _ => fail .expectingName s

/-- The mapping that a sequence of members writes. -/
def mappingOf (entries : List (Data × Data)) : Data :=
  .mapping (entries.foldl (fun acc entry => Data.insert entry.1 entry.2 acc) [])

/-- An array after its opening bracket, given a reader for one value. -/
def array (value : List Char → Except Stop (Data × List Char)) (s : List Char) :
    Except Stop (Data × List Char) :=
  match skipSpace s with
  | ']' :: rest => .ok (.list [], rest)
  | rest => do
    let (items, rest) ← elements value (rest.length + 1) rest
    pure (.list items, rest)

/-- An object after its opening brace, given a reader for one value. -/
def object (value : List Char → Except Stop (Data × List Char)) (s : List Char) :
    Except Stop (Data × List Char) :=
  match skipSpace s with
  | '\x7d' :: rest => .ok (.mapping [], rest)
  | rest => do
    let (entries, rest) ← members value (rest.length + 1) rest
    pure (mappingOf entries, rest)

/-- A value that is no array and no object. -/
def scalar (s : List Char) : Except Stop (Data × List Char) :=
  match s with
  | '"' :: body => do
    let (text, rest) ← string s body
    pure (.text text, rest)
  | _ =>
    match named? s with
    | some found => .ok found
    | none => number s

/-- A value, with at most so many arrays and objects inside each other. -/
def value : Nat → List Char → Except Stop (Data × List Char)
  | 0, '[' :: _ | 0, '\x7b' :: _ => .error .tooDeep
  | nesting + 1, '[' :: rest => array (value nesting) rest
  | nesting + 1, '\x7b' :: rest => object (value nesting) rest
  | _, s => scalar s

/-- A whole document: one value with blanks around it. -/
def document (nesting : Nat) (s : List Char) : Except Stop Data :=
  match s with
  | '\ufeff' :: _ => fail .byteOrderMark s
  | _ => do
    let (data, rest) ← value nesting (skipSpace s)
    let rest := skipSpace rest
    if rest.isEmpty then pure data else fail .extraData rest

/-! ## Faults with their places -/

/-- Why a text is not read: a problem at a character position, an integer too long to read, or too
many arrays and objects inside each other. -/
inductive Fault where
  | problem (problem : Problem) (line column position : Nat)
  | longInteger (digits : Nat)
  | tooDeep
  deriving Repr, DecidableEq

/-- Line and column, counted from one, of the end of a text. -/
def endOf (before : List Char) : Nat × Nat :=
  (before.count '\n' + 1, (before.reverse.takeWhile (· != '\n')).length + 1)

def Stop.locate (text : List Char) : Stop → Fault
  | .problem p rest =>
    let position := text.length - rest.length
    let (line, column) := endOf (text.take position)
    .problem p line column position
  | .longInteger digits => .longInteger digits
  | .tooDeep => .tooDeep

def Fault.message : Fault → String
  | .problem p line column position =>
    s!"{p.message}: line {line} column {column} (char {position})"
  | .longInteger digits =>
    s!"Exceeds the limit ({longestInteger} digits) for integer string conversion: value has " ++
      s!"{digits} digits; use sys.set_int_max_str_digits() to increase the limit"
  | .tooDeep => "maximum recursion depth exceeded"

def decode (text : String) (nesting : Nat := Depths.standard.json) : Except Fault Data :=
  (document nesting text.toList).mapError (Stop.locate text.toList)

end TreeScript.Json
