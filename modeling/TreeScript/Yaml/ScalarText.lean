import TreeScript.Text.Hex
import TreeScript.Yaml.Cursor

/-!
# The text of scalars

The three ways to write a scalar, each read into the text that it stands for:
plain, between quotes, and as a block of indented lines. Line breaks inside a
scalar are folded: a single one becomes a blank, and of several the first is
dropped. A block keeps them when it is literal.
-/

namespace TreeScript.Yaml

open Scan

/-! ## Plain scalars -/

/-- What folding makes of a first line break and the breaks after it. -/
def foldBreaks (first more : List Char) : List Char :=
  if first ≠ ['\n'] then first ++ more else if more.isEmpty then [' '] else more

/-- Whether a colon with this character after it ends a plain scalar. -/
def endsKey (inFlow : Bool) (next : Option Char) : Bool :=
  next.all fun c => isGap c || (inFlow && [',', '[', ']', '\x7b', '\x7d'].contains c)

/-- The longest run that belongs to a plain scalar and holds no gap. -/
def plainRun (inFlow : Bool) : List Char → List Char
  | [] => []
  | c :: rest =>
    if isGap c || (c == ':' && endsKey inFlow rest.head?)
      || (inFlow && [',', '?', '[', ']', '\x7b', '\x7d'].contains c) then []
    else c :: plainRun inFlow rest

/-- The line breaks among the blanks from here on, unless a document separator follows one. -/
def plainBreaks : Nat → Scan (Option (List Char))
  | 0 => return some []
  | fuel + 1 => do
    skipBlanks
    if ← at? isBreak then
      let first ← lineBreak
      if ← atAnySeparator then return none
      return (← plainBreaks fuel).map (first ++ ·)
    else return some []

/-- The gap between two runs of a plain scalar, as folded text. -/
structure PlainGap where
  text : List Char
  /-- Whether the gap held a line break. -/
  broken : Bool

def plainGap : Scan PlainGap := do
  let blanks ← span (· == ' ')
  if ← at? isBreak then
    let first ← lineBreak
    if ← atAnySeparator then return ⟨[], true⟩
    match ← plainBreaks (← budget) with
    | some more => return ⟨foldBreaks first more, true⟩
    | none => return ⟨[], true⟩
  else return ⟨blanks, false⟩

/-- The runs of a plain scalar, given the gap before the next one. A scalar
outside brackets ends before a line that is indented too little. -/
def plainRuns (inFlow : Bool) (indent : Int) (before : PlainGap) : Nat → Scan PlainGap
  | 0 => return ⟨[], before.broken⟩
  | fuel + 1 => do
    let run := plainRun inFlow (← get).rest
    if run.isEmpty then return ⟨[], before.broken⟩
    skip run.length
    let gap ← plainGap
    let ends := gap.text.isEmpty || (← peek) == some '#' || (!inFlow && (← column) < indent)
    let more ← if ends then pure ⟨[], gap.broken⟩ else plainRuns inFlow indent gap fuel
    return ⟨before.text ++ run ++ more.text, more.broken⟩

/-- A plain scalar, and whether a line break was stepped over behind it. -/
def plainScalar (inFlow : Bool) (indent : Int) : Scan PlainGap := do
  plainRuns inFlow indent ⟨[], false⟩ (← budget)

/-! ## Quoted scalars -/

/-- The character that a one-letter escape stands for. -/
def escaped? : Char → Option Char
  | '0' => some '\x00'
  | 'a' => some '\x07'
  | 'b' => some '\x08'
  | 't' | '\t' => some '\t'
  | 'n' => some '\n'
  | 'v' => some '\x0b'
  | 'f' => some '\x0c'
  | 'r' => some '\r'
  | 'e' => some '\x1b'
  | ' ' => some ' '
  | '"' => some '"'
  | '\\' => some '\\'
  | '/' => some '/'
  | 'N' => some '\x85'
  | '_' => some '\xa0'
  | 'L' => some '\u2028'
  | 'P' => some '\u2029'
  | _ => none

/-- How many hexadecimal digits follow the letter of an escape. -/
def escapeWidth? : Char → Option Nat
  | 'x' => some 2
  | 'u' => some 4
  | 'U' => some 8
  | _ => none

/-- The character of a code point; a surrogate reads as U+FFFD. -/
def charOf (code : Nat) : Scan Char :=
  if 0x80000000 ≤ code then throw .hugeCodePoint
  else if 0x110000 ≤ code then throw .badCodePoint
  else if 0xD800 ≤ code && code < 0xE000 then return '\ufffd'
  else return Char.ofNat code

def hexNumber? (digits : List Char) : Option Nat :=
  digits.foldlM (fun n c => (Text.hexValue? c).map (n * 16 + ·)) 0

/-- The line breaks from here on, with the blanks and tabs around them left
out. No document separator may stand at the start of a line. -/
def quotedBreaks : Nat → Scan (List Char)
  | 0 => return []
  | fuel + 1 => do
    if ← atAnySeparator then malformed
    let _ ← span fun c => c == ' ' || c == '\t'
    if ← at? isBreak then
      let first ← lineBreak
      return first ++ (← quotedBreaks fuel)
    else return []

/-- An escape, from the character after the backslash on. -/
def escape : Scan (List Char) := do
  match ← peek with
  | none => malformed
  | some c =>
    match escaped? c, escapeWidth? c with
    | some e, _ =>
      skip 1
      return [e]
    | none, some width =>
      skip 1
      let digits := (← get).rest.take width
      match if digits.length = width then hexNumber? digits else none with
      | none => malformed
      | some code =>
        let e ← charOf code
        skip width
        return [e]
    | none, none =>
      if isBreak c then
        let _ ← lineBreak
        quotedBreaks (← budget)
      else malformed

/-- A gap between two runs of a quoted scalar, as folded text. -/
def quotedGap : Scan (List Char) := do
  let blanks ← span fun c => c == ' ' || c == '\t'
  match ← peek with
  | none => malformed
  | some c =>
    if isBreak c then
      let first ← lineBreak
      return foldBreaks first (← quotedBreaks (← budget))
    else return blanks

/-- The text up to the closing quote. Between double quotes a backslash begins
an escape; between single quotes a quote is written twice. -/
def quotedText (double : Bool) : Nat → Scan (List Char)
  | 0 => malformed
  | fuel + 1 => do
    let quote := if double then '"' else '\''
    match (← get).rest with
    | [] => malformed
    | c :: rest =>
      if c == quote then
        if !double && rest.head? == some quote then
          skip 2
          return quote :: (← quotedText double fuel)
        else
          skip 1
          return []
      else if double && c == '\\' then
        skip 1
        let text ← escape
        return text ++ (← quotedText double fuel)
      else if isGap c then
        let text ← quotedGap
        return text ++ (← quotedText double fuel)
      else
        skip 1
        return c :: (← quotedText double fuel)

/-- A quoted scalar, from its opening quote on. -/
def quotedScalar (double : Bool) : Scan (List Char) := do
  skip 1
  quotedText double (← budget)

/-! ## Block scalars -/

/-- What becomes of the line breaks at the end of a block. -/
inductive Chomping where
  | strip
  | clip
  | keep
  deriving Repr, DecidableEq

structure BlockHeader where
  chomping : Chomping := .clip
  /-- The indentation that the header states, counted from that of the parent. -/
  indentation : Option Nat := none

def chomping? : Option Char → Option Chomping
  | some '+' => some .keep
  | some '-' => some .strip
  | _ => none

/-- An indentation digit, which is not zero. -/
def indentationDigit : Scan (Option Nat) := do
  match ← peek with
  | some c =>
    if c == '0' then malformed
    else if c.isDigit then
      skip 1
      return some (c.toNat - 48)
    else return none
  | none => return none

def chompingMark : Scan (Option Chomping) := do
  match chomping? (← peek) with
  | some mark =>
    skip 1
    return some mark
  | none => return none

/-- The header of a block: a chomping mark and an indentation digit, in any order. -/
def blockHeader : Scan BlockHeader := do
  let header ← match ← chompingMark with
    | some chomping => pure ⟨chomping, ← indentationDigit⟩
    | none =>
      match ← indentationDigit with
      | some digit => pure ⟨(← chompingMark).getD .clip, some digit⟩
      | none => pure {}
  expectEndOr fun c => c == ' ' || isBreak c
  restOfLine
  return header

/-- Steps over the blank lines at the start of a block: their breaks, and the
greatest column that blanks reach. -/
def leadingBreaks (widest : Nat) : Nat → Scan (List Char × Nat)
  | 0 => return ([], widest)
  | fuel + 1 => do
    let blanks ← span (· == ' ')
    let here ← column
    let widest := if blanks.isEmpty then widest else max widest here
    if ← at? isBreak then
      let first ← lineBreak
      let (more, widest) ← leadingBreaks widest fuel
      return (first ++ more, widest)
    else return ([], widest)

/-- Steps over blanks up to a column. -/
def skipToColumn (indent : Nat) : Scan Unit := do
  let cursor ← get
  let blanks := cursor.rest.takeWhile (· == ' ')
  skip (min blanks.length (indent - cursor.column))

/-- The line breaks of the blank lines from here on. -/
def blankLines (indent : Nat) : Nat → Scan (List Char)
  | 0 => return []
  | fuel + 1 => do
    skipToColumn indent
    if ← at? isBreak then
      let first ← lineBreak
      return first ++ (← blankLines indent fuel)
    else return []

/-- The text of the last lines of a block: what stands after the last line with content. -/
def chomp (mark : Chomping) (last more : List Char) : List Char :=
  match mark with
  | .strip => []
  | .clip => last
  | .keep => last ++ more

/-- Whether a line of a block stands here: text at exactly its indentation. -/
def atBlockLine (indent : Nat) : Scan Bool := do
  let cursor ← get
  return cursor.column == indent && !cursor.rest.isEmpty

def isInk (c : Char) : Bool := c != ' ' && c != '\t'

/-- The lines of a block, given the breaks before the next one. In a folded
block the break between two lines is folded unless one of them starts with a
blank or a tab. -/
def blockLines (folded : Bool) (mark : Chomping) (indent : Nat) (last before : List Char) :
    Nat → Scan (List Char)
  | 0 => return chomp mark last before
  | fuel + 1 => do
    if ← atBlockLine indent then
      let flush ← at? isInk
      let line ← span (!isBreak ·)
      let last ← lineBreak
      let breaks ← blankLines indent (← budget)
      let folds := folded && last == ['\n'] && flush && (← at? isInk)
      let joint :=
        if !(← atBlockLine indent) then []
        else if folds then (if breaks.isEmpty then [' '] else [])
        else last
      return before ++ line ++ joint ++ (← blockLines folded mark indent last breaks fuel)
    else return chomp mark last before

/-- A block scalar, from its indicator on, inside a collection of the given indentation. -/
def blockScalar (folded : Bool) (parent : Int) : Scan (List Char) := do
  skip 1
  let header ← blockHeader
  let least := max (parent + 1) 1
  match header.indentation with
  | some digit =>
    let indent := (least + digit - 1).toNat
    let breaks ← blankLines indent (← budget)
    blockLines folded header.chomping indent [] breaks (← budget)
  | none =>
    let (breaks, widest) ← leadingBreaks 0 (← budget)
    blockLines folded header.chomping (max least widest).toNat [] breaks (← budget)

end TreeScript.Yaml
