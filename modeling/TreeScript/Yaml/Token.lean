import TreeScript.Text.Utf8
import TreeScript.Yaml.ScalarText

/-!
# Tokens

A text as a sequence of tokens. Indentation shows as tokens that open and close
block collections. A key needs no mark of its own: where a colon shows that a
token before it on the same line was a key, the mark is put in afterwards, so
the reader keeps, for each level of brackets, the place where a key may have
begun.
-/

namespace TreeScript.Yaml

open Scan

inductive Token where
  /-- The version that a document asks for, by its first part. -/
  | version (major : Nat)
  | tagHandle (handle uri : String)
  | otherDirective
  | documentStart
  | documentEnd
  | blockSequenceStart
  | blockMappingStart
  | blockEnd
  | flowSequenceStart
  | flowMappingStart
  | flowSequenceEnd
  | flowMappingEnd
  | blockEntry
  | flowEntry
  | key
  | value
  | alias (name : String)
  | anchor (name : String)
  | tag (handle : Option String) (suffix : String)
  | scalar (text : String) (plain : Bool)
  deriving Repr, DecidableEq

/-! ## Directives, names and tags -/

/-- A run of at least one character of names. -/
def word : Scan String := do
  let run ← span isWordChar
  if run.isEmpty then malformed else return String.ofList run

def isUriChar (c : Char) : Bool := c.isAlphanum || "-;/?:@&=+$,_.!~*'()[]".toList.contains c

/-- The bytes of a run of percent escapes. -/
def uriBytes : Nat → Scan (List UInt8)
  | 0 => return []
  | fuel + 1 => do
    match (← get).rest with
    | '%' :: a :: b :: _ =>
      match Text.bytesOfHex? [a, b] with
      | some bytes =>
        skip 3
        return bytes ++ (← uriBytes fuel)
      | none => malformed
    | '%' :: _ => malformed
    | _ => return []

def uriParts : Nat → Scan (List Char)
  | 0 => return []
  | fuel + 1 => do
    let run ← span isUriChar
    if (← peek) == some '%' then
      match Text.Utf8.decodeStrict (← uriBytes (← budget)) with
      | .ok text => return run ++ text.toList ++ (← uriParts fuel)
      | .error _ => malformed
    else return run

/-- A URI, which is not empty. -/
def uri : Scan String := do
  if (← at? isUriChar) || (← peek) == some '%' then return String.ofList (← uriParts (← budget))
  else malformed

/-- A tag handle: an exclamation mark, or a word between two of them. -/
def handle : Scan String := do
  unless (← peek) == some '!' do malformed
  skip 1
  if (← peek) == some ' ' then return "!"
  let name ← span isWordChar
  unless (← peek) == some '!' do malformed
  skip 1
  return String.ofList ('!' :: name ++ ['!'])

def decimal : Scan Nat := do
  let digits ← span Char.isDigit
  if digits.isEmpty then malformed
  else if longestInteger < digits.length then throw (.longInteger digits.length)
  else return digits.foldl (fun n c => n * 10 + (c.toNat - 48)) 0

def isBlankOrBreak (c : Char) : Bool := c == ' ' || isBreak c

def directive : Scan Token := do
  skip 1
  let name ← word
  expectEndOr isBlankOrBreak
  let token ← match name with
    | "YAML" => do
      skipBlanks
      let major ← decimal
      unless (← peek) == some '.' do malformed
      skip 1
      let _ ← decimal
      expectEndOr isBlankOrBreak
      pure (Token.version major)
    | "TAG" => do
      skipBlanks
      let name ← handle
      unless (← peek) == some ' ' do malformed
      skipBlanks
      let text ← uri
      expectEndOr isBlankOrBreak
      pure (Token.tagHandle name text)
    | _ => do
      let _ ← span (!isBreak ·)
      pure Token.otherDirective
  restOfLine
  return token

/-- The name of an anchor or alias, from its indicator on. -/
def anchorName : Scan String := do
  skip 1
  let name ← word
  expectEndOr fun c => isGap c || "?:,]\x7d%@`".toList.contains c
  return name

/-- Whether a tag, after its first mark, holds another one before it ends. -/
def hasHandle (rest : List Char) : Bool := (rest.takeWhile (!isBlankOrBreak ·)).contains '!'

def tag : Scan Token := do
  let after := (← get).rest.drop 1
  let token ← match after.head? with
    | some '<' => do
      skip 2
      let text ← uri
      unless (← peek) == some '>' do malformed
      skip 1
      pure (Token.tag none text)
    | next =>
      if next.all isGap then do
        skip 1
        pure (Token.tag none "!")
      else if hasHandle after then do
        let name ← handle
        pure (Token.tag (some name) (← uri))
      else do
        skip 1
        pure (Token.tag (some "!") (← uri))
  expectEndOr isBlankOrBreak
  return token

/-! ## The reader -/

/-- A place where a key may have begun. -/
structure KeyPlace where
  /-- How many tokens come before it. -/
  tokens : Nat
  /-- Whether it stands at the indentation of its collection, where nothing but a key may stand. -/
  required : Bool
  cursor : Cursor

structure Reader where
  cursor : Cursor
  tokens : Array Token := #[]
  /-- How many brackets are open. -/
  depth : Nat := 0
  /-- The column of the innermost block collection. -/
  indent : Int := -1
  /-- The columns of the collections around it. -/
  outer : List Int := []
  /-- Whether a key may begin here. -/
  keyAllowed : Bool := true
  /-- The places where a key may have begun, by number of open brackets. -/
  places : List (Nat × KeyPlace) := []

abbrev Read := StateT Reader (Except Fault)

namespace Read

def scan {α : Type} (step : Scan α) : Read α := fun r => do
  let (a, cursor) ← step r.cursor
  pure (a, { r with cursor })

def emit (token : Token) : Read Unit := modify fun r => { r with tokens := r.tokens.push token }

def allowKey (allowed : Bool) : Read Unit := modify fun r => { r with keyAllowed := allowed }

/-- Whether the cursor stands inside brackets. -/
def inFlow : Read Bool := return 0 < (← get).depth

/-- Closes the block collections that are indented beyond a column. Inside brackets indentation is free. -/
def closeTo (column : Int) : Read Unit := modify fun r =>
  if 0 < r.depth then r
  else
    let columns := r.indent :: r.outer
    let closed := columns.takeWhile (column < ·)
    match columns.drop closed.length with
    | [] => r
    | indent :: outer =>
      { r with tokens := r.tokens ++ (closed.map fun _ => Token.blockEnd).toArray, indent, outer }

/-- Opens a block collection at a column, if it is indented beyond the innermost one. -/
def openAt (column : Nat) : Read Bool := do
  let r ← get
  if r.indent < column then
    set { r with indent := column, outer := r.indent :: r.outer }
    return true
  else return false

/-- Forgets the place of a possible key at the present level of brackets. -/
def dropPlace : Read Unit := do
  let r ← get
  if (r.places.lookup r.depth).any (·.required) then throw .malformed
  set { r with places := r.places.filter (·.1 != r.depth) }

/-- Notes that a key may begin here. -/
def notePlace : Read Unit := do
  let r ← get
  if r.keyAllowed then
    dropPlace
    let place : KeyPlace :=
      ⟨r.tokens.size, r.depth == 0 && r.indent == (r.cursor.column : Int), r.cursor⟩
    modify fun r => { r with places := (r.depth, place) :: r.places }

/-- The longest distance between the start of a key and its colon. -/
def longestKey : Nat := 1024

/-- Forgets the places that are on another line or too far back. -/
def dropStale : Read Unit := do
  let r ← get
  let isStale (place : KeyPlace) : Bool :=
    place.cursor.line != r.cursor.line || longestKey < r.cursor.index - place.cursor.index
  if r.places.any fun place => isStale place.2 && place.2.required then throw .malformed
  set { r with places := r.places.filter fun place => !isStale place.2 }

/-- Steps over blanks, comments and line breaks. Outside brackets a key may begin on a new line. -/
def skipGap : Nat → Read Unit
  | 0 => return ()
  | fuel + 1 => do
    scan skipBlanks
    if (← scan peek) == some '#' then
      let _ ← scan (span (!isBreak ·))
    if ← scan (at? isBreak) then
      let _ ← scan lineBreak
      unless ← inFlow do allowKey true
      skipGap fuel

/-- A token of one character. -/
def indicator (token : Token) : Read Unit := do
  scan (skip 1)
  emit token

def documentMark (token : Token) : Read Unit := do
  closeTo (-1)
  dropPlace
  allowKey false
  scan (skip 3)
  emit token

def openBracket (token : Token) : Read Unit := do
  notePlace
  modify fun r => { r with depth := r.depth + 1 }
  allowKey true
  indicator token

def closeBracket (token : Token) : Read Unit := do
  dropPlace
  unless ← inFlow do throw .malformed
  modify fun r => { r with depth := r.depth - 1 }
  allowKey false
  indicator token

/-- Opens a block collection here, outside brackets and where a key may begin. -/
def openBlock (start : Token) : Read Unit := do
  unless ← inFlow do
    let r ← get
    unless r.keyAllowed do throw .malformed
    if ← openAt r.cursor.column then emit start

def blockEntry : Read Unit := do
  openBlock .blockSequenceStart
  allowKey true
  dropPlace
  indicator .blockEntry

def keyMark : Read Unit := do
  openBlock .blockMappingStart
  allowKey !(← inFlow)
  dropPlace
  indicator .key

/-- Puts tokens in at a place further back. -/
def insertAt (place : Nat) (tokens : List Token) : Read Unit :=
  modify fun r =>
    { r with tokens := r.tokens.extract 0 place ++ tokens.toArray ++ r.tokens.extract place r.tokens.size }

def valueMark : Read Unit := do
  let r ← get
  match r.places.lookup r.depth with
  | some place =>
    set { r with places := r.places.filter (·.1 != r.depth) }
    let opens ← if ← inFlow then pure false else openAt place.cursor.column
    insertAt place.tokens ((if opens then [Token.blockMappingStart] else []) ++ [.key])
    allowKey false
  | none =>
    openBlock .blockMappingStart
    allowKey !(← inFlow)
    dropPlace
  indicator .value

/-- A token that may begin a key and after which none may. -/
def node (step : Scan Token) : Read Unit := do
  notePlace
  allowKey false
  emit (← scan step)

def plain : Read Unit := do
  notePlace
  allowKey false
  let r ← get
  let gap ← scan (plainScalar (0 < r.depth) (r.indent + 1))
  if gap.broken then allowKey true
  emit (.scalar (String.ofList gap.text) true)

def block (folded : Bool) : Read Unit := do
  allowKey true
  dropPlace
  let r ← get
  let text ← scan (blockScalar folded r.indent)
  emit (.scalar (String.ofList text) false)

def quoted (double : Bool) : Scan Token := do
  return .scalar (String.ofList (← quotedScalar double)) false

/-- Whether a plain scalar may begin with a character, given the next one. -/
def beginsPlain (inFlow : Bool) (c : Char) (next : Option Char) : Bool :=
  let indicators := "-?:,[]\x7b\x7d#&*!|>'\"%@`".toList
  !(isGap c || indicators.contains c) ||
    (!next.all isGap && (c == '-' || (!inFlow && (c == '?' || c == ':'))))

/-- Reads the next token; false at the end of the text. -/
def next : Read Bool := do
  let r ← get
  if r.cursor.index == 0 && r.cursor.rest.head? == some '\ufeff' then scan (skip 1)
  skipGap (r.cursor.rest.length + 1)
  dropStale
  let r ← get
  closeTo r.cursor.column
  let inFlow ← inFlow
  let lineStart := r.cursor.column == 0
  match r.cursor.rest with
  | [] =>
    closeTo (-1)
    dropPlace
    return false
  | c :: rest =>
    let gapAfter := rest.head?.all isGap
    if c == '%' && lineStart then
      closeTo (-1)
      dropPlace
      allowKey false
      emit (← scan directive)
    else if c == '-' && lineStart && (← scan (atSeparator '-')) then documentMark .documentStart
    else if c == '.' && lineStart && (← scan (atSeparator '.')) then documentMark .documentEnd
    else if c == '[' then openBracket .flowSequenceStart
    else if c == '\x7b' then openBracket .flowMappingStart
    else if c == ']' then closeBracket .flowSequenceEnd
    else if c == '\x7d' then closeBracket .flowMappingEnd
    else if c == ',' then
      allowKey true
      dropPlace
      indicator .flowEntry
    else if c == '-' && gapAfter then blockEntry
    else if c == '?' && (inFlow || gapAfter) then keyMark
    else if c == ':' && (inFlow || gapAfter) then valueMark
    else if c == '*' then node do return .alias (← anchorName)
    else if c == '&' then node do return .anchor (← anchorName)
    else if c == '!' then node tag
    else if c == '|' && !inFlow then block false
    else if c == '>' && !inFlow then block true
    else if c == '\'' then node (quoted false)
    else if c == '"' then node (quoted true)
    else if beginsPlain inFlow c rest.head? then plain
    else throw .malformed
    return true

end Read

/-- The tokens of a text, and the fault at which reading them stopped, if it did. -/
structure TokenList where
  tokens : List Token
  stop : Option Fault

def tokensFrom (r : Reader) : Nat → TokenList
  | 0 => ⟨r.tokens.toList, none⟩
  | fuel + 1 =>
    match Read.next r with
    | .ok (true, r) => tokensFrom r fuel
    | .ok (false, r) => ⟨r.tokens.toList, none⟩
    | .error fault => ⟨r.tokens.toList, some fault⟩

/-- The characters that a document may hold. -/
def isAllowed (c : Char) : Bool :=
  c == '\t' || c == '\n' || c == '\r' || (' ' ≤ c && c ≤ '~') || c == '\x85'
    || ('\xa0' ≤ c && c ≤ '\ufffd') || 0x10000 ≤ c.toNat

def tokensOf (text : List Char) : TokenList :=
  if text.all isAllowed then tokensFrom { cursor := { rest := text } } (text.length + 1)
  else ⟨[], some .malformed⟩

end TreeScript.Yaml
