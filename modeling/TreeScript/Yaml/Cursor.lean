import TreeScript.Yaml.Fault

/-!
# A place in a text

A cursor is the rest of a text with its place: how many characters come before
it, its line and its column. Reading steps move a cursor forward and may fail.
A carriage return with a line feed after it is one line break, a byte order
mark takes no column.
-/

namespace TreeScript.Yaml

structure Cursor where
  rest : List Char
  index : Nat := 0
  line : Nat := 0
  column : Nat := 0
  deriving Repr

def isBreak (c : Char) : Bool :=
  c == '\n' || c == '\r' || c == '\x85' || c == '\u2028' || c == '\u2029'

/-- A blank, a tab or a line break. -/
def isGap (c : Char) : Bool := c == ' ' || c == '\t' || isBreak c

/-- The characters of names: letters, digits, the hyphen and the underscore. -/
def isWordChar (c : Char) : Bool := c.isAlphanum || c == '-' || c == '_'

namespace Cursor

def step (c : Cursor) : Cursor :=
  match c.rest with
  | [] => c
  | ch :: rest =>
    let c := { c with rest, index := c.index + 1 }
    if isBreak ch && !(ch == '\r' && rest.head? == some '\n') then
      { c with line := c.line + 1, column := 0 }
    else if ch == '\ufeff' then c
    else { c with column := c.column + 1 }

def advance (c : Cursor) : Nat → Cursor
  | 0 => c
  | n + 1 => c.step.advance n

end Cursor

/-- A reading step. -/
abbrev Scan := StateT Cursor (Except Fault)

namespace Scan

def malformed {α : Type} : Scan α := throw .malformed

/-- The next character, none at the end of the text. -/
def peek : Scan (Option Char) := return (← get).rest.head?

def skip (n : Nat) : Scan Unit := modify (·.advance n)

def column : Scan Nat := return (← get).column

/-- Steps over the longest run of characters of a class. -/
def span (p : Char → Bool) : Scan (List Char) := do
  let run := (← get).rest.takeWhile p
  skip run.length
  return run

def skipBlanks : Scan Unit := do let _ ← span (· == ' ')

/-- Whether the text ends here or the next character is of a class. -/
def endOr (p : Char → Bool) : Scan Bool := return (← peek).all p

/-- Whether the text goes on with a character of a class. -/
def at? (p : Char → Bool) : Scan Bool := return (← peek).any p

/-- Refuses the text unless it ends here or goes on with a character of a class. -/
def expectEndOr (p : Char → Bool) : Scan Unit := do
  unless ← endOr p do malformed

/-- Steps over a line break, if there is one. Breaks read as a line feed, apart
from the two separators of Unicode. -/
def lineBreak : Scan (List Char) := do
  match (← get).rest with
  | '\r' :: '\n' :: _ =>
    skip 2
    return ['\n']
  | c :: _ =>
    if isBreak c then
      skip 1
      return [if c == '\u2028' || c == '\u2029' then c else '\n']
    else return []
  | [] => return []

/-- Whether a document separator stands here: three hyphens or three points and a gap. -/
def atSeparator (mark : Char) : Scan Bool := do
  match (← get).rest with
  | a :: b :: c :: rest => return [a, b, c] == [mark, mark, mark] && rest.head?.all isGap
  | _ => return false

def atAnySeparator : Scan Bool := return (← atSeparator '-') || (← atSeparator '.')

/-- Steps over the rest of a line, which may hold a comment alone, and its break. -/
def restOfLine : Scan Unit := do
  skipBlanks
  if (← peek) == some '#' then
    let _ ← span (!isBreak ·)
  expectEndOr isBreak
  let _ ← lineBreak

/-- How often a step that moves forward can be repeated from here. -/
def budget : Scan Nat := return (← get).rest.length + 1

end Scan

end TreeScript.Yaml
