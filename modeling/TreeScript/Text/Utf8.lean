import TreeScript.Text.Hex

/-!
# UTF-8

Reading bytes as text. A fault covers the longest run of bytes that begins a
character and cannot be completed, or else one byte. A lenient reader puts
U+FFFD in place of each fault; a strict one reports the first.
-/

namespace TreeScript.Text.Utf8

inductive Flaw where
  | badStart
  | badContinuation
  | cutShort
  deriving Repr, DecidableEq

/-- Whether a byte may follow the first byte of a character of several bytes. -/
def follows (first second : UInt8) : Bool :=
  let low := if first = 0xE0 then 0xA0 else if first = 0xF0 then 0x90 else 0x80
  let high := if first = 0xED then 0x9F else if first = 0xF4 then 0x8F else 0xBF
  low ≤ second && second ≤ high

def isTail (b : UInt8) : Bool := 0x80 ≤ b && b ≤ 0xBF

/-- How many bytes follow the first byte of a character. -/
def tailLength? (first : UInt8) : Option Nat :=
  if first < 0x80 then some 0
  else if first < 0xC2 then none
  else if first < 0xE0 then some 1
  else if first < 0xF0 then some 2
  else if first < 0xF5 then some 3
  else none

/-- The bytes after the first byte that belong to the character it begins. -/
def tailOf (first : UInt8) (length : Nat) : List UInt8 → List UInt8
  | [] => []
  | second :: rest =>
    if length = 0 ∨ !follows first second then []
    else second :: (rest.take (length - 1)).takeWhile isTail

/-- The bits that the first byte contributes. -/
def leadBits (first : UInt8) (length : Nat) : Nat :=
  match length with
  | 0 => first.toNat
  | 1 => first.toNat - 0xC0
  | 2 => first.toNat - 0xE0
  | _ => first.toNat - 0xF0

/-- One step of reading: a character or a flaw, and how many bytes after the first it takes. -/
def next (first : UInt8) (rest : List UInt8) : Except Flaw Char × Nat :=
  match tailLength? first with
  | none => (.error .badStart, 0)
  | some length =>
    let tail := tailOf first length rest
    if tail.length = length then
      (.ok (Char.ofNat (tail.foldl (fun n b => n * 64 + (b.toNat - 0x80)) (leadBits first length))),
        length)
    else if tail.length = rest.length then (.error .cutShort, tail.length)
    else (.error .badContinuation, tail.length)

/-- A stretch of the input: a character, or a flaw with the bytes it covers. -/
inductive Piece where
  | char (c : Char)
  | flaw (flaw : Flaw) (bytes : List UInt8)
  deriving Repr

def pieces : List UInt8 → List Piece
  | [] => []
  | first :: rest =>
    let (outcome, taken) := next first rest
    let piece := match outcome with
      | .ok c => Piece.char c
      | .error flaw => Piece.flaw flaw (first :: rest.take taken)
    piece :: pieces (rest.drop taken)
termination_by bytes => bytes.length
decreasing_by simp only [List.length_drop, List.length_cons]; omega

/-- Reads all bytes, with U+FFFD for each flaw. -/
def decodeLossy (bytes : List UInt8) : String :=
  String.ofList <| (pieces bytes).map fun
    | .char c => c
    | .flaw _ _ => Char.ofNat 0xFFFD

structure Fault where
  position : Nat
  bytes : List UInt8
  flaw : Flaw
  deriving Repr

def Flaw.message : Flaw → String
  | .badStart => "invalid start byte"
  | .badContinuation => "invalid continuation byte"
  | .cutShort => "unexpected end of data"

def Fault.message (f : Fault) : String :=
  let place := match f.bytes with
    | [b] => s!"byte 0x{String.ofList (hexDigits 2 b.toNat)} in position {f.position}"
    | _ => s!"bytes in position {f.position}-{f.position + f.bytes.length - 1}"
  s!"'utf-8' codec can't decode {place}: {f.flaw.message}"

/-- The text of the pieces, or the first flaw with its byte position. -/
def collect (position : Nat) (chars : List Char) : List Piece → Except Fault String
  | [] => .ok (String.ofList chars.reverse)
  | .char c :: rest => collect (position + c.utf8Size) (c :: chars) rest
  | .flaw flaw bytes :: _ => .error ⟨position, bytes, flaw⟩

def decodeStrict (bytes : List UInt8) : Except Fault String := collect 0 [] (pieces bytes)

end TreeScript.Text.Utf8
