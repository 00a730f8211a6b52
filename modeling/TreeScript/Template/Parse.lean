import TreeScript.Template.Tag
import TreeScript.Text.Quoted

/-!
# Parsing templates

A template is text with tags. Variables are replaced by their text; sections
and inverted sections hold a part of the template; comments and changes of the
delimiters leave nothing. A tag that is not a variable and has a line for
itself takes the whole line with it: the blanks before it and the line break
behind it.

A section that is never closed swallows what stands before it: only the
innermost open part remains.
-/

namespace TreeScript.Template

inductive Node where
  | literal (text : String)
  | variable (key : String)
  | whenSet (key : String) (body : List Node)
  | whenEmpty (key : String) (body : List Node)
  | inclusion (key : String)
  deriving Inhabited

inductive ParseFault where
  /-- A closing tag that does not belong to the innermost open section; the
  position is that of the text behind the tag. -/
  | mismatch (position : Nat) (found : String) (expected : Option String)
  /-- A change of delimiters that names fewer than two. -/
  | tooFewDelimiters
  deriving Repr, DecidableEq

def ParseFault.message : ParseFault → String
  | .mismatch position found expected =>
    let tag (sign key : String) := "\x7b\x7b" ++ sign ++ key ++ "\x7d\x7d"
    let wanted := match expected with
      | some key => tag "/" key
      | none => tag "#" found
    let shown := tag "/" found
    s!"Section end tag mismatch at position {position}. Found {shown}, expected {wanted}"
  | .tooFewDelimiters => "list index out of range"

/-- The first tag of a text: the text before it, whether the blanks right
before the tag start a line, those blanks, and the tag. -/
structure Found where
  before : List Char
  startsLine : Bool
  blanks : List Char
  tag : Tag

def isLineBreak (c : Char) : Bool := c == '\r' || c == '\n'

def isPad (c : Char) : Bool := c == ' ' || c == '\t'

/-- Looks for the first tag; `atStart` tells whether the text starts a line. -/
def find (d : Delimiters) (atStart : Bool) : List Char → Option Found
  | [] => none
  | c :: s =>
    match d.tag? ((c :: s).dropWhile isPad) with
    | some tag => some ⟨[], atStart, (c :: s).takeWhile isPad, tag⟩
    | none => (find d (isLineBreak c) s).map fun f => { f with before := c :: f.before }

/-- A section under way: its kind and the key and nodes of what surrounds it. -/
structure Open where
  inverted : Bool
  outerKey : Option String
  outer : List Node

structure State where
  delimiters : Delimiters := .standard
  atStart : Bool := true
  key : Option String := none
  /-- The nodes so far, last first. -/
  nodes : List Node := []
  surrounding : List Open := []

def State.add (st : State) (node : Node) : State := { st with nodes := node :: st.nodes }

def State.addText (st : State) (text : List Char) : State :=
  if text.isEmpty then st else st.add (.literal (String.ofList text))

/-- Drops one line break: a carriage return, a line feed, or both in this order. -/
def dropLineBreak (s : List Char) : List Char :=
  let s := match s with
    | '\r' :: rest => rest
    | s => s
  match s with
  | '\n' :: rest => rest
  | s => s

def endsLine : List Char → Bool
  | [] => true
  | c :: _ => isLineBreak c

/-- Whether the text behind a tag starts a line, given what the tag and its line break took. -/
def startsAfter (taken rest : List Char) : Bool :=
  match (taken.take (taken.length - rest.length)).getLast? with
  | some c => isLineBreak c
  | none => false

/-- Takes in one tag; the length of the whole template serves to tell positions. -/
def step (length : Nat) (st : State) (found : Found) : Except ParseFault (State × List Char) := do
  let tag := found.tag
  let alone := found.startsLine && endsLine tag.rest && tag.kind != .variable
  let st := st.addText (if alone then found.before else found.before ++ found.blanks)
  let rest := if alone then dropLineBreak tag.rest else tag.rest
  let st := { st with atStart := startsAfter tag.rest rest }
  let key := String.ofList tag.key
  match tag.kind with
  | .comment => pure (st, rest)
  | .variable => pure (st.add (.variable key), rest)
  | .inclusion => pure (st.add (.inclusion key), rest)
  | .delimiters =>
    match Text.words tag.key with
    | opening :: closing :: _ => pure ({ st with delimiters := ⟨opening, closing⟩ }, rest)
    | _ => throw .tooFewDelimiters
  | .opening => pure (enter st false key, rest)
  | .inverted => pure (enter st true key, rest)
  | .closing =>
    match st.surrounding with
    | inner :: surrounding =>
      if st.key = some key then
        let body := st.nodes.reverse
        let node := if inner.inverted then Node.whenEmpty key body else Node.whenSet key body
        pure ({ st with key := inner.outerKey, nodes := node :: inner.outer, surrounding }, rest)
      else throw (.mismatch (length - rest.length) key st.key)
    | [] => throw (.mismatch (length - rest.length) key st.key)
where
  enter (st : State) (inverted : Bool) (key : String) : State :=
    { st with
      key := some key, nodes := [], surrounding := ⟨inverted, st.key, st.nodes⟩ :: st.surrounding }

/-- Takes in tag after tag. Every tag takes at least one character, so the
length of the text bounds the number of steps. -/
def run (length : Nat) : Nat → State → List Char → Except ParseFault State
  | 0, st, _ => pure st
  | fuel + 1, st, s =>
    match find st.delimiters st.atStart s with
    | none => pure (st.addText s)
    | some found => do
      let (st, rest) ← step length st found
      run length fuel st rest

def parse (template : String) : Except ParseFault (List Node) := do
  let s := template.toList
  let st ← run s.length (s.length + 1) {} s
  pure st.nodes.reverse

end TreeScript.Template
