import TreeScript.Text.Blank

/-!
# Tags of templates

A tag stands between an opening and a closing delimiter. Directly after the
opening one may stand a sign that gives its kind. The key is the shortest text
that lets the tag close; blanks around it do not belong to it, unless the key
would be empty without them.
-/

namespace TreeScript.Template

open Text

structure Delimiters where
  opening : List Char
  closing : List Char
  deriving Repr, DecidableEq

def Delimiters.standard : Delimiters := ⟨['\x7b', '\x7b'], ['\x7d', '\x7d']⟩

inductive TagKind where
  | variable
  | comment
  | inclusion
  | opening
  | inverted
  | closing
  | delimiters
  deriving Repr, DecidableEq

/-- The kind that a sign gives to a tag. -/
def TagKind.ofSign? : Char → Option TagKind
  | '!' => some .comment
  | '>' => some .inclusion
  | '&' => some .variable
  | '/' => some .closing
  | '#' => some .opening
  | '^' => some .inverted
  | _ => none

structure Tag where
  kind : TagKind
  key : List Char
  /-- The text after the tag. -/
  rest : List Char
  deriving Repr

/-- Tries a reader behind as many blanks as possible, then behind ever fewer. -/
def behindBlanks {β : Type} (read : List Char → Option β) : List Char → Option β
  | [] => read []
  | c :: s => if isBlank c then (behindBlanks read s).orElse fun _ => read (c :: s) else read (c :: s)

/-- The shortest key of at least one allowed character behind which the tag closes. -/
def shortestKey (allowed : Char → Bool) (close : List Char → Option (List Char)) :
    List Char → Option (List Char × List Char)
  | [] => none
  | c :: s =>
    if !allowed c then none
    else match close s with
      | some rest => some ([c], rest)
      | none => (shortestKey allowed close s).map fun (key, rest) => (c :: key, rest)

namespace Delimiters

/-- The text after blanks and the closing delimiter. -/
def close (d : Delimiters) (s : List Char) : Option (List Char) :=
  let s := s.dropWhile isBlank
  if d.closing.isPrefixOf s then some (s.drop d.closing.length) else none

/-- The text after blanks, one more character and the closing delimiter. -/
def closeAfter (d : Delimiters) (mark : Char) (s : List Char) : Option (List Char) :=
  match s.dropWhile isBlank with
  | c :: rest => if c = mark then d.close rest else none
  | [] => none

/-- A key between a mark and its counterpart, on one line. -/
def markedKey (d : Delimiters) (kind : TagKind) (before after : Char) (s : List Char) : Option Tag :=
  match s with
  | c :: s =>
    if c = before then
      (behindBlanks (shortestKey (· != '\n') (d.closeAfter after)) s).map fun (key, rest) =>
        ⟨kind, key, rest⟩
    else none
  | [] => none

def plainKey (d : Delimiters) (kind : TagKind) (s : List Char) : Option Tag :=
  (behindBlanks (shortestKey (fun _ => true) d.close) s).map fun (key, rest) => ⟨kind, key, rest⟩

/-- A key behind a sign; a sign without a key is the key of a variable. -/
def signedKey (d : Delimiters) (s : List Char) : Option Tag :=
  let unsigned := d.plainKey .variable s
  match s with
  | c :: rest =>
    match TagKind.ofSign? c with
    | some kind => (d.plainKey kind rest).orElse fun _ => unsigned
    | none => unsigned
  | [] => unsigned

/-- The tag that starts here with the opening delimiter. -/
def tag? (d : Delimiters) (s : List Char) : Option Tag :=
  if d.opening.isPrefixOf s then
    behindBlanks (fun s =>
      ((d.markedKey .delimiters '=' '=' s).orElse fun _ =>
        d.markedKey .variable '\x7b' '\x7d' s).orElse fun _ => d.signedKey s)
      (s.drop d.opening.length)
  else none

end Delimiters

end TreeScript.Template
