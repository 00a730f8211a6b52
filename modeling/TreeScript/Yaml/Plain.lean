import TreeScript.Yaml.Node

/-!
# Plain scalars

A plain scalar stands for a truth value, a number, a date, null or a mark of
merging if its text has the form of one, and for text otherwise. One line break
after such a form does not spoil it.
-/

namespace TreeScript.Yaml

/-- The parts of a text between the occurrences of a mark. -/
def parts (mark : Char) (s : List Char) : List (List Char) :=
  s.foldr (fun c acc =>
    match acc with
    | [] => [[c]]
    | part :: rest => if c == mark then [] :: part :: rest else (c :: part) :: rest) [[]]

/-- A form of text, as a test on all of its characters. -/
abbrev Form := List Char → Bool

namespace Form

def anyOf (words : List String) : Form := fun s => words.contains (String.ofList s)

/-- A leading sign may be left out. -/
def signed (form : Form) : Form
  | '+' :: rest | '-' :: rest => form rest
  | s => form s

def isFiller (c : Char) : Bool := c.isDigit || c == '_'

/-- A number of digits between two bounds. -/
def digits (least most : Nat) : Form := fun s =>
  least ≤ s.length && s.length ≤ most && s.all Char.isDigit

/-- A digit with more digits and underscores after it. -/
def grouped : Form
  | c :: rest => c.isDigit && rest.all isFiller
  | [] => false

/-- Two forms with a mark between them, which does not occur in the first. -/
def joined (mark : Char) (left right : Form) : Form := fun s =>
  match s.dropWhile (· != mark) with
  | _ :: rest => left (s.takeWhile (· != mark)) && right rest
  | [] => false

/-- A count of sixties: one or two digits, at most 59. -/
def sixtieth : Form
  | [a] => a.isDigit
  | [a, b] => '0' ≤ a && a ≤ '5' && b.isDigit
  | _ => false

/-- Counts of sixties behind a leading count. -/
def sexagesimal (lead : Form) : Form := fun s =>
  match parts ':' s with
  | first :: rest => lead first && !rest.isEmpty && rest.all sixtieth
  | [] => false

/-- Nothing, or an exponent with a sign. -/
def exponent : Form
  | [] => true
  | e :: sign :: rest =>
    (e == 'e' || e == 'E') && (sign == '+' || sign == '-') && !rest.isEmpty && rest.all Char.isDigit
  | _ => false

/-- Digits and underscores and an optional exponent. -/
def fraction : Form := fun s => exponent (s.dropWhile isFiller)

def boolean : Form :=
  anyOf ["yes", "Yes", "YES", "no", "No", "NO", "true", "True", "TRUE", "false", "False", "FALSE",
    "on", "On", "ON", "off", "Off", "OFF"]

def null : Form := anyOf ["~", "null", "Null", "NULL", ""]

/-- A number with a point: in tens, with an exponent; in sixties; or a name of infinity or NaN. -/
def float : Form := fun s =>
  signed (joined '.' grouped fraction) s
    || (match s with | '.' :: c :: rest => c.isDigit && fraction rest | _ => false)
    || signed (joined '.' (sexagesimal grouped) fun t => t.all isFiller) s
    || signed (anyOf [".inf", ".Inf", ".INF"]) s
    || anyOf [".nan", ".NaN", ".NAN"] s

def isOctalFiller (c : Char) : Bool := ('0' ≤ c && c ≤ '7') || c == '_'

def isBinaryFiller (c : Char) : Bool := c == '0' || c == '1' || c == '_'

def isHexFiller (c : Char) : Bool := (Text.hexValue? c).isSome || c == '_'

/-- A group of digits that does not begin with zero. -/
def natural : Form := fun s => s.head? != some '0' && grouped s

def unsignedInteger : Form
  | '0' :: 'b' :: rest => !rest.isEmpty && rest.all isBinaryFiller
  | '0' :: 'x' :: rest => !rest.isEmpty && rest.all isHexFiller
  | '0' :: rest => rest.all isOctalFiller
  | s => natural s || sexagesimal natural s

def integer : Form := signed unsignedInteger

/-- A zone: universal time, or a signed distance in hours and perhaps minutes. -/
def zone : Form
  | ['Z'] => true
  | sign :: rest =>
    (sign == '+' || sign == '-') && (digits 1 2 rest || joined ':' (digits 1 2) (digits 2 2) rest)
  | [] => false

def isTab (c : Char) : Bool := c == ' ' || c == '\t'

/-- An optional zone behind optional blanks. -/
def zoneTail : Form := fun s => s.isEmpty || zone (s.dropWhile isTab)

/-- Seconds, an optional fraction, and an optional zone. -/
def seconds : Form := fun s =>
  digits 2 2 (s.take 2) &&
    match s.drop 2 with
    | '.' :: rest => zoneTail (rest.dropWhile Char.isDigit)
    | rest => zoneTail rest

def timeOfDay : Form := joined ':' (digits 1 2) (joined ':' (digits 2 2) seconds)

/-- A day, and behind a letter or blanks a time of day. -/
def dayAndTime : Form := fun s =>
  let day := s.takeWhile Char.isDigit
  digits 1 2 day &&
    match s.dropWhile Char.isDigit with
    | 'T' :: rest | 't' :: rest => timeOfDay rest
    | c :: rest => isTab c && timeOfDay (rest.dropWhile isTab)
    | [] => false

/-- A date with two digits for month and day, or a date and a time. -/
def timestamp : Form := fun s =>
  joined '-' (digits 4 4) (joined '-' (digits 2 2) (digits 2 2)) s
    || joined '-' (digits 4 4) (joined '-' (digits 1 2) dayAndTime) s

end Form

/-- A form with an optional line break after it. -/
def hasForm (form : Form) (s : List Char) : Bool :=
  form s || (s.getLast? == some '\n' && form s.dropLast)

/-- What a plain scalar stands for. -/
def Tag.ofPlain (text : String) : Tag :=
  let s := text.toList
  if s = ['\n'] then .text
  else if hasForm Form.boolean s then .boolean
  else if hasForm Form.float s then .float
  else if hasForm Form.integer s then .integer
  else if hasForm (Form.anyOf ["<<"]) s then .merge
  else if hasForm Form.null s then .null
  else if hasForm Form.timestamp s then .timestamp
  else if hasForm (Form.anyOf ["="]) s then .default
  else if hasForm (Form.anyOf ["!", "&", "*"]) s then .unknown
  else .text

end TreeScript.Yaml
