import TreeScript.Data
import TreeScript.Decimal.Reading
import TreeScript.Text.Base64
import TreeScript.Yaml.Plain

/-!
# The data of scalars

The data that a scalar's text stands for under its tag. The text of a plain
scalar fits the tag it was given, up to a few forms without digits; the text
under an explicit tag may be anything.
-/

namespace TreeScript.Yaml

open Decimal (SignedRest takeSign)

def withoutFillers (s : List Char) : List Char := s.filter (· != '_')

def lowered (s : List Char) : List Char := s.map Char.toLower

/-! ## Integers -/

/-- The value of a digit in bases up to sixteen. -/
def digitValue? (base : Nat) (c : Char) : Option Nat :=
  (Text.hexValue? c).bind fun v => if v < base then some v else none

/-- The letter that may mark a base behind a zero. -/
def baseLetter? : Nat → Option Char
  | 2 => some 'b'
  | 8 => some 'o'
  | 16 => some 'x'
  | _ => none

def dropBaseMark (base : Nat) : List Char → List Char
  | '0' :: c :: rest => if baseLetter? base = some c.toLower then rest else '0' :: c :: rest
  | s => s

/-- An integer in a base: blanks around it, a sign, a mark of the base, and digits of any script. -/
def integerIn (base : Nat) (text : List Char) : Except Fault Int :=
  let signed := takeSign ((Decimal.stripBlanks text).map Decimal.plainDigit)
  let digits := dropBaseMark base signed.rest
  match if digits.isEmpty then none else digits.mapM (digitValue? base) with
  | none => .error (.badInteger base (String.ofList text))
  | some values =>
    if base = 10 ∧ longestInteger < values.length then .error (.longInteger values.length)
    else
      let n : Int := (values.foldl (fun n v => n * base + v) 0 : Nat)
      .ok (if signed.negative then -n else n)

/-- An integer without its sign: in the base that its first characters show, or in sixties. -/
def unsignedInteger (s : List Char) : Except Fault Int :=
  match s with
  | [] => .error .emptyNumber
  | '0' :: [] => .ok 0
  | '0' :: 'b' :: rest => integerIn 2 rest
  | '0' :: 'x' :: rest => integerIn 16 rest
  | '0' :: _ => integerIn 8 s
  | _ =>
    if s.contains ':' then do
      let digits ← (parts ':' s).mapM (integerIn 10)
      return digits.foldl (fun n d => n * 60 + d) 0
    else integerIn 10 s

def integerOf (text : List Char) : Except Fault Data := do
  let s := withoutFillers text
  if s.isEmpty then throw .emptyNumber
  let signed := takeSign s
  let n ← unsignedInteger signed.rest
  return .integer (if signed.negative then -n else n)

/-! ## Numbers -/

def floatIn (s : List Char) : Except Fault Float :=
  match Decimal.ofText? (String.ofList s) with
  | some x => .ok x
  | none => .error (.badFloat (String.ofList s))

/-- The sum of counts of ascending powers of sixty. -/
def sumOfSixties (sum : Float) (base : Nat) : List Float → Except Fault Float
  | [] => .ok sum
  | digit :: rest =>
    match Decimal.ofInteger? base with
    | some b => sumOfSixties (sum + digit * b) (base * 60) rest
    | none => .error .floatTooLarge

def unsignedFloat (s : List Char) : Except Fault Float :=
  if s = ".inf".toList then .ok (Decimal.infinity false)
  else if s = ".nan".toList then .ok Decimal.nan
  else if s.contains ':' then do
    let digits ← (parts ':' s).mapM floatIn
    sumOfSixties 0 1 digits.reverse
  else floatIn s

def floatOf (text : List Char) : Except Fault Data := do
  let s := lowered (withoutFillers text)
  if s.isEmpty then throw .emptyNumber
  let signed := takeSign s
  let x ← unsignedFloat signed.rest
  return .float (if signed.negative then -x else x) .yaml

/-! ## Dates and times -/

def isLeapYear (year : Nat) : Bool := year % 4 = 0 && (year % 100 ≠ 0 || year % 400 = 0)

def daysIn (year month : Nat) : Nat :=
  if month = 2 then (if isLeapYear year then 29 else 28)
  else if month = 4 ∨ month = 6 ∨ month = 9 ∨ month = 11 then 30
  else 31

def checkDate (d : Date) : Except Fault Unit :=
  if d.year = 0 then .error .yearZero
  else if d.month = 0 ∨ 12 < d.month then .error (.outOfRange .month)
  else if d.day = 0 ∨ daysIn d.year d.month < d.day then .error (.outOfRange .day)
  else .ok ()

def checkTime (hour minute second : Nat) : Except Fault Unit :=
  if 23 < hour then .error (.outOfRange .hour)
  else if 59 < minute then .error (.outOfRange .minute)
  else if 59 < second then .error (.outOfRange .second)
  else .ok ()

def takeNumber (s : List Char) : Nat × List Char :=
  (Decimal.natOfDigits (s.takeWhile Char.isDigit), s.dropWhile Char.isDigit)

/-- A fraction of a second in millionths, of which further digits are cut off. -/
def microseconds (digits : List Char) : Nat :=
  let kept := digits.take 6
  Decimal.natOfDigits kept * Nat.pow 10 (6 - kept.length)

/-- The distance from universal time, in seconds, that a zone of the right form gives. -/
def zoneOffset (s : List Char) : Option Int :=
  match s.dropWhile Form.isTab with
  | [] => none
  | 'Z' :: _ => some 0
  | sign :: rest =>
    let (hours, rest) := takeNumber rest
    let (minutes, _) := takeNumber (rest.drop 1)
    let seconds : Int := (hours * 3600 + minutes * 60 : Nat)
    some (if sign = '-' then -seconds else seconds)

/-- The seconds of a day. -/
def daySeconds : Nat := 86400

/-- The time of day behind a date, both of the right form. -/
def momentOf (date : Date) (s : List Char) : Except Fault Data := do
  let (hour, s) := takeNumber (s.dropWhile (!·.isDigit))
  let (minute, s) := takeNumber (s.drop 1)
  let (second, s) := takeNumber (s.drop 1)
  let (fraction, s) := match s with
    | '.' :: rest => (rest.takeWhile Char.isDigit, rest.dropWhile Char.isDigit)
    | s => ([], s)
  let offset := zoneOffset s
  if let some seconds := offset then
    if daySeconds ≤ seconds.natAbs then throw (.badOffset seconds)
  checkDate date
  checkTime hour minute second
  return .moment ⟨date, hour, minute, second, microseconds fraction, offset⟩

/-- The forms of a date and time under a tag: a date alone may have single digits, too. -/
def isTimestamp (s : List Char) : Bool :=
  Form.timestamp s
    || Form.joined '-' (Form.digits 4 4) (Form.joined '-' (Form.digits 1 2) (Form.digits 1 2)) s

def timestampOf (text : List Char) : Except Fault Data := do
  unless hasForm isTimestamp text do throw .badTime
  let (year, s) := takeNumber text
  let (month, s) := takeNumber (s.drop 1)
  let (day, s) := takeNumber (s.drop 1)
  let date : Date := ⟨year, month, day⟩
  if s.isEmpty || s = ['\n'] then
    checkDate date
    return .date date
  else momentOf date (if s.getLast? = some '\n' then s.dropLast else s)

/-! ## Other scalars -/

def booleanOf (text : List Char) : Except Fault Data :=
  match String.ofList (lowered text) with
  | "yes" | "true" | "on" => .ok (.boolean true)
  | "no" | "false" | "off" => .ok (.boolean false)
  | other => .error (.badBoolean other)

def binaryOf (text : List Char) : Except Fault Data :=
  if text.all (·.toNat < 0x80) then
    match Text.Base64.decode? text with
    | some bytes => .ok (.bytes bytes)
    | none => .error .malformed
  else .error .malformed

/-- The data of a scalar; no scalar can stand for a collection or a mark of merging. -/
def scalarData (tag : Tag) (text : String) : Except Fault Data :=
  let s := text.toList
  match tag with
  | .null => .ok .null
  | .boolean => booleanOf s
  | .integer => integerOf s
  | .float => floatOf s
  | .binary => binaryOf s
  | .timestamp => timestampOf s
  | .text => .ok (.text text)
  | _ => .error .malformed

end TreeScript.Yaml
