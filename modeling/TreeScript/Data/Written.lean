import TreeScript.Data
import TreeScript.Decimal.Notation
import TreeScript.Text.Integer
import TreeScript.Text.Quoted

/-!
# Written data

How decoded data is shown inside a message: texts quoted, lists between
brackets, mappings between braces, dates as calls with their parts. Data that
holds an integer with too many digits is not shown, nor is data that is nested
too deep. A part that contains itself is shown as far as to where it recurs.
-/

namespace TreeScript

open Text

def commaSeparated (items : List String) : String := String.intercalate ", " items

def padded (width n : Nat) : String :=
  let digits := Nat.toDigits 10 n
  String.ofList (List.replicate (width - digits.length) '0' ++ digits)

def Date.iso (d : Date) : String := s!"{padded 4 d.year}-{padded 2 d.month}-{padded 2 d.day}"

def Date.written (d : Date) : String := s!"datetime.date({d.year}, {d.month}, {d.day})"

namespace Moment

/-- A distance from universal time, as signed hours, minutes and, if need be, seconds. -/
def isoOffset (seconds : Int) : String :=
  let n := seconds.natAbs
  let tail := if n % 60 = 0 then "" else s!":{padded 2 (n % 60)}"
  let sign := if seconds < 0 then "-" else "+"
  s!"{sign}{padded 2 (n / 3600)}:{padded 2 (n / 60 % 60)}{tail}"

def iso (m : Moment) : String :=
  let fraction := if m.microsecond = 0 then "" else s!".{padded 6 m.microsecond}"
  let offset := (m.offset.map isoOffset).getD ""
  s!"{m.date.iso} {padded 2 m.hour}:{padded 2 m.minute}:{padded 2 m.second}{fraction}{offset}"

/-- The zone is shown by its distance as a number of days and seconds, days counted downwards. -/
def writtenZone (seconds : Int) : String :=
  if seconds = 0 then "datetime.timezone.utc"
  else
    let span := if seconds < 0 then s!"days=-1, seconds={seconds + 86400}" else s!"seconds={seconds}"
    s!"datetime.timezone(datetime.timedelta({span}))"

def written (m : Moment) : String :=
  let seconds :=
    if m.microsecond ≠ 0 then [m.second, m.microsecond] else if m.second ≠ 0 then [m.second] else []
  let parts := [m.date.year, m.date.month, m.date.day, m.hour, m.minute] ++ seconds
  let zone := (m.offset.map fun o => s!", tzinfo={writtenZone o}").getD ""
  s!"datetime.datetime({commaSeparated (parts.map toString)}{zone})"

end Moment

namespace Data

mutual

/-- The form in which a message shows data. -/
def written : Data → String
  | .null => "None"
  | .boolean b => if b then "True" else "False"
  | .integer i => toString i
  | .float x _ => Decimal.written Decimal.general x
  | .text s => quoted s
  | .list items => "[" ++ commaSeparated (writtenItems items) ++ "]"
  | .mapping entries => "\x7b" ++ commaSeparated (writtenEntries entries) ++ "\x7d"
  | .bytes b => quotedBytes b
  | .date d => d.written
  | .moment m => m.written
  | .tuple [item] => "(" ++ written item ++ ",)"
  | .tuple items => "(" ++ commaSeparated (writtenItems items) ++ ")"
  | .set [] => "set()"
  | .set items => "\x7b" ++ commaSeparated (writtenItems items) ++ "\x7d"
  | .part _ isMapping => if isMapping then "\x7b...\x7d" else "[...]"

def writtenItems : List Data → List String
  | [] => []
  | item :: rest => written item :: writtenItems rest

def writtenEntries : List (Data × Data) → List String
  | [] => []
  | (key, value) :: rest => (written key ++ ": " ++ written value) :: writtenEntries rest

end

mutual

/-- Whether all integers in data have a written form. -/
def isWritable : Data → Bool
  | .integer i => Text.isWritable i
  | .list items | .tuple items | .set items => areWritable items
  | .mapping entries => areEntriesWritable entries
  | _ => true

def areWritable : List Data → Bool
  | [] => true
  | item :: rest => isWritable item && areWritable rest

def areEntriesWritable : List (Data × Data) → Bool
  | [] => true
  | (key, value) :: rest => isWritable key && isWritable value && areEntriesWritable rest

end

/-- Whether data is one of the parts that it stands in. -/
def recursIn (above : List Nat) : Data → Bool
  | .part id _ => above.contains id
  | _ => false

/-- The parts that stand above what data holds. -/
def andAbove (above : List Nat) : Data → List Nat
  | .part id _ => id :: above
  | _ => above

/-- Data as a message shows it, if no more than so many values are inside each other. -/
def shown? (parts : Parts) : (room : Nat) → (above : List Nat) → Data → Option Data
  | 0, _, _ => none
  | room + 1, above, d =>
    if d.recursIn above then some d
    else
      let item := shown? parts room (d.andAbove above)
      match parts.look d with
      | .list items => (items.mapM item).map .list
      | .mapping entries =>
        (entries.mapM fun entry => (item entry.2).map (entry.1, ·)).map .mapping
      | _ => some d

/-- Data as plain text: texts as they are, the rest as it is written. -/
def plainText : Data → String
  | .text s => s
  | .date d => d.iso
  | .moment m => m.iso
  | d => d.written

end Data

end TreeScript
