import TreeScript.Text.Quoted

/-!
# Faults of YAML documents

A text is malformed when it breaks the rules of the format. Further faults come
from scalars that carry a tag which their text does not fit, and from data
that is nested too deep.
-/

namespace TreeScript.Yaml

/-- A part of a date or a time of day. -/
inductive TimePart where
  | month | day | hour | minute | second
  deriving Repr, DecidableEq

def TimePart.message : TimePart → String
  | .month => "month must be in 1..12"
  | .day => "day is out of range for month"
  | .hour => "hour must be in 0..23"
  | .minute => "minute must be in 0..59"
  | .second => "second must be in 0..59"

inductive Fault where
  | malformed
  | badInteger (base : Nat) (text : String)
  | longInteger (digits : Nat)
  | badFloat (text : String)
  | emptyNumber
  | floatTooLarge
  | badBoolean (text : String)
  | badTime
  | yearZero
  | outOfRange (part : TimePart)
  /-- A distance from universal time of a day or more, in seconds. -/
  | badOffset (seconds : Int)
  /-- An escape beyond the last code point. -/
  | badCodePoint
  | hugeCodePoint
  /-- The stack of the host ended before the document did. -/
  | tooDeep
  deriving Repr, DecidableEq, Inhabited

/-- The longest decimal integer that is read. -/
def longestInteger : Nat := 4300

namespace Fault

/-- A span of time as days and seconds, days counted downwards. -/
def writtenSpan (seconds : Int) : String :=
  let days := Int.fdiv seconds 86400
  let rest := Int.fmod seconds 86400
  let parts := (if days = 0 then [] else [s!"days={days}"]) ++ (if rest = 0 then [] else [s!"seconds={rest}"])
  "datetime.timedelta(" ++ String.intercalate ", " parts ++ ")"

def message : Fault → String
  | malformed => "the text breaks the rules of the format"
  | badInteger base text => s!"invalid literal for int() with base {base}: {Text.quoted text}"
  | longInteger digits =>
    s!"Exceeds the limit ({longestInteger} digits) for integer string conversion: value has " ++
      s!"{digits} digits; use sys.set_int_max_str_digits() to increase the limit"
  | badFloat text => s!"could not convert string to float: {Text.quoted text}"
  | emptyNumber => "string index out of range"
  | floatTooLarge => "int too large to convert to float"
  | badBoolean text => Text.quoted text
  | badTime => "'NoneType' object has no attribute 'groupdict'"
  | yearZero => "year 0 is out of range"
  | outOfRange part => part.message
  | badOffset seconds =>
    "offset must be a timedelta strictly between -timedelta(hours=24) and timedelta(hours=24), not "
      ++ writtenSpan seconds ++ "."
  | badCodePoint => "chr() arg not in range(0x110000)"
  | hugeCodePoint => "Python int too large to convert to C int"
  | tooDeep => "maximum recursion depth exceeded"

end Fault

end TreeScript.Yaml
