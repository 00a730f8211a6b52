import TreeScript.Text.DecimalDigit
import TreeScript.Text.Quoted

/-!
# Arguments

The arguments of the command: flags, a format and one document, in any order.
A long flag may be shortened as long as it stays unique, and may carry its
value behind an equals sign. Short flags may be joined in one word. Words after
a lone double hyphen are no flags.
-/

namespace TreeScript.CommandLine

inductive Flag where
  | help
  | trace
  | format
  | printResult
  deriving Repr, DecidableEq

/-- All flags by spelling. -/
def flags : List (String × Flag) :=
  [("-h", .help), ("--help", .help), ("-v", .trace), ("--format", .format),
   ("--print-result", .printResult)]

/-- The name of a flag in messages. -/
def Flag.name : Flag → String
  | help => "-h/--help"
  | trace => "-v"
  | format => "--format"
  | printResult => "--print-result"

def shortFlag? (c : Char) : Option Flag := flags.lookup (String.ofList ['-', c])

def formats : List String := ["json", "yaml"]

inductive ArgumentFault where
  | ambiguous (word : String) (candidates : List String)
  /-- A value for a flag that takes none. -/
  | ignoredValue (flag : Flag) (value : String)
  | missingValue (flag : Flag)
  | invalidFormat (value : String)
  | missingDocument
  | unrecognized (words : List String)
  deriving Repr, DecidableEq

def ArgumentFault.message : ArgumentFault → String
  | ambiguous word candidates =>
    "ambiguous option: " ++ word ++ " could match " ++ String.intercalate ", " candidates
  | ignoredValue flag value =>
    s!"argument {flag.name}: ignored explicit argument {Text.quoted value}"
  | missingValue flag => s!"argument {flag.name}: expected one argument"
  | invalidFormat value =>
    let choices := String.intercalate ", " (formats.map Text.quoted)
    s!"argument {Flag.format.name}: invalid choice: {Text.quoted value} (choose from {choices})"
  | missingDocument => "the following arguments are required: document"
  | unrecognized words => "unrecognized arguments: " ++ String.intercalate " " words

/-! ## Words -/

/-- Text in the same word as a flag: behind an equals sign, or right behind a short flag. -/
inductive Attached where
  | nothing
  | value (text : List Char)
  | joined (text : List Char)
  deriving Repr, DecidableEq

inductive WordKind where
  | operand
  | separator
  | flag (flag : Flag) (attached : Attached)
  | unknown
  deriving Repr, DecidableEq

structure Word where
  text : String
  kind : WordKind
  deriving Repr, DecidableEq

def Word.isFlag (w : Word) : Bool :=
  match w.kind with
  | .flag _ _ | .unknown => true
  | _ => false

def isDigit (c : Char) : Bool := (Text.digitValue? c).isSome

/-- Digits with at most one point, which has a digit behind it. -/
def isUnsigned (s : List Char) : Bool :=
  match s.dropWhile isDigit with
  | [] => !s.isEmpty
  | '.' :: rest => !rest.isEmpty && rest.all isDigit
  | _ => false

/-- A word like a negative number, perhaps with a line break behind it, is no flag. -/
def isNegativeNumber (s : List Char) : Bool :=
  match s with
  | '-' :: rest => isUnsigned rest || (rest.getLast? == some '\n' && isUnsigned rest.dropLast)
  | _ => false

/-- The text before the first equals sign, and the text behind it. -/
def splitValue (s : List Char) : List Char × Attached :=
  match s.dropWhile (· != '=') with
  | _ :: value => (s.takeWhile (· != '='), .value value)
  | [] => (s, .nothing)

/-- What a word that begins with a hyphen is, if no flag is spelled like it. -/
def classifyOther (s : List Char) : WordKind :=
  if isNegativeNumber s || s.contains ' ' then .operand else .unknown

/-- What a word before any separator is. -/
def classify (word : String) : Except ArgumentFault WordKind :=
  let s := word.toList
  let (name, value) := splitValue s
  match flags.lookup word, flags.lookup (String.ofList name) with
  | some flag, _ => .ok (.flag flag .nothing)
  | none, some flag => .ok (.flag flag value)
  | none, none =>
    match s with
    | '-' :: '-' :: _ =>
      match flags.filter fun entry => name.isPrefixOf entry.1.toList with
      | [] => .ok (classifyOther s)
      | [(_, flag)] => .ok (.flag flag value)
      | candidates => .error (.ambiguous word (candidates.map (·.1)))
    | '-' :: c :: rest =>
      match shortFlag? c with
      | some flag => .ok (.flag flag (.joined rest))
      | none => .ok (classifyOther s)
    | _ => .ok .operand

def words : List String → Except ArgumentFault (List Word)
  | [] => .ok []
  | "--" :: rest => .ok (Word.mk "--" .separator :: rest.map (⟨·, .operand⟩))
  | word :: rest => do
    let kind ← classify word
    return ⟨word, kind⟩ :: (← words rest)

/-! ## Options -/

structure Options where
  /-- How often tracing was asked for. -/
  traces : Nat := 0
  format : Option String := none
  printResult : Bool := false
  document : Option String := none
  /-- Words that belong to nothing. -/
  extra : List String := []

/-- Why reading the arguments ends early. -/
inductive Ending where
  | help
  | fault (fault : ArgumentFault)

/-- The flags of a word of joined short flags, and a rest that is none. -/
def joinedFlags (flag : Flag) : List Char → Except Ending (List Flag × List String)
  | [] => .ok ([flag], [])
  | c :: rest =>
    if c = '-' then .error (.fault (.ignoredValue flag (String.ofList (c :: rest))))
    else
      match shortFlag? c with
      | none => .ok ([flag], [String.ofList ('-' :: c :: rest)])
      | some next =>
        match rest with
        | '=' :: value => .error (.fault (.ignoredValue next (String.ofList value)))
        | rest => do
          let (more, extra) ← joinedFlags next rest
          return (flag :: more, extra)

/-- Sets a flag that takes no value. -/
def setFlag (o : Options) : Flag → Except Ending Options
  | .help => .error .help
  | .trace => .ok { o with traces := o.traces + 1 }
  | .printResult => .ok { o with printResult := true }
  | .format => .error (.fault (.missingValue .format))

def setFormat (o : Options) (value : String) : Except Ending Options :=
  if formats.contains value then .ok { o with format := some value }
  else .error (.fault (.invalidFormat value))

/-- Takes a flag with what is attached to it and, for the format, the word behind it. -/
def takeFlag (o : Options) (flag : Flag) (attached : Attached) (rest : List Word) :
    Except Ending (Options × List Word) :=
  match flag, attached with
  | .format, .nothing =>
    match rest with
    | ⟨value, .operand⟩ :: rest => (setFormat o value).map (·, rest)
    | _ => .error (.fault (.missingValue .format))
  | .format, .value text | .format, .joined text =>
    (setFormat o (String.ofList text)).map (·, rest)
  | flag, .nothing => (setFlag o flag).map (·, rest)
  | flag, .value text => .error (.fault (.ignoredValue flag (String.ofList text)))
  | flag, .joined text => do
    let (flags, extra) ← joinedFlags flag text
    let o ← flags.foldlM setFlag { o with extra := o.extra ++ extra }
    return (o, rest)

/-- Takes the document from the words, with a separator before or behind it. -/
def takeDocument? (o : Options) (words : List Word) : Option (Options × List Word) :=
  if o.document.isSome then none
  else
    match words with
    | ⟨text, .operand⟩ :: ⟨_, .separator⟩ :: rest => some ({ o with document := some text }, rest)
    | ⟨text, .operand⟩ :: rest => some ({ o with document := some text }, rest)
    | ⟨_, .separator⟩ :: ⟨text, .operand⟩ :: rest => some ({ o with document := some text }, rest)
    | _ => none

def addExtra (o : Options) (words : List Word) : Options :=
  { o with extra := o.extra ++ words.map (·.text) }

/-- Takes all words in order. -/
def takeWords (o : Options) : Nat → List Word → Except Ending Options
  | 0, words => .ok (addExtra o words)
  | fuel + 1, words =>
    match words with
    | [] => .ok o
    | ⟨_, .flag flag attached⟩ :: rest => do
      let (o, rest) ← takeFlag o flag attached rest
      takeWords o fuel rest
    | ⟨text, .unknown⟩ :: rest => takeWords { o with extra := o.extra ++ [text] } fuel rest
    | words =>
      match takeDocument? o words with
      | some (o, rest) => takeWords o fuel rest
      | none =>
        takeWords (addExtra o (words.takeWhile (!·.isFlag))) fuel (words.dropWhile (!·.isFlag))

/-- What the arguments ask for. -/
inductive Request where
  | help
  | run (document : String) (options : Options)
  | fault (fault : ArgumentFault)

def Request.ofArguments (arguments : List String) : Request :=
  match words arguments with
  | .error f => .fault f
  | .ok words =>
    match takeWords {} (words.length + 1) words with
    | .error .help => .help
    | .error (.fault f) => .fault f
    | .ok o =>
      match o.document with
      | none => .fault .missingDocument
      | some document => if o.extra.isEmpty then .run document o else .fault (.unrecognized o.extra)

/-! ## Texts -/

def usage : String :=
  "usage: lingua [-h] [-v] [--format \x7bjson,yaml\x7d] [--print-result] document\n"

def helpText : String :=
  usage ++ "\nLingua AST interpreter\n\npositional arguments:\n"
    ++ "  document              AST document to execute\n\noptions:\n"
    ++ "  -h, --help            show this help message and exit\n"
    ++ "  -v                    print debug tracing to stderr\n"
    ++ "  --format \x7bjson,yaml\x7d  document format (default: from suffix, then sniffed)\n"
    ++ "  --print-result        print the value of the last top-level expression\n"

def ArgumentFault.report (f : ArgumentFault) : String := usage ++ s!"lingua: error: {f.message}\n"

end TreeScript.CommandLine
