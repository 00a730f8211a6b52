import TreeScript.Decimal.Reading
import TreeScript.Document.Depths
import TreeScript.Document.Fault
import TreeScript.Syntax.Expr

/-!
# Building code from documents

A program document is a list of nodes. A node is a mapping with a kind under
`node`, a pattern one with a kind under `pattern`, and both may carry a line
and an origin. Null, truth values and numbers stand for themselves as
expressions; a text stands for a parameter.

Fields that hold code must be present unless the kind allows them to be absent
or null. Fields that hold text take any scalar, in its plain text.

Nodes are built on the stack of the host: one in a field takes a call more than
the node that has the field, one that may be absent two, and one in a list of
nodes three. A document that goes deeper than there is room for breaks off, and
so does one whose nodes go on for ever.
-/

namespace TreeScript

/-- Building counts the NaNs that were spelled as text, to tell them apart. -/
abbrev Build := StateT Nat (Except BuildFault)

inductive NodeKind where
  | number | string | template | boolean | null | name | assign | block | branch | loop
  | function | call | operator | unary | member | index | list | classDef
  deriving Repr, DecidableEq

def NodeKind.ofName? : String → Option NodeKind
  | "number" => some .number
  | "string" => some .string
  | "istring" => some .template
  | "boolean" => some .boolean
  | "null" => some .null
  | "name" => some .name
  | "assign" => some .assign
  | "block" => some .block
  | "if" => some .branch
  | "while" => some .loop
  | "function" => some .function
  | "call" => some .call
  | "operator" => some .operator
  | "prefix" => some .unary
  | "member" => some .member
  | "index" => some .index
  | "list" => some .list
  | "class" => some .classDef
  | _ => none

inductive PatternKind where
  | wildcard | name | literal | typed | list
  deriving Repr, DecidableEq

def PatternKind.ofName? : String → Option PatternKind
  | "wildcard" => some .wildcard
  | "name" => some .name
  | "literal" => some .literal
  | "typed" => some .typed
  | "list" => some .list
  | _ => none

namespace Build

abbrev Entries := List (Data × Data)

/-- Refuses data with a fault, if there is room to show what that is about. -/
def refuse {α : Type} (parts : Parts) (room : Nat) (fault : BuildFault) : Build α :=
  throw ((fault.mapShown? (·.shown? parts room [])).getD .tooDeep)

def freshOrigin : Build NanOrigin := do
  let serial ← get
  set (serial + 1)
  pure (.text serial)

/-- The number that bytes spell, if they are plain characters. -/
def numberOfBytes? (bytes : List UInt8) : Option Float :=
  if bytes.all (· < 0x80) then
    Decimal.ofText? (String.ofList (bytes.map fun b => Char.ofNat b.toNat))
  else none

/-- A mapping that is read, with what reading it depends on. -/
structure Site where
  origin : String
  parts : Parts
  /-- How many calls there is room for. -/
  room : Nat
  /-- The data that the entries are those of. -/
  node : Data
  entries : Entries

namespace Site

variable {α : Type} (s : Site)

def refuse (fault : BuildFault) : Build α := Build.refuse s.parts s.room fault

def kindOf (key : String) : Data := (Data.field? s.entries key).getD .null

/-- The value of a field that must be present. -/
def required (name : String) : Build Data :=
  match Data.field? s.entries name with
  | some d => pure d
  | none => s.refuse (.missingField (s.kindOf "node") name)

/-- The value of a field that may be absent or null. -/
def optional (name : String) : Option Data :=
  match Data.field? s.entries name with
  | some .null => none
  | d => d

/-- The place a node came from; a node without a line has none. -/
def location : Build (Option Loc) :=
  match Data.field? s.entries "line" with
  | none | some .null => pure none
  | some (.integer line) =>
    match Data.field? s.entries "origin" with
    | none => pure (some ⟨line, s.origin⟩)
    | some (.text origin) => pure (some ⟨line, origin⟩)
    | some other => s.refuse (.badOrigin other)
  | some other => s.refuse (.badLine other)

/-- The kind that a fault names: that of the node, or else that of the pattern. -/
def shownKind : Data :=
  let node := s.kindOf "node"
  if node.truthy then node else s.kindOf "pattern"

/-- A field that holds text: any scalar but null. -/
def text (name : String) : Build String := do
  let value ← s.required name
  match value with
  | .null | .list _ | .mapping _ | .part _ _ => s.refuse (.notAScalar s.shownKind name value)
  | value => if value.isWritable then pure value.plainText else throw .tooManyDigits

/-- A number, given as one or spelled in text. -/
def number (name : String) : Build NumberLiteral := do
  let value ← s.required name
  match value with
  | .float x origin => pure ⟨x, origin⟩
  | .integer i =>
    match Decimal.ofInteger? i with
    | some x => pure ⟨x, .json⟩
    | none => throw .integerTooLarge
  | .text spelling =>
    match Decimal.ofText? spelling with
    | some x => pure ⟨x, ← freshOrigin⟩
    | none => s.refuse (.notANumber (s.kindOf "node") name value)
  | .bytes b =>
    match numberOfBytes? b with
    | some x => pure ⟨x, ← freshOrigin⟩
    | none => s.refuse (.notANumber (s.kindOf "node") name value)
  | value => s.refuse (.notANumber (s.kindOf "node") name value)

/-- A list field, empty if absent or null; another value is refused. -/
def items (name : String) (fault : Data → BuildFault) : Build (List Data) :=
  match (s.optional name).map s.parts.look with
  | none => pure []
  | some (.list items) => pure items
  | some value => s.refuse (fault value)

/-- The name of a function: text, absent or null. -/
def functionName : Build (Option String) :=
  match Data.field? s.entries "name" with
  | none | some .null => pure none
  | some (.text name) => pure (some name)
  | some other => s.refuse (.badFunctionName other)

/-- The kind of a node or pattern, if its mapping names one that is known. -/
def kind (key : String) (ofName? : String → Option α) (absent unknown : Data → BuildFault) :
    Build α :=
  match s.kindOf key with
  | .null => s.refuse (absent s.node)
  | .text name =>
    match ofName? name with
    | some kind => pure kind
    | none => s.refuse (unknown (.text name))
  | other => s.refuse (unknown other)

end Site

mutual

/-- The expression that a node describes. The origin is that of nodes which have a line and name none. -/
def expr (origin : String) (data : Data) (parts : Parts := [])
    (room : Nat := Depths.standard.calls) : Build Expr :=
  match room with
  | 0 => throw .tooDeep
  | room + 1 =>
    match parts.look data with
    | .null => pure (.null none)
    | .boolean b => pure (.boolean none b)
    | .integer i =>
      match Decimal.ofInteger? i with
      | some x => pure (.number none ⟨x, .json⟩)
      | none => throw .integerTooLarge
    | .float x o => pure (.number none ⟨x, o⟩)
    | .mapping entries => do
      let s : Site := ⟨origin, parts, room, data, entries⟩
      let child (name : String) : Build Expr := do expr origin (← s.required name) parts room
      let children (name : String) : Build (List Expr) := do
        (← s.items name .notNodes).mapM fun d => expr origin d parts (room - 2)
      let optionalChild (name : String) : Build (Option Expr) :=
        match s.optional name with
        | some d => some <$> expr origin d parts (room - 1)
        | none => pure none
      let loc ← s.location
      match ← s.kind "node" NodeKind.ofName? .nodeWithoutKind .unknownNode with
      | .number => return .number loc (← s.number "value")
      | .string => return .string loc (← s.text "value")
      | .template => return .template loc (← s.text "template")
      | .boolean => return .boolean loc (← s.required "value").truthy
      | .null => return .null loc
      | .name => return .name loc (← s.text "name")
      | .assign =>
        let target ← child "target"
        if target.isAssignable then return .assign loc target (← child "value")
        else throw .badTarget
      | .block => return .block loc (← children "body")
      | .branch =>
        let condition ← child "condition"
        let yes ← child "then"
        return .branch loc condition yes (← optionalChild "else")
      | .loop =>
        let condition ← child "condition"
        return .loop loc condition (← child "body")
      | .function =>
        let name ← s.functionName
        let params ← s.items "params" (.notAList "params")
        let params ← params.mapM fun d => pattern origin d parts (room - 1)
        return .function loc name params (← child "body")
      | .call =>
        let callee ← child "callee"
        return .call loc callee (← children "args")
      | .operator =>
        let op ← s.text "op"
        let left ← child "left"
        return .operator loc op left (← child "right")
      | .unary =>
        let op ← s.text "op"
        return .unary loc op (← child "operand")
      | .member =>
        let target ← child "target"
        return .member loc target (← s.text "name")
      | .index =>
        let target ← child "target"
        return .index loc target (← child "index")
      | .list => return .list loc (← children "items")
      | .classDef =>
        let name ← s.text "name"
        let superclass ← optionalChild "superclass"
        return .classDef loc name superclass (← children "body")
    | _ => refuse parts room (.notAnExpression data)
termination_by room

/-- The parameter pattern that a text or a mapping describes. -/
def pattern (origin : String) (data : Data) (parts : Parts := [])
    (room : Nat := Depths.standard.calls) : Build Pattern :=
  match room with
  | 0 => throw .tooDeep
  | room + 1 =>
    match parts.look data with
    | .text name => pure (if name = "_" then .wildcard none else .name none name)
    | .mapping entries => do
      let s : Site := ⟨origin, parts, room, data, entries⟩
      let loc ← s.location
      match ← s.kind "pattern" PatternKind.ofName? .patternWithoutKind .unknownPattern with
      | .wildcard => return .wildcard loc
      | .name => return .name loc (← s.text "name")
      | .literal => return .literal loc (← expr origin (← s.required "value") parts room)
      | .typed =>
        let name ← s.text "name"
        return .typed loc name (← expr origin (← s.required "class") parts room)
      | .list =>
        let items ← s.items "items" (.notAList "items")
        return .list loc (← items.mapM fun d => pattern origin d parts (room - 1))
    | _ => refuse parts room (.notAPattern data)
termination_by room

end

/-- The program that a document describes: its nodes in order, none for null. -/
def program (origin : String) (data : Data) (parts : Parts := [])
    (room : Nat := Depths.standard.calls) : Build (List Expr) :=
  match parts.look data with
  | .null => pure []
  | .list nodes => nodes.mapM fun d => expr origin d parts (room - 1)
  | _ => do return [← expr origin data parts room]

end Build

end TreeScript
