import TreeScript.Yaml.Plain

/-!
# Documents as nodes

The node that a sequence of tokens describes. A text holds at most one
document, perhaps with directives before it. Where a token is missing that may
be left out, an empty plain scalar stands in.
-/

namespace TreeScript.Yaml

/-- What an anchor names: a node, or while that is being read its number and kind. -/
inductive Anchored where
  | reading (id : Nat) (isMapping : Bool)
  | read (node : Node)

/-- The tokens that are left, with what has been named so far. -/
structure Pending where
  tokens : List Token
  stop : Option Fault
  anchors : List (String × Anchored) := []
  /-- The number for the next list or mapping. -/
  fresh : Nat := 0

abbrev Compose := StateT Pending (Except Fault)

/-- Where a node stands: inside brackets, in a block collection, or as a part
of a block mapping, where the items of a sequence need no indentation. -/
inductive Place where
  | flow
  | block
  | mappingPart
  deriving Repr, DecidableEq

/-- What tag handles stand for. -/
abbrev Handles := List (String × String)

def defaultHandles : Handles := [("!", "!"), ("!!", "tag:yaml.org,2002:")]

/-- What tag handles stand for where a node is read, and how many nodes may be inside each other. -/
structure Setting where
  handles : Handles
  levels : Nat

def Setting.inside (c : Setting) : Setting := { c with levels := c.levels - 1 }

namespace Compose

def malformed {α : Type} : Compose α := throw .malformed

/-- The next token, none at the end of the text. -/
def peek : Compose (Option Token) := do
  let p ← get
  match p.tokens, p.stop with
  | token :: _, _ => return some token
  | [], some fault => throw fault
  | [], none => return none

def drop : Compose Unit := modify fun p => { p with tokens := p.tokens.drop 1 }

def nextIs (tokens : List Token) : Compose Bool := return (← peek).any tokens.contains

/-- Takes the next token if it is the given one. -/
def accept (token : Token) : Compose Bool := do
  if ← nextIs [token] then
    drop
    return true
  else return false

def emptyNode : Node := .scalar .null ""

/-! ## Anchors and tags -/

def resolveAlias (name : String) : Compose Node := do
  match (← get).anchors.lookup name with
  | some (.read node) => return node
  | some (.reading id isMapping) => return .again id isMapping
  | none => malformed

/-- Names the node that is about to be read; a name can be given once. -/
def openAnchor (name : String) (id : Nat) : Compose Unit := do
  let isMapping ← nextIs [.flowMappingStart, .blockMappingStart]
  let p ← get
  if (p.anchors.lookup name).isSome then malformed
  set { p with anchors := (name, .reading id isMapping) :: p.anchors }

def closeAnchor (name : String) (node : Node) : Compose Unit :=
  modify fun p => { p with anchors := (name, .read node) :: p.anchors }

def takeNumber : Compose Nat := modifyGet fun p => (p.fresh, { p with fresh := p.fresh + 1 })

/-- A number for the list or mapping that begins here, if one does. -/
def numberHere : Compose Nat := do
  let starts : List Token :=
    [.flowSequenceStart, .flowMappingStart, .blockSequenceStart, .blockMappingStart, .blockEntry]
  if ← nextIs starts then takeNumber else return 0

def takeAnchor : Compose (Option String) := do
  match ← peek with
  | some (.anchor name) =>
    drop
    return some name
  | _ => return none

/-- The URI of the next token, if that is a tag. -/
def takeTag (handles : Handles) : Compose (Option String) := do
  match ← peek with
  | some (.tag none suffix) =>
    drop
    return some suffix
  | some (.tag (some handle) suffix) =>
    drop
    match handles.lookup handle with
    | some uri => return some (uri ++ suffix)
    | none => malformed
  | _ => return none

/-- An anchor and a tag, in any order. -/
def properties (handles : Handles) : Compose (Option String × Option String) := do
  match ← takeAnchor with
  | some name => return (some name, ← takeTag handles)
  | none =>
    match ← takeTag handles with
    | some tag => return (← takeAnchor, some tag)
    | none => return (none, none)

/-- The tag of a node, given the one of its kind. A lone mark leaves the choice open. -/
def tagOr (tag : Option String) (usual : Tag) : Tag :=
  match tag with
  | none | some "!" => usual
  | some uri => Tag.ofUri uri

def scalarNode (tag : Option String) (text : String) (plain : Bool) : Node :=
  .scalar (tagOr tag (if plain || tag.isSome then Tag.ofPlain text else .text)) text

/-! ## Collections -/

mutual

def node (c : Setting) (place : Place) : Nat → Compose Node
  | 0 => malformed
  | fuel + 1 => do
    if c.levels = 0 then throw .tooDeep
    if let some (.alias name) ← peek then
      drop
      resolveAlias name
    else
      let (anchor, tag) ← properties c.handles
      let id ← numberHere
      if let some name := anchor then openAnchor name id
      let result ← content c.inside place (anchor.isSome || tag.isSome) tag fuel
      let result := result.withNumber id
      if let some name := anchor then closeAnchor name result
      return result

/-- A node after its anchor and tag; one that has either may be empty. -/
def content (c : Setting) (place : Place) (mayBeEmpty : Bool) (tag : Option String) :
    Nat → Compose Node
  | 0 => malformed
  | fuel + 1 => do
    match ← peek with
    | some (.scalar text plain) =>
      drop
      return scalarNode tag text plain
    | some .flowSequenceStart =>
      drop
      return .sequence (tagOr tag .sequence) (← flowItems c true fuel)
    | some .flowMappingStart =>
      drop
      return .mapping (tagOr tag .mapping) (← flowEntries c true fuel)
    | next =>
      if next = some .blockEntry ∧ place = .mappingPart then
        return .sequence (tagOr tag .sequence) (← bareItems c fuel)
      else if next = some .blockSequenceStart ∧ place ≠ .flow then
        drop
        return .sequence (tagOr tag .sequence) (← blockItems c fuel)
      else if next = some .blockMappingStart ∧ place ≠ .flow then
        drop
        return .mapping (tagOr tag .mapping) (← blockEntries c fuel)
      else if mayBeEmpty then return scalarNode tag "" true
      else malformed

/-- A node that is left out where one of the given tokens follows. -/
def nodeUnless (c : Setting) (place : Place) (ends : List Token) : Nat → Compose Node
  | 0 => malformed
  | fuel + 1 => do
    if ← nextIs ends then return emptyNode else node c place fuel

/-- The value of a mapping's entry, after its mark. -/
def valueUnless (c : Setting) (place : Place) (ends : List Token) : Nat → Compose Node
  | 0 => malformed
  | fuel + 1 => do
    if ← accept .value then nodeUnless c place ends fuel else return emptyNode

def blockItems (c : Setting) : Nat → Compose (List Node)
  | 0 => malformed
  | fuel + 1 => do
    if ← accept .blockEntry then
      let item ← nodeUnless c .block [.blockEntry, .blockEnd] fuel
      return item :: (← blockItems c fuel)
    else if ← accept .blockEnd then return []
    else malformed

/-- The items of a sequence without indentation of its own, which ends where no item follows. -/
def bareItems (c : Setting) : Nat → Compose (List Node)
  | 0 => malformed
  | fuel + 1 => do
    if ← accept .blockEntry then
      let item ← nodeUnless c .block [.blockEntry, .key, .value, .blockEnd] fuel
      return item :: (← bareItems c fuel)
    else return []

def blockEntries (c : Setting) : Nat → Compose (List (Node × Node))
  | 0 => malformed
  | fuel + 1 => do
    if ← accept .key then
      let key ← nodeUnless c .mappingPart [.key, .value, .blockEnd] fuel
      let value ← valueUnless c .mappingPart [.key, .value, .blockEnd] fuel
      return (key, value) :: (← blockEntries c fuel)
    else if ← accept .blockEnd then return []
    else malformed

/-- The items of a sequence in brackets; one that begins with a key is a mapping of one entry. -/
def flowItems (c : Setting) (first : Bool) : Nat → Compose (List Node)
  | 0 => malformed
  | fuel + 1 => do
    if ← accept .flowSequenceEnd then return []
    unless first do
      unless ← accept .flowEntry do malformed
    if ← accept .key then
      let id ← takeNumber
      let key ← nodeUnless c.inside .flow [.value, .flowEntry, .flowSequenceEnd] fuel
      let value ← valueUnless c.inside .flow [.flowEntry, .flowSequenceEnd] fuel
      let pair := Node.mapping .mapping [(key, value)]
      return pair.withNumber id :: (← flowItems c false fuel)
    else if ← accept .flowSequenceEnd then return []
    else
      let item ← node c .flow fuel
      return item :: (← flowItems c false fuel)

/-- The entries of a mapping in braces; a node without a colon is a key without a value. -/
def flowEntries (c : Setting) (first : Bool) : Nat → Compose (List (Node × Node))
  | 0 => malformed
  | fuel + 1 => do
    if ← accept .flowMappingEnd then return []
    unless first do
      unless ← accept .flowEntry do malformed
    if ← accept .key then
      let key ← nodeUnless c .flow [.value, .flowEntry, .flowMappingEnd] fuel
      let value ← valueUnless c .flow [.flowEntry, .flowMappingEnd] fuel
      return (key, value) :: (← flowEntries c false fuel)
    else if ← accept .flowMappingEnd then return []
    else
      let key ← node c .flow fuel
      return (key, emptyNode) :: (← flowEntries c false fuel)

end

/-! ## Documents -/

/-- What the directives before a document say. -/
structure Preamble where
  hasVersion : Bool := false
  handles : Handles := []

/-- Reads directives. The version is that of the first generation, and is given
at most once, like the meaning of a handle. -/
def directives (seen : Preamble) : Nat → Compose Preamble
  | 0 => return seen
  | fuel + 1 => do
    match ← peek with
    | some (.version major) =>
      drop
      if seen.hasVersion || major != 1 then malformed
      directives { seen with hasVersion := true } fuel
    | some (.tagHandle handle uri) =>
      drop
      if (seen.handles.lookup handle).isSome then malformed
      directives { seen with handles := seen.handles ++ [(handle, uri)] } fuel
    | some .otherDirective =>
      drop
      directives seen fuel
    | _ => return seen

def isDirective : Token → Bool
  | .version _ | .tagHandle _ _ | .otherDirective => true
  | _ => false

/-- The root of a document with a start mark. -/
def markedRoot (levels fuel : Nat) : Compose Node := do
  let preamble ← directives {} fuel
  unless ← accept .documentStart do malformed
  match ← peek with
  | none => return emptyNode
  | some token =>
    if isDirective token || token = .documentStart || token = .documentEnd then return emptyNode
    else node ⟨preamble.handles ++ defaultHandles, levels⟩ .block fuel

def endMarks : Nat → Compose Unit
  | 0 => return ()
  | fuel + 1 => do if ← accept .documentEnd then endMarks fuel

/-- The root of the only document, if there is one. -/
def document (levels fuel : Nat) : Compose (Option Node) := do
  match ← peek with
  | none => return none
  | some token =>
    let root ←
      if isDirective token || token = .documentStart then markedRoot levels fuel
      else node ⟨defaultHandles, levels⟩ .block fuel
    endMarks fuel
    if (← peek).isSome then malformed
    return some root

end Compose

/-- The root of the document that a text holds, with collections inside each other at most so many
levels deep; a text without tokens holds none. -/
def documentOf (levels : Nat) (text : List Char) : Except Fault (Option Node) := do
  let list := tokensOf text
  let fuel := 4 * list.tokens.length + 4
  let (root, _) ← Compose.document levels fuel { tokens := list.tokens, stop := list.stop }
  return root

end TreeScript.Yaml
