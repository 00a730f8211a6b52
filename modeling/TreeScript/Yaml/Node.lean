import TreeScript.Yaml.Token

/-!
# Nodes

The tree that a document's tokens describe: scalars, sequences and mappings,
each with a tag that says what kind of data it stands for. A node without a tag
of its own gets one from its kind, and a plain scalar from its text. An alias
is replaced by the node that its anchor names. While that is still being read,
the node contains itself: the alias stands for it by its number, and the node and
all nodes that it is inside of are numbered.
-/

namespace TreeScript.Yaml

/-- What a node stands for. -/
inductive Tag where
  | null
  | boolean
  | integer
  | float
  | binary
  | timestamp
  | orderedPairs
  | pairs
  | set
  | text
  | sequence
  | mapping
  /-- The key whose value is merged into its mapping. -/
  | merge
  /-- The key of a mapping's default value. -/
  | default
  | unknown
  deriving Repr, DecidableEq

namespace Tag

def isCollection : Tag → Bool
  | sequence | mapping | set | pairs | orderedPairs => true
  | _ => false

def ofUri (uri : String) : Tag :=
  match uri with
  | "tag:yaml.org,2002:null" => null
  | "tag:yaml.org,2002:bool" => boolean
  | "tag:yaml.org,2002:int" => integer
  | "tag:yaml.org,2002:float" => float
  | "tag:yaml.org,2002:binary" => binary
  | "tag:yaml.org,2002:timestamp" => timestamp
  | "tag:yaml.org,2002:omap" => orderedPairs
  | "tag:yaml.org,2002:pairs" => pairs
  | "tag:yaml.org,2002:set" => set
  | "tag:yaml.org,2002:str" => text
  | "tag:yaml.org,2002:seq" => sequence
  | "tag:yaml.org,2002:map" => mapping
  | "tag:yaml.org,2002:merge" => merge
  | "tag:yaml.org,2002:value" => default
  | _ => unknown

end Tag

inductive Node where
  | scalar (tag : Tag) (text : String)
  | sequence (tag : Tag) (items : List Node)
  | mapping (tag : Tag) (entries : List (Node × Node))
  /-- A node that contains itself, or a node that does. -/
  | numbered (id : Nat) (node : Node)
  /-- The alias of a numbered node that the alias is a part of. -/
  | again (id : Nat) (isMapping : Bool)

/-- Whether a node has a numbered node or an alias for one as a part. -/
def Node.hasNumbered : Node → Bool
  | .sequence _ items => items.any isNumbered
  | .mapping _ entries => entries.any fun entry => isNumbered entry.1 || isNumbered entry.2
  | _ => false
where
  isNumbered : Node → Bool
    | .numbered _ _ | .again _ _ => true
    | _ => false

/-- The node with a number, if it needs one. -/
def Node.withNumber (id : Nat) (node : Node) : Node :=
  if node.hasNumbered then .numbered id node else node

end TreeScript.Yaml
