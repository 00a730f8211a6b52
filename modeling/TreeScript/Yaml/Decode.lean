import TreeScript.Document.Depths
import TreeScript.Yaml.Document
import TreeScript.Yaml.Scalar

/-!
# Reading YAML

The data that the node of a document stands for. A mapping takes the entries of
the mappings it merges first, then its own. Its keys are scalars. A node that
contains itself becomes a part of the document with a number of its own.

Collections are filled level by level, so of several faults the one nearest to
the root is reported, and of those on one level the first.
-/

namespace TreeScript.Yaml

/-- A fault with the level at which it arises. -/
structure Level where
  depth : Nat
  fault : Fault

abbrev Filled (α : Type) := Except Level α

def faultAt {α : Type} (depth : Nat) (fault : Fault) : Filled α := .error ⟨depth, fault⟩

/-- Two parts of one whole; of two faults the nearer to the root counts, and else the first. -/
def Filled.both {α β : Type} (x : Filled α) (y : Filled β) : Filled (α × β) :=
  match x, y with
  | .ok a, .ok b => .ok (a, b)
  | .error e, .ok _ => .error e
  | .ok _, .error f => .error f
  | .error e, .error f => .error (if f.depth < e.depth then f else e)

namespace Node

def tag : Node → Tag
  | scalar t _ | sequence t _ | mapping t _ => t
  | numbered _ node => node.tag
  | again _ isMapping => if isMapping then .mapping else .sequence

mutual

/-- The text of a node that must be a scalar: its own, or that of its default value. The default
value of a default value, and so on, may be the node itself. -/
def text : Node → Except Fault String
  | scalar _ text => .ok text
  | sequence _ _ => .error .malformed
  | mapping _ entries => defaultText entries
  | numbered _ node => node.text
  | again _ _ => .error .tooDeep

def defaultText : List (Node × Node) → Except Fault String
  | [] => .error .malformed
  | (key, value) :: rest => if key.tag = .default then value.text else defaultText rest

end

end Node

def mappingOf (entries : List (Data × Data)) : List (Data × Data) :=
  entries.foldl (fun acc entry => Data.insert entry.1 entry.2 acc) []

/-- The data of a node that is to be read as a scalar. -/
def scalarAt (depth : Nat) (tag : Tag) (text : Except Fault String) : Filled Data :=
  match tag, text with
  | .unknown, _ | .merge, _ | .default, _ => faultAt depth .malformed
  | _, .error fault => faultAt depth fault
  | tag, .ok text => (scalarData tag text).mapError (⟨depth, ·⟩)

/-- The data of a numbered node: its list or mapping stands in the table of parts. -/
def numberedData (id : Nat) : Data → Data
  | .list _ => .part id false
  | .mapping _ => .part id true
  | d => d

mutual

/-- The data of a node at a depth. -/
def dataAt (depth : Nat) (node : Node) : Filled Data :=
  match node with
  | .scalar tag text =>
    if tag.isCollection then faultAt (depth + 1) .malformed else scalarAt depth tag (.ok text)
  | .sequence tag items =>
    match tag with
    | .sequence => (itemsAt (depth + 1) items).map .list
    | .pairs | .orderedPairs => (pairsAt (depth + 1) items).map .list
    | .mapping | .set => faultAt (depth + 1) .malformed
    | _ => faultAt depth .malformed
  | .mapping tag entries =>
    match tag with
    | .mapping => (entriesAt (depth + 1) entries).map fun e => .mapping (mappingOf e)
    | .set => (entriesAt (depth + 1) entries).map fun e => .set ((mappingOf e).map (·.1))
    | .sequence | .pairs | .orderedPairs => faultAt (depth + 1) .malformed
    | tag => scalarAt depth tag (Node.defaultText entries)
  | .numbered id node => (dataAt depth node).map (numberedData id)
  | .again id isMapping => .ok (.part id isMapping)

def itemsAt (depth : Nat) : List Node → Filled (List Data)
  | [] => .ok []
  | node :: rest =>
    ((dataAt depth node).both (itemsAt depth rest)).map fun (item, items) => item :: items

/-- A sequence of mappings of one entry each, as pairs. -/
def pairsAt (depth : Nat) : List Node → Filled (List Data)
  | [] => .ok []
  | .mapping _ [(key, value)] :: rest | .numbered _ (.mapping _ [(key, value)]) :: rest =>
    (((dataAt depth key).both (dataAt depth value)).both (pairsAt depth rest)).map
      fun ((key, value), pairs) => .tuple [key, value] :: pairs
  | _ => faultAt depth .malformed

/-- The entries of a mapping: those that it merges, and then its own. -/
def entriesAt (depth : Nat) (entries : List (Node × Node)) : Filled (List (Data × Data)) :=
  ((mergedAt depth entries).both (ownAt depth entries)).map fun (merged, own) => merged ++ own

def ownAt (depth : Nat) : List (Node × Node) → Filled (List (Data × Data))
  | [] => .ok []
  | (key, value) :: rest =>
    if key.tag = .merge then ownAt depth rest
    else
      let name : Filled Data := match key with
        | .scalar .default text => .ok (.text text)
        | key => if key.tag.isCollection then faultAt depth .malformed else dataAt depth key
      ((name.both (dataAt depth value)).both (ownAt depth rest)).map
        fun (entry, entries) => entry :: entries

/-- The entries that a mapping merges. From a mapping that it is a part of, itself above all, it
merges nothing. -/
def mergedAt (depth : Nat) : List (Node × Node) → Filled (List (Data × Data))
  | [] => .ok []
  | (key, value) :: rest =>
    if key.tag = .merge then
      let merged := match value with
        | .mapping _ entries | .numbered _ (.mapping _ entries) => entriesAt depth entries
        | .sequence _ items | .numbered _ (.sequence _ items) => mergedItemsAt depth items
        | .again _ true => .ok []
        | _ => faultAt depth .malformed
      (merged.both (mergedAt depth rest)).map fun (entries, more) => entries ++ more
    else mergedAt depth rest

/-- The entries of a list of mappings to merge; earlier mappings win, so they come last. -/
def mergedItemsAt (depth : Nat) : List Node → Filled (List (Data × Data))
  | [] => .ok []
  | .mapping _ entries :: rest | .numbered _ (.mapping _ entries) :: rest =>
    ((entriesAt depth entries).both (mergedItemsAt depth rest)).map
      fun (entries, more) => more ++ entries
  | .again _ true :: rest => mergedItemsAt depth rest
  | _ => faultAt depth .malformed

end

mutual

/-- The numbered nodes that a node has as parts, itself included. -/
def numberedIn : Node → List (Nat × Node)
  | .scalar _ _ | .again _ _ => []
  | .sequence _ items => numberedInAll items
  | .mapping _ entries => numberedInEntries entries
  | .numbered id node => (id, node) :: numberedIn node

def numberedInAll : List Node → List (Nat × Node)
  | [] => []
  | item :: rest => numberedIn item ++ numberedInAll rest

def numberedInEntries : List (Node × Node) → List (Nat × Node)
  | [] => []
  | (key, value) :: rest => numberedIn key ++ numberedIn value ++ numberedInEntries rest

end

/-- The table of the parts of a node that contain themselves. -/
def partsOf (node : Node) : Parts :=
  (numberedIn node).filterMap fun (id, node) => (dataAt 0 node).toOption.map (id, ·)

/-- What a text holds, null if it holds no document. -/
def decode (text : String) (levels : Nat := Depths.standard.yaml) : Except Fault Document := do
  match ← documentOf levels text.toList with
  | none => return { root := .null }
  | some node =>
    let root ← (dataAt 0 node).mapError (·.fault)
    return { root, parts := partsOf node }

end TreeScript.Yaml
