import TreeScript.Document.Build

/-!
# The grammar of documents

What a program document may look like, said of data without building anything.
A node is a scalar that stands for itself, or a mapping with a valid place, a
kind, and the fields of that kind; each field has a rule for what it holds. A
parameter is a text, or likewise a mapping with a kind of its own. Mappings may
have other fields too, which nothing looks at.

The parts of a document are looked up where they stand. What contains itself may
have a place in fields that nothing looks at, but no node has itself as a part.
-/

namespace TreeScript

/-! ## Keywords of kinds -/

namespace NodeKind

def keyword : NodeKind → String
  | number => "number"
  | string => "string"
  | template => "istring"
  | boolean => "boolean"
  | null => "null"
  | name => "name"
  | assign => "assign"
  | block => "block"
  | branch => "if"
  | loop => "while"
  | function => "function"
  | call => "call"
  | operator => "operator"
  | unary => "prefix"
  | member => "member"
  | index => "index"
  | list => "list"
  | classDef => "class"

theorem ofName?_eq_some_iff (s : String) (k : NodeKind) : ofName? s = some k ↔ s = k.keyword := by
  constructor
  · intro h
    unfold ofName? at h
    split at h <;> cases h <;> rfl
  · rintro rfl
    cases k <;> rfl

end NodeKind

namespace PatternKind

def keyword : PatternKind → String
  | wildcard => "wildcard"
  | name => "name"
  | literal => "literal"
  | typed => "typed"
  | list => "list"

theorem ofName?_eq_some_iff (s : String) (k : PatternKind) : ofName? s = some k ↔ s = k.keyword := by
  constructor
  · intro h
    unfold ofName? at h
    split at h <;> cases h <;> rfl
  · rintro rfl
    cases k <;> rfl

end PatternKind

/-! ## Fields -/

/-- What a field of a node or parameter holds. The first five must be present, the others may be
absent or null. -/
inductive FieldRule where
  | number
  | text
  | anything
  | node
  /-- A node for a name or a member. -/
  | target
  | optionalNode
  | nodes
  | optionalName
  | parameters
  deriving Repr, DecidableEq

/-- The fields of a kind of node, each with its rule. -/
def NodeKind.fields : NodeKind → List (String × FieldRule)
  | number => [("value", .number)]
  | string => [("value", .text)]
  | template => [("template", .text)]
  | boolean => [("value", .anything)]
  | null => []
  | name => [("name", .text)]
  | assign => [("target", .target), ("value", .node)]
  | block => [("body", .nodes)]
  | branch => [("condition", .node), ("then", .node), ("else", .optionalNode)]
  | loop => [("condition", .node), ("body", .node)]
  | function => [("name", .optionalName), ("params", .parameters), ("body", .node)]
  | call => [("callee", .node), ("args", .nodes)]
  | operator => [("op", .text), ("left", .node), ("right", .node)]
  | unary => [("op", .text), ("operand", .node)]
  | member => [("target", .node), ("name", .text)]
  | index => [("target", .node), ("index", .node)]
  | list => [("items", .nodes)]
  | classDef => [("name", .text), ("superclass", .optionalNode), ("body", .nodes)]

/-- The fields of a kind of parameter, each with its rule. -/
def PatternKind.fields : PatternKind → List (String × FieldRule)
  | wildcard => []
  | name => [("name", .text)]
  | literal => [("value", .node)]
  | typed => [("name", .text), ("class", .node)]
  | list => [("items", .parameters)]

namespace Data

/-- A number, or a text or bytes that spell one. -/
def SpellsNumber : Data → Prop
  | .float _ _ | .integer _ => True
  | .text s => (Decimal.ofText? s).isSome
  | .bytes b => (Build.numberOfBytes? b).isSome
  | _ => False

/-- Data that is taken as text: all but null, lists and mappings. -/
def IsTextual : Data → Prop
  | .null | .list _ | .mapping _ | .part _ _ => False
  | _ => True

/-- Data that stands for itself as code. -/
def IsLiteral : Data → Prop
  | .null | .boolean _ | .integer _ | .float _ _ => True
  | _ => False

/-- The mapping gives no line, or an integer, and then no origin or a text. -/
def GivesPlace (entries : List (Data × Data)) : Prop :=
  match field? entries "line" with
  | none | some .null => True
  | some (.integer _) =>
    match field? entries "origin" with
    | none | some (.text _) => True
    | some _ => False
  | some _ => False

section Grammar

variable (parts : Parts)

/-- A field that is absent or null, or else a list with a property of each item. -/
def ListsOnly (P : Data → Prop) : Option Data → Prop
  | none | some .null => True
  | some d => ∃ items, parts.look d = .list items ∧ ∀ e ∈ items, P e

/-- A mapping that is a name or a member by its kind. -/
def IsTarget (d : Data) : Prop :=
  ∃ entries, parts.look d = .mapping entries ∧
    ∃ kind ∈ [NodeKind.name, NodeKind.member], field? entries "node" = some (.text kind.keyword)

/-! ## Nodes -/

mutual

/-- Data that describes an expression. -/
inductive IsNode : Data → Prop
  | literal {d : Data} (hd : (parts.look d).IsLiteral) : IsNode d
  | mapping {d : Data} {entries : List (Data × Data)} (hd : parts.look d = .mapping entries)
    (kind : NodeKind) (hplace : GivesPlace entries)
    (hkind : field? entries "node" = some (.text kind.keyword))
    (hfields : ∀ f ∈ kind.fields, Admits f.2 (field? entries f.1)) : IsNode d

/-- Data that describes a parameter. -/
inductive IsParameter : Data → Prop
  | text {d : Data} {name : String} (hd : parts.look d = .text name) : IsParameter d
  | mapping {d : Data} {entries : List (Data × Data)} (hd : parts.look d = .mapping entries)
    (kind : PatternKind) (hplace : GivesPlace entries)
    (hkind : field? entries "pattern" = some (.text kind.keyword))
    (hfields : ∀ f ∈ kind.fields, Admits f.2 (field? entries f.1)) : IsParameter d

/-- What a field of a rule may hold, or that it may be absent. -/
inductive Admits : FieldRule → Option Data → Prop
  | number {d : Data} (h : d.SpellsNumber) : Admits .number (some d)
  | text {d : Data} (h : d.IsTextual) : Admits .text (some d)
  | anything (d : Data) : Admits .anything (some d)
  | node {d : Data} (h : IsNode d) : Admits .node (some d)
  | target {d : Data} (h : IsNode d) (htarget : d.IsTarget parts) : Admits .target (some d)
  | noNode : Admits .optionalNode none
  | optionalNode {d : Data} (h : IsNode d) : Admits .optionalNode (some d)
  | noNodes : Admits .nodes none
  | nullNodes : Admits .nodes (some .null)
  | nodes {d : Data} {items : List Data} (hd : parts.look d = .list items)
    (h : ∀ e ∈ items, IsNode e) : Admits .nodes (some d)
  | noName : Admits .optionalName none
  | nullName : Admits .optionalName (some .null)
  | optionalName (name : String) : Admits .optionalName (some (.text name))
  | noParameters : Admits .parameters none
  | nullParameters : Admits .parameters (some .null)
  | parameters {d : Data} {items : List Data} (hd : parts.look d = .list items)
    (h : ∀ e ∈ items, IsParameter e) : Admits .parameters (some d)

end

/-- Data that describes a program: null, a list of nodes, or one node. -/
inductive IsProgram : Data → Prop
  | nodes {d : Data} {items : List Data} (hd : parts.look d = .list items)
    (h : ∀ e ∈ items, IsNode parts e) : IsProgram d
  | node {d : Data} (h : IsNode parts d) : IsProgram d

end Grammar

section Admits

variable {parts : Parts} {d : Data} {field : Option Data}

section Lists

variable {P : Data → Prop} {items : List Data}

theorem ListsOnly.list (h : ListsOnly parts P (some d)) (hd : d ≠ .null) :
    ∃ items, parts.look d = .list items ∧ ∀ e ∈ items, P e := by
  unfold ListsOnly at h
  split at h
  · contradiction
  · next heq => exact absurd (Option.some.inj heq) hd
  · next heq => exact Option.some.inj heq ▸ h

theorem listsOnly_list_iff (hd : parts.look d = .list items) :
    ListsOnly parts P (some d) ↔ ∀ e ∈ items, P e := by
  have hne : d ≠ .null := by
    rintro rfl
    cases hd
  constructor
  · intro h
    obtain ⟨items', hd', hitems⟩ := h.list hne
    exact Data.list.inj (hd.symm.trans hd') ▸ hitems
  · intro h
    unfold ListsOnly
    split
    · exact trivial
    · exact trivial
    · next heq => exact Option.some.inj heq ▸ ⟨items, hd, h⟩

end Lists

theorem admits_number_iff : Admits parts .number (some d) ↔ d.SpellsNumber :=
  ⟨fun h => by cases h; assumption, .number⟩

theorem admits_text_iff : Admits parts .text (some d) ↔ d.IsTextual :=
  ⟨fun h => by cases h; assumption, .text⟩

theorem admits_node_iff : Admits parts .node (some d) ↔ d.IsNode parts :=
  ⟨fun h => by cases h; assumption, .node⟩

theorem admits_optionalNode_iff : Admits parts .optionalNode (some d) ↔ d.IsNode parts :=
  ⟨fun h => by cases h; assumption, .optionalNode⟩

/-- A target is a node with one thing more. -/
theorem admits_target_iff : Admits parts .target field ↔
    Admits parts .node field ∧ ∃ d ∈ field, d.IsTarget parts := by
  constructor
  · intro h
    cases h with
    | target h htarget => exact ⟨.node h, _, rfl, htarget⟩
  · rintro ⟨hnode, d, rfl, htarget⟩
    exact .target (admits_node_iff.mp hnode) htarget

theorem admits_nodes_iff :
    Admits parts .nodes field ↔ ListsOnly parts (IsNode parts) field := by
  constructor
  · intro h
    cases h with
    | noNodes | nullNodes => exact trivial
    | nodes hd h => exact (listsOnly_list_iff hd).mpr h
  · unfold ListsOnly
    split
    · exact fun _ => .noNodes
    · exact fun _ => .nullNodes
    · exact fun ⟨_, hd, h⟩ => .nodes hd h

theorem admits_parameters_iff :
    Admits parts .parameters field ↔ ListsOnly parts (IsParameter parts) field := by
  constructor
  · intro h
    cases h with
    | noParameters | nullParameters => exact trivial
    | parameters hd h => exact (listsOnly_list_iff hd).mpr h
  · unfold ListsOnly
    split
    · exact fun _ => .noParameters
    · exact fun _ => .nullParameters
    · exact fun ⟨_, hd, h⟩ => .parameters hd h

/-- A field that must be there is there. -/
theorem Admits.isSome {rule : FieldRule} (h : Admits parts rule field)
    (hrule : rule ∈ [FieldRule.number, .text, .anything, .node, .target]) : field.isSome = true := by
  cases h
  case noNode | noNodes | noName | noParameters => simp at hrule
  all_goals rfl

/-- Whether a mapping is a target is told by its kind. -/
theorem isTarget_iff {entries : List (Data × Data)} {kind : NodeKind}
    (hd : parts.look d = .mapping entries)
    (hkind : field? entries "node" = some (.text kind.keyword)) :
    d.IsTarget parts ↔ kind ∈ [NodeKind.name, NodeKind.member] := by
  constructor
  · rintro ⟨entries', hd', other, hmem, hother⟩
    obtain rfl := Data.mapping.inj (hd.symm.trans hd')
    have hname := (NodeKind.ofName?_eq_some_iff _ other).mpr
      (Data.text.inj (Option.some.inj (hkind.symm.trans hother)))
    rw [(NodeKind.ofName?_eq_some_iff _ kind).mpr rfl] at hname
    exact Option.some.inj hname ▸ hmem
  · exact fun hmem => ⟨entries, hd, kind, hmem, hkind⟩

theorem isNode_mapping_iff {entries : List (Data × Data)} (hd : parts.look d = .mapping entries) :
    d.IsNode parts ↔ GivesPlace entries ∧
      ∃ kind : NodeKind, field? entries "node" = some (.text kind.keyword) ∧
        ∀ f ∈ kind.fields, Admits parts f.2 (field? entries f.1) := by
  constructor
  · rintro (hliteral | ⟨hd', kind, hplace, hkind, hfields⟩)
    · rw [hd] at hliteral
      exact hliteral.elim
    · obtain rfl := Data.mapping.inj (hd.symm.trans hd')
      exact ⟨hplace, kind, hkind, hfields⟩
  · rintro ⟨hplace, kind, hkind, hfields⟩
    exact .mapping hd kind hplace hkind hfields

theorem not_isNode_of_list {items : List Data} (hd : parts.look d = .list items) :
    ¬ d.IsNode parts := by
  rintro (hliteral | hmapping)
  · rw [hd] at hliteral
    exact hliteral
  · cases hd.symm.trans hmapping

theorem isParameter_mapping_iff {entries : List (Data × Data)}
    (hd : parts.look d = .mapping entries) :
    d.IsParameter parts ↔ GivesPlace entries ∧
      ∃ kind : PatternKind, field? entries "pattern" = some (.text kind.keyword) ∧
        ∀ f ∈ kind.fields, Admits parts f.2 (field? entries f.1) := by
  constructor
  · rintro (hd' | ⟨hd', kind, hplace, hkind, hfields⟩)
    · cases hd.symm.trans hd'
    · obtain rfl := Data.mapping.inj (hd.symm.trans hd')
      exact ⟨hplace, kind, hkind, hfields⟩
  · rintro ⟨hplace, kind, hkind, hfields⟩
    exact .mapping hd kind hplace hkind hfields

end Admits

/-! ## Contents -/

section Contents

variable (parts : Parts)

/-- Data is a piece of data, or is it: it stands in keys or values, whatever their kinds. -/
inductive IsIn (d : Data) : Data → Prop
  | here : IsIn d d
  | item {items : List Data} {e : Data} (he : e ∈ items) (h : IsIn d e) : IsIn d (.list items)
  | component {items : List Data} {e : Data} (he : e ∈ items) (h : IsIn d e) :
    IsIn d (.tuple items)
  | element {items : List Data} {e : Data} (he : e ∈ items) (h : IsIn d e) : IsIn d (.set items)
  | key {entries : List (Data × Data)} {key value : Data} (he : (key, value) ∈ entries)
    (h : IsIn d key) : IsIn d (.mapping entries)
  | value {entries : List (Data × Data)} {key value : Data} (he : (key, value) ∈ entries)
    (h : IsIn d value) : IsIn d (.mapping entries)
  | part {id : Nat} {isMapping : Bool} {e : Data} (he : parts.lookup id = some e)
    (h : IsIn d e) : IsIn d (.part id isMapping)

/-- Every integer in the data is within the range of numbers. -/
def InRange (d : Data) : Prop :=
  ∀ i, IsIn parts (.integer i) d → (Decimal.ofInteger? i).isSome = true

/-- So many lists and mappings are inside each other. What contains itself is nested to any
depth. -/
inductive IsDeep : Nat → Data → Prop
  | zero (d : Data) : IsDeep 0 d
  | item {n : Nat} {items : List Data} {e : Data} (he : e ∈ items) (h : IsDeep n e) :
    IsDeep (n + 1) (.list items)
  | value {n : Nat} {entries : List (Data × Data)} {key value : Data}
    (he : (key, value) ∈ entries) (h : IsDeep n value) : IsDeep (n + 1) (.mapping entries)
  | part {n id : Nat} {isMapping : Bool} {e : Data} (he : parts.lookup id = some e)
    (h : IsDeep n e) : IsDeep n (.part id isMapping)

/-- There is room for two calls for each level of the data, and for one level more. -/
def HasRoom (room : Nat) (d : Data) : Prop := ∀ n, IsDeep parts n d → 2 * (n + 1) ≤ room

end Contents

section Pieces

variable {parts : Parts} {entries : List (Data × Data)} {items : List Data} {d : Data}
  {name : String}

theorem mem_of_field? (h : field? entries name = some d) : ∃ key, (key, d) ∈ entries := by
  obtain ⟨entry, hentry, rfl⟩ := Option.map_eq_some_iff.mp h
  exact ⟨entry.1, List.mem_of_find?_eq_some hentry⟩

/-- What data holds is what there is to see of it, or what the part holds that it is. -/
theorem look_cases (parts : Parts) (d : Data) : parts.look d = d ∨
    ∃ id isMapping e, d = .part id isMapping ∧ parts.lookup id = some e ∧ parts.look d = e := by
  cases d with
  | part id isMapping =>
    cases he : parts.lookup id with
    | none => exact .inl (by simp [Parts.look, he])
    | some e => exact .inr ⟨id, isMapping, e, rfl, he, by simp [Parts.look, he]⟩
  | _ => exact .inl rfl

theorem InRange.look (h : d.InRange parts) : (parts.look d).InRange parts := by
  rcases look_cases parts d with hlook | ⟨id, isMapping, e, rfl, he, hlook⟩
  · rwa [hlook]
  · rw [hlook]
    exact fun i hi => h i (.part he hi)

theorem IsDeep.of_look {n : Nat} (h : (parts.look d).IsDeep parts n) : d.IsDeep parts n := by
  rcases look_cases parts d with hlook | ⟨id, isMapping, e, rfl, he, hlook⟩
  · rwa [hlook] at h
  · rw [hlook] at h
    exact .part he h

end Pieces

end Data

end TreeScript
