import TreeScript.Data.Written
import TreeScript.Syntax.Expr

/-!
# Outlines of code

An outline shows a piece of code as records with named fields, one record an
expression or pattern. Traces of dispatch and dumps of programs are written
from it.
-/

namespace TreeScript

inductive Outline where
  | node (kind : String) (loc : Option Loc) (fields : List (String × Outline))
  | text (value : String)
  | number (value : Float)
  | boolean (value : Bool)
  | absent
  | tuple (items : List Outline)
  deriving Inhabited

def Outline.ofOption : Option String → Outline
  | some s => .text s
  | none => .absent

mutual

def Expr.outline : Expr → Outline
  | .number l n => .node "NumberExpr" l [("value", .number n.value)]
  | .string l s => .node "StringExpr" l [("value", .text s)]
  | .template l s => .node "InterpolatedStringExpr" l [("template", .text s)]
  | .boolean l b => .node "BooleanExpr" l [("value", .boolean b)]
  | .null l => .node "NullExpr" l []
  | .list l items => .node "ListExpr" l [("items", .tuple (Expr.outlines items))]
  | .name l n => .node "NameExpr" l [("name", .text n)]
  | .assign l t v => .node "AssignExpr" l [("target", t.outline), ("value", v.outline)]
  | .block l body => .node "BlockExpr" l [("body", .tuple (Expr.outlines body))]
  | .branch l c y n =>
    .node "IfExpr" l
      [("condition", c.outline), ("then_branch", y.outline), ("else_branch", Expr.outlineOption n)]
  | .loop l c b => .node "WhileExpr" l [("condition", c.outline), ("body", b.outline)]
  | .function l n ps b =>
    .node "FunctionExpr" l
      [("name", .ofOption n), ("params", .tuple (Pattern.outlines ps)), ("body", b.outline)]
  | .call l f args => .node "CallExpr" l [("callee", f.outline), ("args", .tuple (Expr.outlines args))]
  | .operator l op a b =>
    .node "OperatorExpr" l [("op", .text op), ("left", a.outline), ("right", b.outline)]
  | .unary l op e => .node "PrefixExpr" l [("op", .text op), ("operand", e.outline)]
  | .member l t n => .node "MemberExpr" l [("target", t.outline), ("name", .text n)]
  | .index l t i => .node "IndexExpr" l [("target", t.outline), ("index", i.outline)]
  | .classDef l n s body =>
    .node "ClassExpr" l
      [("name", .text n), ("superclass", Expr.outlineOption s), ("body", .tuple (Expr.outlines body))]

def Expr.outlines : List Expr → List Outline
  | [] => []
  | e :: es => e.outline :: Expr.outlines es

def Expr.outlineOption : Option Expr → Outline
  | none => .absent
  | some e => e.outline

def Pattern.outline : Pattern → Outline
  | .wildcard l => .node "WildcardPattern" l []
  | .name l n => .node "NamePattern" l [("name", .text n)]
  | .literal l e => .node "LiteralPattern" l [("literal", e.outline)]
  | .typed l n c => .node "TypedPattern" l [("name", .text n), ("class_expr", c.outline)]
  | .list l items => .node "ListPattern" l [("items", .tuple (Pattern.outlines items))]

def Pattern.outlines : List Pattern → List Outline
  | [] => []
  | p :: ps => p.outline :: Pattern.outlines ps

end

def Loc.outline (l : Loc) : String := s!"Loc(line={l.line}, origin={Text.quoted l.origin})"

mutual

/-- The outline on one line. -/
def Outline.written : Outline → String
  | .node kind loc fields =>
    let place := "loc=" ++ (loc.map Loc.outline).getD "None"
    kind ++ "(" ++ commaSeparated (place :: Outline.writtenFields fields) ++ ")"
  | .text s => Text.quoted s
  | .number x => Decimal.written Decimal.general x
  | .boolean b => if b then "True" else "False"
  | .absent => "None"
  | .tuple [item] => "(" ++ item.written ++ ",)"
  | .tuple items => "(" ++ commaSeparated (Outline.writtenItems items) ++ ")"

def Outline.writtenFields : List (String × Outline) → List String
  | [] => []
  | (name, value) :: rest => (name ++ "=" ++ value.written) :: Outline.writtenFields rest

def Outline.writtenItems : List Outline → List String
  | [] => []
  | item :: rest => item.written :: Outline.writtenItems rest

end

/-- Whether a place has a written form. -/
def Loc.isWritable (l : Loc) : Bool := Text.isWritable l.line

mutual

/-- Whether all places in an outline have a written form. -/
def Outline.isWritable : Outline → Bool
  | .node _ loc fields => loc.all (·.isWritable) && Outline.areFieldsWritable fields
  | .tuple items => Outline.areWritable items
  | .text _ | .number _ | .boolean _ | .absent => true

def Outline.areFieldsWritable : List (String × Outline) → Bool
  | [] => true
  | (_, value) :: rest => value.isWritable && Outline.areFieldsWritable rest

def Outline.areWritable : List Outline → Bool
  | [] => true
  | item :: rest => item.isWritable && Outline.areWritable rest

end

mutual

/-- How deep the records of an outline are nested. -/
def Outline.depth : Outline → Nat
  | .node _ _ fields => Outline.depthOfFields fields + 1
  | .tuple items => Outline.depthOfItems items
  | .text _ | .number _ | .boolean _ | .absent => 0

def Outline.depthOfFields : List (String × Outline) → Nat
  | [] => 0
  | (_, value) :: rest => max value.depth (Outline.depthOfFields rest)

def Outline.depthOfItems : List Outline → Nat
  | [] => 0
  | item :: rest => max item.depth (Outline.depthOfItems rest)

end

def Pattern.written (p : Pattern) : String := p.outline.written

def Pattern.isWritable (p : Pattern) : Bool := p.outline.isWritable

/-- Code for a reader: a binary operation as its operands around its operator,
anything else as its outline. -/
def Expr.display : Expr → String
  | .operator _ op left right => left.display ++ " " ++ op ++ " " ++ right.display
  | e => e.outline.written

end TreeScript
