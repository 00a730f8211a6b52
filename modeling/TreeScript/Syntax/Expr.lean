import TreeScript.Data

/-!
# Expressions and patterns

A program is a list of expressions. An expression may carry the place in a
source text that it came from; the place is used in error reports alone and
takes no part in the comparison of code.

The parameters of a function are patterns, which form a closed set of their
own: a pattern accepts or rejects an argument and may bind names to its parts.
-/

namespace TreeScript

/-- A place in a source text: a line and the name of the text. -/
structure Loc where
  line : Int
  origin : String
  deriving Repr, DecidableEq, Inhabited

/-- A number in code. The origin tells one NaN from another. -/
structure NumberLiteral where
  value : Float
  origin : NanOrigin
  deriving Repr, Inhabited

mutual

inductive Expr where
  | number (loc : Option Loc) (literal : NumberLiteral)
  | string (loc : Option Loc) (value : String)
  /-- A text whose tags are filled in from the active scope. -/
  | template (loc : Option Loc) (text : String)
  | boolean (loc : Option Loc) (value : Bool)
  | null (loc : Option Loc)
  | list (loc : Option Loc) (items : List Expr)
  | name (loc : Option Loc) (name : String)
  | assign (loc : Option Loc) (target value : Expr)
  | block (loc : Option Loc) (body : List Expr)
  | branch (loc : Option Loc) (condition yes : Expr) (no : Option Expr)
  | loop (loc : Option Loc) (condition body : Expr)
  /-- A function without a name is bound to no name. -/
  | function (loc : Option Loc) (name : Option String) (params : List Pattern) (body : Expr)
  | call (loc : Option Loc) (callee : Expr) (args : List Expr)
  | operator (loc : Option Loc) (op : String) (left right : Expr)
  | unary (loc : Option Loc) (op : String) (operand : Expr)
  | member (loc : Option Loc) (target : Expr) (name : String)
  | index (loc : Option Loc) (target index : Expr)
  | classDef (loc : Option Loc) (name : String) (superclass : Option Expr) (body : List Expr)

inductive Pattern where
  | wildcard (loc : Option Loc)
  | name (loc : Option Loc) (name : String)
  /-- Accepts arguments equal to the value of an expression. -/
  | literal (loc : Option Loc) (literal : Expr)
  /-- Accepts arguments whose class is, or descends from, the class an expression names. -/
  | typed (loc : Option Loc) (name : String) (cls : Expr)
  /-- Accepts lists of exactly as many items, item by item. -/
  | list (loc : Option Loc) (items : List Pattern)

end

instance : Inhabited Expr := ⟨.null none⟩

instance : Inhabited Pattern := ⟨.wildcard none⟩

namespace Expr

def loc : Expr → Option Loc
  | .number l _ | .string l _ | .template l _ | .boolean l _ | .null l | .list l _ | .name l _
  | .assign l _ _ | .block l _ | .branch l _ _ _ | .loop l _ _ | .function l _ _ _ | .call l _ _
  | .operator l _ _ _ | .unary l _ _ | .member l _ _ | .index l _ _ | .classDef l _ _ _ => l

/-- The expressions that an assignment may have on its left. -/
def isAssignable : Expr → Bool
  | .name _ _ | .member _ _ _ => true
  | _ => false

end Expr

namespace Pattern

def loc : Pattern → Option Loc
  | .wildcard l | .name l _ | .literal l _ | .typed l _ _ | .list l _ => l

/-- The kind of pattern, as messages name it. -/
def kindName : Pattern → String
  | .wildcard _ => "WildcardPattern"
  | .name _ _ => "NamePattern"
  | .literal _ _ => "LiteralPattern"
  | .typed _ _ _ => "TypedPattern"
  | .list _ _ => "ListPattern"

end Pattern

end TreeScript
