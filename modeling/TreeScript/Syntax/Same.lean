import TreeScript.Syntax.Expr

/-!
# The same code

Two pieces of code are the same when they have the same shape and the same
texts, numbers and names, wherever they were written. The two zeros are the
same number; a NaN is the same only as itself.
-/

namespace TreeScript

def NumberLiteral.same (a b : NumberLiteral) : Bool :=
  a.value == b.value ||
    (Decimal.isNaN a.value && Decimal.isNaN b.value && a.origin == b.origin)

mutual

def Expr.same : Expr → Expr → Bool
  | .number _ a, .number _ b => a.same b
  | .string _ a, .string _ b => a == b
  | .template _ a, .template _ b => a == b
  | .boolean _ a, .boolean _ b => a == b
  | .null _, .null _ => true
  | .list _ as, .list _ bs => Expr.sameAll as bs
  | .name _ a, .name _ b => a == b
  | .assign _ t v, .assign _ t' v' => t.same t' && v.same v'
  | .block _ as, .block _ bs => Expr.sameAll as bs
  | .branch _ c y n, .branch _ c' y' n' => c.same c' && y.same y' && Expr.sameOption n n'
  | .loop _ c b, .loop _ c' b' => c.same c' && b.same b'
  | .function _ n ps b, .function _ n' ps' b' => n == n' && Pattern.sameAll ps ps' && b.same b'
  | .call _ f as, .call _ f' as' => f.same f' && Expr.sameAll as as'
  | .operator _ o l r, .operator _ o' l' r' => o == o' && l.same l' && r.same r'
  | .unary _ o e, .unary _ o' e' => o == o' && e.same e'
  | .member _ t n, .member _ t' n' => t.same t' && n == n'
  | .index _ t i, .index _ t' i' => t.same t' && i.same i'
  | .classDef _ n s b, .classDef _ n' s' b' => n == n' && Expr.sameOption s s' && Expr.sameAll b b'
  | _, _ => false

def Expr.sameAll : List Expr → List Expr → Bool
  | [], [] => true
  | a :: as, b :: bs => a.same b && Expr.sameAll as bs
  | _, _ => false

def Expr.sameOption : Option Expr → Option Expr → Bool
  | none, none => true
  | some a, some b => a.same b
  | _, _ => false

def Pattern.same : Pattern → Pattern → Bool
  | .wildcard _, .wildcard _ => true
  | .name _ a, .name _ b => a == b
  | .literal _ a, .literal _ b => a.same b
  | .typed _ n c, .typed _ n' c' => n == n' && c.same c'
  | .list _ as, .list _ bs => Pattern.sameAll as bs
  | _, _ => false

def Pattern.sameAll : List Pattern → List Pattern → Bool
  | [], [] => true
  | a :: as, b :: bs => a.same b && Pattern.sameAll as bs
  | _, _ => false

end

end TreeScript
