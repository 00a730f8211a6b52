import TreeScript.Proofs.NumberEquality

/-!
# Equal code

A revision of code changes the places and the number literals in it and keeps
everything else. Revising every place to none and every literal to its plain
form leaves the bare code, and two pieces of code are the same exactly when
their bare codes are equal. So being the same is an equivalence, and it takes no
notice of places.
-/

namespace TreeScript

/-- What becomes of the places and of the number literals in code. -/
structure Revision where
  place : Option Loc → Option Loc := id
  number : NumberLiteral → NumberLiteral := id

section Revise

variable (r : Revision)

mutual

def Expr.revise : Expr → Expr
  | .number l n => .number (r.place l) (r.number n)
  | .string l s => .string (r.place l) s
  | .template l s => .template (r.place l) s
  | .boolean l b => .boolean (r.place l) b
  | .null l => .null (r.place l)
  | .list l items => .list (r.place l) (Expr.reviseAll items)
  | .name l n => .name (r.place l) n
  | .assign l t v => .assign (r.place l) t.revise v.revise
  | .block l body => .block (r.place l) (Expr.reviseAll body)
  | .branch l c y n => .branch (r.place l) c.revise y.revise (Expr.reviseOption n)
  | .loop l c b => .loop (r.place l) c.revise b.revise
  | .function l n ps b => .function (r.place l) n (Pattern.reviseAll ps) b.revise
  | .call l f args => .call (r.place l) f.revise (Expr.reviseAll args)
  | .operator l op a b => .operator (r.place l) op a.revise b.revise
  | .unary l op e => .unary (r.place l) op e.revise
  | .member l t n => .member (r.place l) t.revise n
  | .index l t i => .index (r.place l) t.revise i.revise
  | .classDef l n s body => .classDef (r.place l) n (Expr.reviseOption s) (Expr.reviseAll body)

def Expr.reviseAll : List Expr → List Expr
  | [] => []
  | e :: es => e.revise :: Expr.reviseAll es

def Expr.reviseOption : Option Expr → Option Expr
  | none => none
  | some e => some e.revise

def Pattern.revise : Pattern → Pattern
  | .wildcard l => .wildcard (r.place l)
  | .name l n => .name (r.place l) n
  | .literal l e => .literal (r.place l) e.revise
  | .typed l n c => .typed (r.place l) n c.revise
  | .list l items => .list (r.place l) (Pattern.reviseAll items)

def Pattern.reviseAll : List Pattern → List Pattern
  | [] => []
  | p :: ps => p.revise :: Pattern.reviseAll ps

end

end Revise

namespace Revision

/-- One revision and then another. -/
def andThen (r s : Revision) : Revision := ⟨s.place ∘ r.place, s.number ∘ r.number⟩

/-- Changes places alone. -/
def moving (place : Option Loc → Option Loc) : Revision := ⟨place, id⟩

@[simp] theorem place_moving (place : Option Loc → Option Loc) : (moving place).place = place := rfl

/-- Leaves what pieces of code that are the same have in common. -/
def bare : Revision := ⟨fun _ => none, NumberLiteral.plain⟩

/-- The bare code does not tell where the code was. -/
theorem moving_andThen_bare (place : Option Loc → Option Loc) :
    (moving place).andThen bare = bare := rfl

end Revision

section Laws

variable (r s : Revision)

@[simp] theorem Expr.loc_revise (e : Expr) : (e.revise r).loc = r.place e.loc := by
  cases e <;> rfl

theorem Pattern.reviseAll_eq_map (ps : List Pattern) :
    Pattern.reviseAll r ps = ps.map (·.revise r) := by
  induction ps with
  | nil => rfl
  | cons p ps ih => rw [Pattern.reviseAll, ih, List.map_cons]

mutual

theorem Expr.revise_revise : ∀ e : Expr, (e.revise r).revise s = e.revise (r.andThen s)
  | .number _ _ | .string _ _ | .template _ _ | .boolean _ _ | .null _ | .name _ _ => rfl
  | .list _ items => by simp [Expr.revise, Revision.andThen, Expr.reviseAll_reviseAll items]
  | .assign _ t v => by simp [Expr.revise, Revision.andThen, t.revise_revise, v.revise_revise]
  | .block _ body => by simp [Expr.revise, Revision.andThen, Expr.reviseAll_reviseAll body]
  | .branch _ c y n => by
    simp [Expr.revise, Revision.andThen, c.revise_revise, y.revise_revise,
      Expr.reviseOption_reviseOption n]
  | .loop _ c b => by simp [Expr.revise, Revision.andThen, c.revise_revise, b.revise_revise]
  | .function _ _ ps b => by
    simp [Expr.revise, Revision.andThen, Pattern.reviseAll_reviseAll ps, b.revise_revise]
  | .call _ f args => by
    simp [Expr.revise, Revision.andThen, f.revise_revise, Expr.reviseAll_reviseAll args]
  | .operator _ _ a b => by simp [Expr.revise, Revision.andThen, a.revise_revise, b.revise_revise]
  | .unary _ _ e => by simp [Expr.revise, Revision.andThen, e.revise_revise]
  | .member _ t _ => by simp [Expr.revise, Revision.andThen, t.revise_revise]
  | .index _ t i => by simp [Expr.revise, Revision.andThen, t.revise_revise, i.revise_revise]
  | .classDef _ _ p body => by
    simp [Expr.revise, Revision.andThen, Expr.reviseOption_reviseOption p,
      Expr.reviseAll_reviseAll body]

theorem Expr.reviseAll_reviseAll : ∀ es : List Expr,
    Expr.reviseAll s (Expr.reviseAll r es) = Expr.reviseAll (r.andThen s) es
  | [] => rfl
  | e :: es => by simp [Expr.reviseAll, e.revise_revise, Expr.reviseAll_reviseAll es]

theorem Expr.reviseOption_reviseOption : ∀ e : Option Expr,
    Expr.reviseOption s (Expr.reviseOption r e) = Expr.reviseOption (r.andThen s) e
  | none => rfl
  | some e => by simp [Expr.reviseOption, e.revise_revise]

theorem Pattern.revise_revise : ∀ p : Pattern, (p.revise r).revise s = p.revise (r.andThen s)
  | .wildcard _ | .name _ _ => rfl
  | .literal _ e => by simp [Pattern.revise, Revision.andThen, e.revise_revise]
  | .typed _ _ c => by simp [Pattern.revise, Revision.andThen, c.revise_revise]
  | .list _ items => by simp [Pattern.revise, Revision.andThen, Pattern.reviseAll_reviseAll items]

theorem Pattern.reviseAll_reviseAll : ∀ ps : List Pattern,
    Pattern.reviseAll s (Pattern.reviseAll r ps) = Pattern.reviseAll (r.andThen s) ps
  | [] => rfl
  | p :: ps => by simp [Pattern.reviseAll, p.revise_revise, Pattern.reviseAll_reviseAll ps]

end

/-! A revision keeps the records of code, so it does not change how deep they are nested. -/

mutual

theorem Expr.depth_revise : ∀ e : Expr, (e.revise r).outline.depth = e.outline.depth
  | .number _ _ | .string _ _ | .template _ _ | .boolean _ _ | .null _ | .name _ _ => rfl
  | .list _ items | .block _ items => by
    simp [Expr.revise, Expr.outline, Outline.depth, Outline.depthOfFields, Expr.depths_revise items]
  | .assign _ a b | .loop _ a b | .operator _ _ a b | .index _ a b => by
    simp [Expr.revise, Expr.outline, Outline.depth, Outline.depthOfFields, a.depth_revise,
      b.depth_revise]
  | .branch _ c y n => by
    simp [Expr.revise, Expr.outline, Outline.depth, Outline.depthOfFields, c.depth_revise,
      y.depth_revise, Expr.depthOption_revise n]
  | .function _ n ps b => by
    simp [Expr.revise, Expr.outline, Outline.depth, Outline.depthOfFields,
      Pattern.depths_revise ps, b.depth_revise]
  | .call _ f args => by
    simp [Expr.revise, Expr.outline, Outline.depth, Outline.depthOfFields, f.depth_revise,
      Expr.depths_revise args]
  | .unary _ _ e | .member _ e _ => by
    simp [Expr.revise, Expr.outline, Outline.depth, Outline.depthOfFields, e.depth_revise]
  | .classDef _ _ p body => by
    simp [Expr.revise, Expr.outline, Outline.depth, Outline.depthOfFields,
      Expr.depthOption_revise p, Expr.depths_revise body]

theorem Expr.depths_revise : ∀ es : List Expr,
    Outline.depthOfItems (Expr.outlines (Expr.reviseAll r es)) =
      Outline.depthOfItems (Expr.outlines es)
  | [] => rfl
  | e :: es => by
    simp [Expr.reviseAll, Expr.outlines, Outline.depthOfItems, e.depth_revise,
      Expr.depths_revise es]

theorem Expr.depthOption_revise : ∀ e : Option Expr,
    (Expr.outlineOption (Expr.reviseOption r e)).depth = (Expr.outlineOption e).depth
  | none => rfl
  | some e => e.depth_revise

theorem Pattern.depth_revise : ∀ p : Pattern, (p.revise r).outline.depth = p.outline.depth
  | .wildcard _ | .name _ _ => rfl
  | .literal _ e | .typed _ _ e => by
    simp [Pattern.revise, Pattern.outline, Outline.depth, Outline.depthOfFields, e.depth_revise]
  | .list _ items => by
    simp [Pattern.revise, Pattern.outline, Outline.depth, Outline.depthOfFields,
      Pattern.depths_revise items]

theorem Pattern.depths_revise : ∀ ps : List Pattern,
    Outline.depthOfItems (Pattern.outlines (Pattern.reviseAll r ps)) =
      Outline.depthOfItems (Pattern.outlines ps)
  | [] => rfl
  | p :: ps => by
    simp [Pattern.reviseAll, Pattern.outlines, Outline.depthOfItems, p.depth_revise,
      Pattern.depths_revise ps]

end

/-! Moving code to where it is leaves it as it is. -/

mutual

theorem Expr.revise_moving_id : ∀ e : Expr, e.revise (.moving id) = e
  | .number _ _ | .string _ _ | .template _ _ | .boolean _ _ | .null _ | .name _ _ => rfl
  | .list _ items => by simp [Expr.revise, Expr.reviseAll_moving_id items]
  | .assign _ t v => by simp [Expr.revise, t.revise_moving_id, v.revise_moving_id]
  | .block _ body => by simp [Expr.revise, Expr.reviseAll_moving_id body]
  | .branch _ c y n => by
    simp [Expr.revise, c.revise_moving_id, y.revise_moving_id, Expr.reviseOption_moving_id n]
  | .loop _ c b => by simp [Expr.revise, c.revise_moving_id, b.revise_moving_id]
  | .function _ _ ps b => by
    simp [Expr.revise, Pattern.reviseAll_moving_id ps, b.revise_moving_id]
  | .call _ f args => by simp [Expr.revise, f.revise_moving_id, Expr.reviseAll_moving_id args]
  | .operator _ _ a b => by simp [Expr.revise, a.revise_moving_id, b.revise_moving_id]
  | .unary _ _ e => by simp [Expr.revise, e.revise_moving_id]
  | .member _ t _ => by simp [Expr.revise, t.revise_moving_id]
  | .index _ t i => by simp [Expr.revise, t.revise_moving_id, i.revise_moving_id]
  | .classDef _ _ p body => by
    simp [Expr.revise, Expr.reviseOption_moving_id p, Expr.reviseAll_moving_id body]

theorem Expr.reviseAll_moving_id : ∀ es : List Expr, Expr.reviseAll (.moving id) es = es
  | [] => rfl
  | e :: es => by simp [Expr.reviseAll, e.revise_moving_id, Expr.reviseAll_moving_id es]

theorem Expr.reviseOption_moving_id : ∀ e : Option Expr, Expr.reviseOption (.moving id) e = e
  | none => rfl
  | some e => by simp [Expr.reviseOption, e.revise_moving_id]

theorem Pattern.revise_moving_id : ∀ p : Pattern, p.revise (.moving id) = p
  | .wildcard _ | .name _ _ => rfl
  | .literal _ e => by simp [Pattern.revise, e.revise_moving_id]
  | .typed _ _ c => by simp [Pattern.revise, c.revise_moving_id]
  | .list _ items => by simp [Pattern.revise, Pattern.reviseAll_moving_id items]

theorem Pattern.reviseAll_moving_id : ∀ ps : List Pattern, Pattern.reviseAll (.moving id) ps = ps
  | [] => rfl
  | p :: ps => by simp [Pattern.reviseAll, p.revise_moving_id, Pattern.reviseAll_moving_id ps]

end

end Laws

/-! ## The same code -/

mutual

theorem Expr.same_iff : ∀ a b : Expr, a.same b = true ↔ a.revise .bare = b.revise .bare
  | .number _ x, b => by cases b <;> simp [Expr.same, Expr.revise, Revision.bare, x.same_iff]
  | .string _ _, b | .template _ _, b | .boolean _ _, b | .null _, b | .name _ _, b => by
    cases b <;> simp [Expr.same, Expr.revise, Revision.bare]
  | .list _ items, b => by
    have hitems := Expr.sameAll_iff items
    cases b <;> simp [Expr.same, Expr.revise, Revision.bare, hitems]
  | .assign _ t v, b => by
    cases b <;> simp [Expr.same, Expr.revise, Revision.bare, t.same_iff, v.same_iff]
  | .block _ body, b => by
    have hbody := Expr.sameAll_iff body
    cases b <;> simp [Expr.same, Expr.revise, Revision.bare, hbody]
  | .branch _ c y n, b => by
    cases b <;>
      simp [Expr.same, Expr.revise, Revision.bare, c.same_iff, y.same_iff, Expr.sameOption_iff n,
        and_assoc]
  | .loop _ c e, b => by
    cases b <;> simp [Expr.same, Expr.revise, Revision.bare, c.same_iff, e.same_iff]
  | .function _ _ ps e, b => by
    cases b <;>
      simp [Expr.same, Expr.revise, Revision.bare, Pattern.sameAll_iff ps, e.same_iff, and_assoc]
  | .call _ f args, b => by
    cases b <;> simp [Expr.same, Expr.revise, Revision.bare, f.same_iff, Expr.sameAll_iff args]
  | .operator _ _ x y, b => by
    cases b <;> simp [Expr.same, Expr.revise, Revision.bare, x.same_iff, y.same_iff, and_assoc]
  | .unary _ _ e, b => by
    cases b <;> simp [Expr.same, Expr.revise, Revision.bare, e.same_iff]
  | .member _ t _, b => by
    cases b <;> simp [Expr.same, Expr.revise, Revision.bare, t.same_iff]
  | .index _ t i, b => by
    cases b <;> simp [Expr.same, Expr.revise, Revision.bare, t.same_iff, i.same_iff]
  | .classDef _ _ p body, b => by
    cases b <;>
      simp [Expr.same, Expr.revise, Revision.bare, Expr.sameOption_iff p, Expr.sameAll_iff body,
        and_assoc]

theorem Expr.sameAll_iff : ∀ as bs : List Expr,
    Expr.sameAll as bs = true ↔ Expr.reviseAll .bare as = Expr.reviseAll .bare bs
  | [], bs => by cases bs <;> simp [Expr.sameAll, Expr.reviseAll]
  | a :: as, bs => by
    cases bs <;> simp [Expr.sameAll, Expr.reviseAll, a.same_iff, Expr.sameAll_iff as]

theorem Expr.sameOption_iff : ∀ a b : Option Expr,
    Expr.sameOption a b = true ↔ Expr.reviseOption .bare a = Expr.reviseOption .bare b
  | none, b => by cases b <;> simp [Expr.sameOption, Expr.reviseOption]
  | some a, b => by cases b <;> simp [Expr.sameOption, Expr.reviseOption, a.same_iff]

theorem Pattern.same_iff : ∀ a b : Pattern, a.same b = true ↔ a.revise .bare = b.revise .bare
  | .wildcard _, b | .name _ _, b => by cases b <;> simp [Pattern.same, Pattern.revise, Revision.bare]
  | .literal _ e, b => by cases b <;> simp [Pattern.same, Pattern.revise, Revision.bare, e.same_iff]
  | .typed _ _ c, b => by cases b <;> simp [Pattern.same, Pattern.revise, Revision.bare, c.same_iff]
  | .list _ items, b => by
    cases b <;> simp [Pattern.same, Pattern.revise, Revision.bare, Pattern.sameAll_iff items]

theorem Pattern.sameAll_iff : ∀ as bs : List Pattern,
    Pattern.sameAll as bs = true ↔ Pattern.reviseAll .bare as = Pattern.reviseAll .bare bs
  | [], bs => by cases bs <;> simp [Pattern.sameAll, Pattern.reviseAll]
  | a :: as, bs => by
    cases bs <;> simp [Pattern.sameAll, Pattern.reviseAll, a.same_iff, Pattern.sameAll_iff as]

end

theorem Pattern.sameAll_moving (place : Option Loc → Option Loc) (ps qs : List Pattern) :
    Pattern.sameAll (Pattern.reviseAll (.moving place) ps)
      (Pattern.reviseAll (.moving place) qs) = Pattern.sameAll ps qs := by
  rw [Bool.eq_iff_iff, Pattern.sameAll_iff, Pattern.sameAll_iff, Pattern.reviseAll_reviseAll,
    Pattern.reviseAll_reviseAll, Revision.moving_andThen_bare]

/-! ## Functions -/

namespace Function

def revise (r : Revision) (fn : Function) : Function :=
  { fn with params := Pattern.reviseAll r fn.params, body := fn.body.revise r }

/-- The name and the bare code of a function. -/
def bare (fn : Function) : Function :=
  { fn.revise .bare with captured := none, self := none, super := none }

/-- How deep code is nested can be told from the bare code. -/
theorem depth_bare (fn : Function) : fn.bare.depth = fn.depth := by
  simp only [depth, bare, revise, Pattern.depths_revise, Expr.depth_revise]

theorem depth_of_bare {f g : Function} (h : f.bare = g.bare) : f.depth = g.depth := by
  rw [← depth_bare, h, depth_bare]

theorem same_iff (f g : Function) : f.same g = true ↔ f.bare = g.bare := by
  simp [same, bare, revise, Pattern.sameAll_iff, Expr.same_iff, and_assoc]

theorem sameAll_iff (fs gs : List Function) :
    Function.sameAll fs gs = true ↔ fs.map bare = gs.map bare := by
  induction fs generalizing gs with
  | nil => cases gs <;> simp [sameAll]
  | cons f fs ih => cases gs <;> simp [sameAll, same_iff, ih]

/-- Two functions are the same wherever they were written or made and whatever they are bound to. -/
theorem bare_of_moving (place : Option Loc → Option Loc) (captured : Option FrameId)
    (self super : Option Ref) (fn : Function) :
    bare { fn.revise (.moving place) with captured, self, super } = fn.bare := by
  simp only [bare, revise, Pattern.reviseAll_reviseAll, Expr.revise_revise,
    Revision.moving_andThen_bare]

end Function

end TreeScript
