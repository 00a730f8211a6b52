import TreeScript.Proofs.Growth
import TreeScript.Proofs.Production

/-!
# What code is made of

The ingredients of a piece of code are all that its faults can come from: the
places of its expressions, its operators, its templates, its targets of
assignments and the parameters of its functions. Code that is made of certain
ingredients only is stored as such: functions are made from it, joined to overload
sets, and bound to values, but their code is not changed.
-/

namespace TreeScript

inductive Ingredient where
  | place (loc : Option Loc)
  | operator (symbol : String)
  | unary (symbol : String)
  | template
  /-- A target of an assignment that is neither a name nor a member. -/
  | oddTarget
  | params (patterns : List Pattern)

/-- What stands on the left of an assignment, as such. -/
def Expr.targetIngredients (target : Expr) : List Ingredient :=
  if target.isAssignable then [] else [.oddTarget]

mutual

def Expr.ingredients : Expr → List Ingredient
  | .number l _ | .string l _ | .boolean l _ | .null l | .name l _ => [.place l]
  | .template l _ => [.place l, .template]
  | .list l items => .place l :: Expr.allIngredients items
  | .assign l target value =>
    .place l :: (target.targetIngredients ++ target.ingredients ++ value.ingredients)
  | .block l body => .place l :: Expr.allIngredients body
  | .branch l condition yes no =>
    .place l :: (condition.ingredients ++ yes.ingredients ++ Expr.optionIngredients no)
  | .loop l condition body => .place l :: (condition.ingredients ++ body.ingredients)
  | .function l _ params body =>
    .place l :: .params params :: (Pattern.allIngredients params ++ body.ingredients)
  | .call l callee args => .place l :: (callee.ingredients ++ Expr.allIngredients args)
  | .operator l symbol left right =>
    .place l :: .operator symbol :: (left.ingredients ++ right.ingredients)
  | .unary l symbol operand => .place l :: .unary symbol :: operand.ingredients
  | .member l target _ => .place l :: target.ingredients
  | .index l target index => .place l :: (target.ingredients ++ index.ingredients)
  | .classDef l _ superclass body =>
    .place l :: (Expr.optionIngredients superclass ++ Expr.allIngredients body)

def Expr.allIngredients : List Expr → List Ingredient
  | [] => []
  | e :: es => e.ingredients ++ Expr.allIngredients es

def Expr.optionIngredients : Option Expr → List Ingredient
  | none => []
  | some e => e.ingredients

def Pattern.ingredients : Pattern → List Ingredient
  | .wildcard _ | .name _ _ => []
  | .literal _ e | .typed _ _ e => e.ingredients
  | .list _ items => Pattern.allIngredients items

def Pattern.allIngredients : List Pattern → List Ingredient
  | [] => []
  | p :: ps => p.ingredients ++ Pattern.allIngredients ps

end

theorem Expr.place_mem_ingredients (e : Expr) : .place e.loc ∈ e.ingredients := by
  cases e <;> simp [ingredients, loc]

/-- The code of a function: its parameters and its body. -/
def Function.ingredients (fn : Function) : List Ingredient :=
  .params fn.params :: (Pattern.allIngredients fn.params ++ fn.body.ingredients)

section MadeOf

variable (K : Ingredient → Prop)

/-- An expression is made of certain ingredients only. -/
def Expr.MadeOf (e : Expr) : Prop := ∀ i ∈ e.ingredients, K i

def Pattern.MadeOf (p : Pattern) : Prop := ∀ i ∈ p.ingredients, K i

def Function.MadeOf (fn : Function) : Prop := ∀ i ∈ fn.ingredients, K i

def Payload.MadeOf (p : Payload) : Prop := ∀ fn ∈ p.functions, fn.MadeOf K

variable {K}

theorem Expr.MadeOf.loc {e : Expr} (he : e.MadeOf K) : K (.place e.loc) :=
  he _ e.place_mem_ingredients

theorem Expr.forall_allIngredients {es : List Expr} :
    (∀ i ∈ Expr.allIngredients es, K i) ↔ ∀ e ∈ es, e.MadeOf K := by
  induction es with
  | nil => simp [Expr.allIngredients]
  | cons e es ih => simp [Expr.allIngredients, or_imp, forall_and, ih, Expr.MadeOf]

theorem Expr.forall_optionIngredients {e : Option Expr} :
    (∀ i ∈ Expr.optionIngredients e, K i) ↔ ∀ e' ∈ e, e'.MadeOf K := by
  cases e <;> simp [Expr.optionIngredients, Expr.MadeOf]

theorem Pattern.forall_allIngredients {ps : List Pattern} :
    (∀ i ∈ Pattern.allIngredients ps, K i) ↔ ∀ p ∈ ps, p.MadeOf K := by
  induction ps with
  | nil => simp [Pattern.allIngredients]
  | cons p ps ih => simp [Pattern.allIngredients, or_imp, forall_and, ih, Pattern.MadeOf]

variable (K) in
/-- What an expression is made of, by its parts. -/
def Expr.PartsMadeOf : Expr → Prop
  | .number l _ | .string l _ | .boolean l _ | .null l | .name l _ => K (.place l)
  | .template l _ => K (.place l) ∧ K .template
  | .list l es | .block l es => K (.place l) ∧ ∀ e ∈ es, e.MadeOf K
  | .assign l target value =>
    K (.place l) ∧ (∀ i ∈ target.targetIngredients, K i) ∧ target.MadeOf K ∧ value.MadeOf K
  | .branch l condition yes no =>
    K (.place l) ∧ condition.MadeOf K ∧ yes.MadeOf K ∧ ∀ e ∈ no, e.MadeOf K
  | .loop l e e' | .index l e e' => K (.place l) ∧ e.MadeOf K ∧ e'.MadeOf K
  | .function l _ params body =>
    K (.place l) ∧ K (.params params) ∧ (∀ p ∈ params, p.MadeOf K) ∧ body.MadeOf K
  | .call l callee args => K (.place l) ∧ callee.MadeOf K ∧ ∀ e ∈ args, e.MadeOf K
  | .operator l symbol left right =>
    K (.place l) ∧ K (.operator symbol) ∧ left.MadeOf K ∧ right.MadeOf K
  | .unary l symbol operand => K (.place l) ∧ K (.unary symbol) ∧ operand.MadeOf K
  | .member l target _ => K (.place l) ∧ target.MadeOf K
  | .classDef l _ superclass body =>
    K (.place l) ∧ (∀ e ∈ superclass, e.MadeOf K) ∧ ∀ e ∈ body, e.MadeOf K

theorem Expr.madeOf_iff {e : Expr} : e.MadeOf K ↔ e.PartsMadeOf K := by
  have hlist (es : List Expr) : (∀ i ∈ Expr.allIngredients es, K i) ↔ ∀ e ∈ es, e.MadeOf K :=
    Expr.forall_allIngredients
  have hoption (e : Option Expr) := Expr.forall_optionIngredients (K := K) (e := e)
  have hpatterns (ps : List Pattern) :
      (∀ i ∈ Pattern.allIngredients ps, K i) ↔ ∀ p ∈ ps, p.MadeOf K :=
    Pattern.forall_allIngredients
  unfold Expr.MadeOf
  cases e <;>
    simp only [Expr.ingredients, Expr.PartsMadeOf, List.forall_mem_cons, List.forall_mem_append,
      List.not_mem_nil, false_implies, implies_true, and_true, and_assoc, hlist, hoption, hpatterns,
      Expr.MadeOf]

theorem Function.madeOf_iff {fn : Function} :
    fn.MadeOf K ↔ K (.params fn.params) ∧ (∀ p ∈ fn.params, p.MadeOf K) ∧ fn.body.MadeOf K := by
  simp only [Function.MadeOf, Function.ingredients, List.forall_mem_cons, List.forall_mem_append,
    Pattern.forall_allIngredients, Expr.MadeOf]

/-- A value without code is made of anything. -/
theorem Payload.madeOf_of_plain {p : Payload} (hp : p.functions = []) : p.MadeOf K :=
  fun fn hfn => absurd (hp ▸ hfn) (List.not_mem_nil (a := fn))

theorem Payload.MadeOf.mapFunctions {p : Payload} (hp : p.MadeOf K) {f : Function → Function}
    (hf : ∀ fn, (f fn).ingredients = fn.ingredients) : (p.mapFunctions f).MadeOf K := by
  intro g hg i hi
  rw [functions_mapFunctions] at hg
  obtain ⟨fn, hfn, rfl⟩ := List.mem_map.mp hg
  exact hp fn hfn i (hf fn ▸ hi)

end MadeOf

/-! ## Stored code -/

namespace Heap

variable {K : Ingredient → Prop} {h : Heap}

/-- Stored functions are made of certain ingredients only. -/
def StoresOnly (K : Ingredient → Prop) (h : Heap) : Prop := ∀ r, (h.payload r).MadeOf K

/-- An ingredient of a stored function. -/
def Stores (h : Heap) (i : Ingredient) : Prop :=
  ∃ r, ∃ fn ∈ (h.payload r).functions, i ∈ fn.ingredients

theorem storesOnly_stores : h.StoresOnly h.Stores := fun r fn hfn _ hi => ⟨r, fn, hfn, hi⟩

theorem StoresOnly.mono {K' : Ingredient → Prop} (hh : h.StoresOnly K) (hK : ∀ i, K i → K' i) :
    h.StoresOnly K' :=
  fun r fn hfn i hi => hK i (hh r fn hfn i hi)

theorem storesOnly_initial : initial.StoresOnly K := by
  have hnone : ∀ r < initial.objects.size, (initial.payload r).functions.isEmpty = true := by decide
  intro r fn hfn
  refine absurd hfn ?_
  by_cases hr : r < initial.objects.size
  · rw [List.isEmpty_iff.mp (hnone r hr)]
    exact List.not_mem_nil
  · have hnull : initial.payload r = .null :=
      Classical.byContradiction fun h => hr (initial.lt_of_payload_ne_null h)
    rw [hnull]
    exact List.not_mem_nil

namespace StoresOnly

variable (hh : h.StoresOnly K)

include hh

theorem add {o : Object} (ho : o.payload.MadeOf K) : (h.add o).2.StoresOnly K := by
  intro r
  by_cases hr : r = h.objects.size
  · rw [hr, payload_add_self]
    exact ho
  · rw [h.payload_add_of_ne o hr]
    exact hh r

theorem alloc {p : Payload} (hp : p.MadeOf K) : (h.alloc p).2.StoresOnly K := hh.add hp

theorem allocInstance (cls : Ref) : (h.allocInstance cls).2.StoresOnly K :=
  hh.add (Payload.madeOf_of_plain rfl)

theorem setField (r : Ref) (name : String) (v : Ref) : (h.setField r name v).StoresOnly K := by
  intro s
  rw [payload_setField]
  exact hh s

theorem setMember (r : Ref) (name : String) (v : Ref) : (h.setMember r name v).StoresOnly K := by
  unfold Heap.setMember
  split <;> exact hh.setField _ name v

theorem updateClass (c : Ref) (f : ClassInfo → ClassInfo) : (h.updateClass c f).StoresOnly K := by
  intro r
  rcases h.payload_updateClass_cases c r f with hsame | ⟨info, -, hclass⟩
  · rw [hsame]
    exact hh r
  · rw [hclass]
    exact Payload.madeOf_of_plain rfl

theorem foldDefinition {fn : Function} (hfn : fn.MadeOf K) (existing : Option Ref) :
    (h.foldDefinition existing fn).MadeOf K := by
  intro g hg
  rcases mem_functions_foldDefinition hg with rfl | ⟨v, -, hg⟩
  · exact hfn
  · exact hh v g hg

theorem rebind (callee : Ref) {f : Function → Function}
    (hf : ∀ fn, (f fn).ingredients = fn.ingredients) : (h.rebind callee f).2.StoresOnly K := by
  by_cases hcode : h.isBindable callee = true
  · rw [rebind_of_isBindable hcode]
    exact hh.alloc ((hh callee).mapFunctions hf)
  · unfold isBindable at hcode
    unfold Heap.rebind
    split
    · next hp => simp [hp] at hcode
    · next hp => simp [hp] at hcode
    · exact hh

theorem bindMethod (method inst owner : Ref) : (h.bindMethod method inst owner).2.StoresOnly K := by
  unfold Heap.bindMethod
  split
  · split
    · next start _ =>
      have hview : Payload.MadeOf K (.superView inst start) := Payload.madeOf_of_plain rfl
      exact (hh.alloc hview).rebind method fun _ => rfl
    · exact hh.rebind method fun _ => rfl
  · exact hh

/-- Reading a member stores no other code: a method is bound as it is. -/
theorem member {r v : Ref} {name : String} {k : Heap} (hk : h.member? r name = some (v, k)) :
    k.StoresOnly K := by
  have hfield {inst start : Ref} (hk : h.fieldOrMethod? inst start name = some (v, k)) :
      k.StoresOnly K := by
    unfold fieldOrMethod? at hk
    split at hk
    · cases hk
      exact hh
    · obtain ⟨⟨owner, method⟩, -, hmethod⟩ := Option.map_eq_some_iff.mp hk
      have hbound := hh.bindMethod method inst owner
      dsimp only at hmethod
      rw [hmethod] at hbound
      exact hbound
  unfold member? at hk
  split at hk
  · split at hk
    · cases hk
      exact hh
    · obtain ⟨value, -, hvalue⟩ := Option.map_eq_some_iff.mp hk
      cases hvalue
      exact hh
  · exact hfield hk
  · exact hfield hk

end StoresOnly

end Heap

end TreeScript
