import TreeScript.Machine.Eval
import TreeScript.Proofs.StoredCode

/-!
# Moving code to other places

Code can be moved to other places in a source text, in an expression, in a
stored function and on the whole heap. What is read off a heap does not depend
on the places, and what is made or written on it can be moved before or after.
-/

namespace TreeScript

namespace Payload

def revise (r : Revision) : Payload → Payload := mapFunctions (Function.revise r)

end Payload

namespace Function

variable (r : Revision) (fn : Function)

@[simp] theorem length_params_revise : (fn.revise r).params.length = fn.params.length := by
  simp [revise, Pattern.reviseAll_eq_map]

@[simp] theorem frameName_revise (h : Heap) : (fn.revise r).frameName h = fn.frameName h := rfl

theorem insertInto_moving (place : Option Loc → Option Loc) (fns : List Function) :
    (fn.revise (.moving place)).insertInto (fns.map (revise (.moving place))) =
      (fn.insertInto fns).map (revise (.moving place)) := by
  induction fns with
  | nil => rfl
  | cons g gs ih =>
    have hsame : Pattern.sameAll (g.revise (.moving place)).params
        (fn.revise (.moving place)).params = Pattern.sameAll g.params fn.params :=
      Pattern.sameAll_moving place g.params fn.params
    simp only [insertInto, List.map_cons, hsame]
    split
    · rfl
    · rw [ih, List.map_cons]

end Function

namespace Heap

def revise (r : Revision) (h : Heap) : Heap := h.mapFunctions (Function.revise r)

variable (r : Revision) (h : Heap)

@[simp] theorem payload_revise (v : Ref) : (h.revise r).payload v = (h.payload v).revise r :=
  payload_mapFunctions _ h v

@[simp] theorem class?_revise (v : Ref) : (h.revise r).class? v = h.class? v :=
  class?_mapFunctions _ h v

@[simp] theorem classOf_revise (v : Ref) : (h.revise r).classOf v = h.classOf v :=
  classOf_mapFunctions _ h v

@[simp] theorem className_revise (v : Ref) : (h.revise r).className v = h.className v :=
  className_mapFunctions _ h v

@[simp] theorem display_revise (v : Ref) : (h.revise r).display v = h.display v :=
  display_mapFunctions h v fun _ => rfl

@[simp] theorem display?_revise (room : Nat) (v : Ref) :
    (h.revise r).display? room v = h.display? room v :=
  display?_mapFunctions (f := Function.revise r) h v (fun _ => rfl) room

@[simp] theorem printed?_revise (v : Ref) (nesting : Nat) :
    (h.revise r).printed? v nesting = h.printed? v nesting :=
  print?_mapFunctions (f := Function.revise r) h v (fun _ => rfl)
    (fun fn => fn.length_params_revise r) (fun _ => rfl) _ _ _

theorem same?_moving (place : Option Loc → Option Loc) (room : Nat) (a b : Ref) :
    (h.revise (.moving place)).same? room a b = h.same? room a b :=
  same?_mapFunctions h (fun fn => fn.bare_of_moving place _ _ _) room a b

@[simp] theorem frameName_revise (fn : Function) : fn.frameName (h.revise r) = fn.frameName h := by
  unfold Function.frameName
  cases fn.self with
  | none => rfl
  | some self => simp

@[simp] theorem callName?_revise (room : Room) (callee : Ref) :
    Run.callName? room (h.revise r) callee = Run.callName? room h callee := by
  unfold Run.callName?
  rw [payload_revise, display?_revise]
  cases h.payload callee <;> simp [Payload.revise, Payload.mapFunctions]

theorem revise_moving_id : h.revise (.moving id) = h := by
  have hfn : Function.revise (.moving id) = id := by
    funext fn
    simp [Function.revise, Pattern.reviseAll_moving_id, Expr.revise_moving_id]
  have hpayload (p : Payload) : p.mapFunctions (Function.revise (.moving id)) = p := by
    cases p <;> simp [Payload.mapFunctions, hfn]
  simp [revise, mapFunctions, hpayload]

/-! ## Making and writing -/

theorem add_revise (o : Object) :
    (h.revise r).add { o with payload := o.payload.revise r } =
      ((h.add o).1, (h.add o).2.revise r) := by
  simp [add, revise, mapFunctions, Payload.revise]

theorem alloc_revise (p : Payload) :
    (h.revise r).alloc (p.revise r) = ((h.alloc p).1, (h.alloc p).2.revise r) :=
  add_revise r h { payload := p }

theorem allocInstance_revise (cls : Ref) :
    (h.revise r).allocInstance cls =
      ((h.allocInstance cls).1, (h.allocInstance cls).2.revise r) := by
  rw [allocInstance, revise, startingFields_mapFunctions]
  exact add_revise r h { payload := .instance cls, fields := h.startingFields cls }

/-- Changing one object commutes with moving code if it does so for every object. -/
theorem modify_revise (v : Ref) {f : Object → Object}
    (hf : ∀ o : Object, f { o with payload := o.payload.revise r } =
      { f o with payload := (f o).payload.revise r }) :
    (⟨(h.revise r).objects.modify v f⟩ : Heap) = revise r ⟨h.objects.modify v f⟩ := by
  unfold revise mapFunctions
  congr 1
  refine Array.ext (by simp) fun i hi hi' => ?_
  simp only [Array.getElem_modify, Array.getElem_map]
  split
  · exact hf _
  · rfl

theorem setField_revise (v : Ref) (name : String) (value : Ref) :
    (h.revise r).setField v name value = (h.setField v name value).revise r :=
  modify_revise r h v fun _ => rfl

theorem setMember_revise (v : Ref) (name : String) (value : Ref) :
    (h.revise r).setMember v name value = (h.setMember v name value).revise r := by
  unfold setMember
  rw [payload_revise]
  cases h.payload v <;> exact setField_revise r h _ name value

theorem updateClass_revise (cls : Ref) (f : ClassInfo → ClassInfo) :
    (h.revise r).updateClass cls f = (h.updateClass cls f).revise r :=
  modify_revise r h cls fun o => by obtain ⟨payload, fields⟩ := o; cases payload <;> rfl

theorem rebind_revise (callee : Ref) {f : Function → Function}
    (hf : ∀ fn, f (fn.revise r) = (f fn).revise r) :
    (h.revise r).rebind callee f = ((h.rebind callee f).1, (h.rebind callee f).2.revise r) := by
  unfold rebind
  rw [payload_revise]
  cases h.payload callee with
  | function fn =>
    show (h.revise r).alloc (.function (f (fn.revise r))) = _
    rw [hf]
    exact alloc_revise r h (.function (f fn))
  | overloads name fns =>
    show (h.revise r).alloc (.overloads name ((fns.map (Function.revise r)).map f)) = _
    have hfns : (fns.map (Function.revise r)).map f = (fns.map f).map (Function.revise r) := by
      simp [Function.comp_def, hf]
    rw [hfns]
    exact alloc_revise r h (.overloads name (fns.map f))
  | _ => rfl

theorem bindMethod_revise (method inst owner : Ref) :
    (h.revise r).bindMethod method inst owner =
      ((h.bindMethod method inst owner).1, (h.bindMethod method inst owner).2.revise r) := by
  unfold bindMethod
  rw [revise, isBindable_mapFunctions, class?_mapFunctions, ← revise]
  split
  · cases (h.class? owner).bind (·.superclass) with
    | none => exact rebind_revise r h method fun fn => rfl
    | some start =>
      have hview : (h.revise r).alloc (.superView inst start) =
          ((h.alloc (.superView inst start)).1, (h.alloc (.superView inst start)).2.revise r) :=
        alloc_revise r h (.superView inst start)
      simp only [hview]
      exact rebind_revise r _ method fun fn => rfl
  · rfl

theorem fieldOrMethod?_revise (inst start : Ref) (name : String) :
    (h.revise r).fieldOrMethod? inst start name =
      (h.fieldOrMethod? inst start name).map fun made => (made.1, made.2.revise r) := by
  unfold fieldOrMethod?
  rw [revise, fields_mapFunctions, findMethod?_mapFunctions, ← revise]
  cases (h.fields inst).get? name with
  | some value => rfl
  | none =>
    simp only [Option.map_map]
    congr 1
    funext ⟨owner, method⟩
    exact bindMethod_revise r h method inst owner

theorem member?_revise (v : Ref) (name : String) :
    (h.revise r).member? v name =
      (h.member? v name).map fun made => (made.1, made.2.revise r) := by
  unfold member?
  rw [payload_revise, classOf_revise]
  cases h.payload v with
  | classObject info =>
    simp only [Payload.revise, Payload.mapFunctions, revise, findMethod?_mapFunctions,
      findDefault?_mapFunctions]
    cases h.findMethod? v name with
    | some found => rfl
    | none => simp only [Option.map_map]; rfl
  | superView inst start => exact fieldOrMethod?_revise r h inst start name
  | _ => exact fieldOrMethod?_revise r h v _ name

/-! ## Defining -/

/-- Which functions a definition replaces does not depend on places. -/
theorem foldDefinition_moving (place : Option Loc → Option Loc) (existing : Option Ref)
    (fn : Function) :
    (h.revise (.moving place)).foldDefinition existing (fn.revise (.moving place)) =
      (h.foldDefinition existing fn).revise (.moving place) := by
  unfold foldDefinition
  cases existing with
  | none => rfl
  | some v =>
    simp only [Option.map_some, payload_revise]
    cases h.payload v with
    | function old =>
      have hsame : Pattern.sameAll (old.revise (.moving place)).params
          (fn.revise (.moving place)).params = Pattern.sameAll old.params fn.params :=
        Pattern.sameAll_moving place old.params fn.params
      simp only [Payload.revise, Payload.mapFunctions, hsame]
      split <;> rfl
    | overloads name fns =>
      simp only [Payload.revise, Payload.mapFunctions, Function.insertInto_moving]
    | _ => rfl

end Heap

/-! ## Whether places can be written -/

/-- Places that can be written move to places that can be written, and others to others. -/
abbrev KeepsWritable (place : Option Loc → Option Loc) : Prop :=
  ∀ l, (place l).all (·.isWritable) = l.all (·.isWritable)

theorem keepsWritable_id : KeepsWritable id := fun _ => rfl

section Writing

variable {place : Option Loc → Option Loc}

mutual

theorem Expr.isWritable_outline_moving (hplace : KeepsWritable place) : ∀ e : Expr,
    (e.revise (.moving place)).outline.isWritable = e.outline.isWritable
  | .number _ _ | .string _ _ | .template _ _ | .boolean _ _ | .null _ | .name _ _ => by
    simp [Expr.revise, Expr.outline, Outline.isWritable, Outline.areFieldsWritable, hplace]
  | .list _ items => by
    simp [Expr.revise, Expr.outline, Outline.isWritable, Outline.areFieldsWritable, hplace,
      Expr.areWritable_outlines_moving hplace items]
  | .assign _ t v => by
    simp [Expr.revise, Expr.outline, Outline.isWritable, Outline.areFieldsWritable, hplace,
      Expr.isWritable_outline_moving hplace t, Expr.isWritable_outline_moving hplace v]
  | .block _ body => by
    simp [Expr.revise, Expr.outline, Outline.isWritable, Outline.areFieldsWritable, hplace,
      Expr.areWritable_outlines_moving hplace body]
  | .branch _ c y n => by
    simp [Expr.revise, Expr.outline, Outline.isWritable, Outline.areFieldsWritable, hplace,
      Expr.isWritable_outline_moving hplace c, Expr.isWritable_outline_moving hplace y,
      Expr.isWritable_outlineOption_moving hplace n]
  | .loop _ c b => by
    simp [Expr.revise, Expr.outline, Outline.isWritable, Outline.areFieldsWritable, hplace,
      Expr.isWritable_outline_moving hplace c, Expr.isWritable_outline_moving hplace b]
  | .function _ n ps b => by
    simp [Expr.revise, Expr.outline, Outline.isWritable, Outline.areFieldsWritable, hplace,
      Pattern.areWritable_outlines_moving hplace ps, Expr.isWritable_outline_moving hplace b]
  | .call _ f args => by
    simp [Expr.revise, Expr.outline, Outline.isWritable, Outline.areFieldsWritable, hplace,
      Expr.isWritable_outline_moving hplace f, Expr.areWritable_outlines_moving hplace args]
  | .operator _ _ x y => by
    simp [Expr.revise, Expr.outline, Outline.isWritable, Outline.areFieldsWritable, hplace,
      Expr.isWritable_outline_moving hplace x, Expr.isWritable_outline_moving hplace y]
  | .unary _ _ e => by
    simp [Expr.revise, Expr.outline, Outline.isWritable, Outline.areFieldsWritable, hplace,
      Expr.isWritable_outline_moving hplace e]
  | .member _ t _ => by
    simp [Expr.revise, Expr.outline, Outline.isWritable, Outline.areFieldsWritable, hplace,
      Expr.isWritable_outline_moving hplace t]
  | .index _ t i => by
    simp [Expr.revise, Expr.outline, Outline.isWritable, Outline.areFieldsWritable, hplace,
      Expr.isWritable_outline_moving hplace t, Expr.isWritable_outline_moving hplace i]
  | .classDef _ _ p body => by
    simp [Expr.revise, Expr.outline, Outline.isWritable, Outline.areFieldsWritable, hplace,
      Expr.isWritable_outlineOption_moving hplace p, Expr.areWritable_outlines_moving hplace body]

theorem Expr.areWritable_outlines_moving (hplace : KeepsWritable place) : ∀ es : List Expr,
    Outline.areWritable (Expr.outlines (Expr.reviseAll (.moving place) es)) =
      Outline.areWritable (Expr.outlines es)
  | [] => rfl
  | e :: es => by
    simp [Expr.reviseAll, Expr.outlines, Outline.areWritable,
      Expr.isWritable_outline_moving hplace e,
      Expr.areWritable_outlines_moving hplace es]

theorem Expr.isWritable_outlineOption_moving (hplace : KeepsWritable place) : ∀ e : Option Expr,
    (Expr.outlineOption (Expr.reviseOption (.moving place) e)).isWritable =
      (Expr.outlineOption e).isWritable
  | none => rfl
  | some e => by
    simp [Expr.reviseOption, Expr.outlineOption, Expr.isWritable_outline_moving hplace e]

theorem Pattern.isWritable_moving (hplace : KeepsWritable place) : ∀ p : Pattern,
    (p.revise (.moving place)).isWritable = p.isWritable
  | .wildcard _ | .name _ _ => by
    simp [Pattern.revise, Pattern.isWritable, Pattern.outline, Outline.isWritable,
      Outline.areFieldsWritable, hplace]
  | .literal _ e => by
    simp [Pattern.revise, Pattern.isWritable, Pattern.outline, Outline.isWritable,
      Outline.areFieldsWritable, hplace, Expr.isWritable_outline_moving hplace e]
  | .typed _ _ c => by
    simp [Pattern.revise, Pattern.isWritable, Pattern.outline, Outline.isWritable,
      Outline.areFieldsWritable, hplace, Expr.isWritable_outline_moving hplace c]
  | .list _ items => by
    simp [Pattern.revise, Pattern.isWritable, Pattern.outline, Outline.isWritable,
      Outline.areFieldsWritable, hplace, Pattern.areWritable_outlines_moving hplace items]

theorem Pattern.areWritable_outlines_moving (hplace : KeepsWritable place) : ∀ ps : List Pattern,
    Outline.areWritable (Pattern.outlines (Pattern.reviseAll (.moving place) ps)) =
      Outline.areWritable (Pattern.outlines ps)
  | [] => rfl
  | p :: ps => by
    have hp := Pattern.isWritable_moving hplace p
    unfold Pattern.isWritable at hp
    simp [Pattern.reviseAll, Pattern.outlines, Outline.areWritable, hp,
      Pattern.areWritable_outlines_moving hplace ps]

end

end Writing

end TreeScript
