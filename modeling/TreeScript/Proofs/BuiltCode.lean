import TreeScript.Document.Build
import TreeScript.Proofs.Ingredients

/-!
# Code that is built

Building refuses an assignment to anything but a name or a member. So all code
that is built from data, in whatever depth, assigns to names and members only.
-/

namespace TreeScript

/-- An ingredient that code built from data may have. -/
def Ingredient.IsBuilt (i : Ingredient) : Prop := i ≠ .oddTarget

namespace Build

section Spec

variable {α β ι : Type} {Q : α → Prop} {S : β → Prop}

/-- What building gives, if it gives anything, has a property. -/
def Yields (Q : α → Prop) (x : Build α) : Prop := ∀ nans a nans', x nans = .ok (a, nans') → Q a

theorem Yields.pure {a : α} (h : Q a) : Yields Q (pure a) := by
  intro nans a' nans' hrun
  cases hrun
  exact h

theorem Yields.throw (fault : BuildFault) : Yields Q (throw fault : Build α) := by
  intro nans a nans' hrun
  cases hrun

theorem Yields.bind {x : Build α} {f : α → Build β} (hx : Yields Q x)
    (hf : ∀ a, Q a → Yields S (f a)) : Yields S (x >>= f) := by
  intro nans b nans' hrun
  change (x nans >>= fun p => f p.1 p.2) = _ at hrun
  cases hxn : x nans with
  | error fault =>
    rw [hxn] at hrun
    cases hrun
  | ok p =>
    rw [hxn] at hrun
    exact hf p.1 (hx nans p.1 p.2 hxn) p.2 b nans' hrun

/-- Most parts of a node have no bearing on it. -/
theorem Yields.after {x : Build α} {f : α → Build β} (hf : ∀ a, Yields S (f a)) :
    Yields S (x >>= f) :=
  Yields.bind (Q := fun _ => True) (fun _ _ _ _ => trivial) fun a _ => hf a

theorem Yields.mapM {f : ι → Build α} {is : List ι} (h : ∀ i ∈ is, Yields Q (f i)) :
    Yields (fun as => ∀ a ∈ as, Q a) (is.mapM f) := by
  induction is with
  | nil => exact .pure fun _ ha => absurd ha List.not_mem_nil
  | cons i is ih =>
    rw [List.mapM_cons]
    rw [List.forall_mem_cons] at h
    exact h.1.bind fun a ha => (ih h.2).bind fun as has => .pure (List.forall_mem_cons.mpr ⟨ha, has⟩)

theorem bind_ok {x : Build α} {f : α → Build β} {a : α} {k n : Nat} (h : x k = .ok (a, n)) :
    (x >>= f) k = f a n := by
  change (x k >>= fun p => f p.1 p.2) = _
  rw [h]
  rfl

theorem mapM_nil_ok (f : ι → Build α) (nans : Nat) : [].mapM f nans = .ok ([], nans) := rfl

theorem mapM_cons_ok {f : ι → Build α} {i : ι} {is : List ι} {a : α} {as : List α}
    {nans nans' nans'' : Nat} (h : f i nans = .ok (a, nans'))
    (hs : is.mapM f nans' = .ok (as, nans'')) :
    (i :: is).mapM f nans = .ok (a :: as, nans'') := by
  rw [List.mapM_cons, bind_ok h, bind_ok hs]
  rfl

end Spec

variable {s : Site} {α : Type} {Q : α → Prop} {f : Data → Build α}

theorem Site.yields_child (name : String) (hf : ∀ d, Yields Q (f d)) :
    Yields Q (s.required name >>= f) :=
  .after hf

theorem Site.yields_optionalChild (name : String) (hf : ∀ d, Yields Q (f d)) :
    Yields (fun e => ∀ e' ∈ e, Q e')
      (match s.optional name with
        | some d => some <$> f d
        | none => pure none) := by
  cases s.optional name with
  | none => exact .pure fun _ ha => absurd ha (Option.not_mem_none _)
  | some d => exact (hf d).bind fun a ha => .pure fun a' ha' => Option.mem_some.mp ha' ▸ ha

theorem Site.yields_children (name : String) (fault : Data → BuildFault)
    (hf : ∀ d, Yields Q (f d)) :
    Yields (fun as => ∀ a ∈ as, Q a) (s.items name fault >>= fun items => items.mapM f) :=
  .after fun _ => .mapM fun d _ => hf d

/-! ## Code -/

/-- With so much room or less, building gives code that is built. -/
structure YieldsWithin (origin : String) (parts : Parts) (room : Nat) : Prop where
  expr : ∀ n ≤ room, ∀ d, Yields (Expr.MadeOf Ingredient.IsBuilt) (expr origin d parts n)
  pattern : ∀ n ≤ room, ∀ d, Yields (Pattern.MadeOf Ingredient.IsBuilt) (pattern origin d parts n)

section Step

variable {origin : String} {parts : Parts} {room : Nat} (hbelow : YieldsWithin origin parts room)

include hbelow

theorem yields_node {data : Data} {entries : List (Data × Data)}
    (hdata : parts.look data = .mapping entries) :
    Yields (Expr.MadeOf Ingredient.IsBuilt) (expr origin data parts (room + 1)) := by
  rw [expr, hdata]
  have hchild := hbelow.expr room (Nat.le_refl _)
  have hoptional := hbelow.expr (room - 1) (Nat.sub_le _ _)
  have hitem := hbelow.expr (room - 2) (Nat.sub_le _ _)
  have hpattern := hbelow.pattern (room - 1) (Nat.sub_le _ _)
  refine .after fun loc => .after fun kind => ?_
  have hloc : Ingredient.IsBuilt (.place loc) := Ingredient.noConfusion
  cases kind with
  | number | string | name | boolean => exact .after fun _ => .pure (Expr.madeOf_iff.mpr hloc)
  | template => exact .after fun _ => .pure (Expr.madeOf_iff.mpr ⟨hloc, Ingredient.noConfusion⟩)
  | null => exact .pure (Expr.madeOf_iff.mpr hloc)
  | assign =>
    refine (Site.yields_child _ hchild).bind fun target htarget => ?_
    split
    · next hassignable =>
      refine (Site.yields_child _ hchild).bind fun value hvalue => .pure ?_
      have hnone : ∀ i ∈ target.targetIngredients, i.IsBuilt := by
        simp [Expr.targetIngredients, hassignable]
      exact Expr.madeOf_iff.mpr ⟨hloc, hnone, htarget, hvalue⟩
    · exact .throw _
  | block | list =>
    exact (Site.yields_children _ _ hitem).bind fun _ hitems =>
      .pure (Expr.madeOf_iff.mpr ⟨hloc, hitems⟩)
  | branch =>
    refine (Site.yields_child _ hchild).bind fun condition hcondition => ?_
    refine (Site.yields_child _ hchild).bind fun yes hyes => ?_
    refine (Site.yields_optionalChild _ hoptional).bind fun no hno => .pure ?_
    exact Expr.madeOf_iff.mpr ⟨hloc, hcondition, hyes, hno⟩
  | loop | index =>
    refine (Site.yields_child _ hchild).bind fun _ hfirst => ?_
    refine (Site.yields_child _ hchild).bind fun _ hsecond => .pure ?_
    exact Expr.madeOf_iff.mpr ⟨hloc, hfirst, hsecond⟩
  | function =>
    refine .after fun name => .after fun items => ?_
    refine (Yields.mapM fun d _ => hpattern d).bind fun params hparams => ?_
    refine (Site.yields_child _ hchild).bind fun body hbody => .pure ?_
    exact Expr.madeOf_iff.mpr ⟨hloc, Ingredient.noConfusion, hparams, hbody⟩
  | call =>
    refine (Site.yields_child _ hchild).bind fun callee hcallee => ?_
    refine (Site.yields_children _ _ hitem).bind fun args hargs => .pure ?_
    exact Expr.madeOf_iff.mpr ⟨hloc, hcallee, hargs⟩
  | operator =>
    refine .after fun op => (Site.yields_child _ hchild).bind fun left hleft => ?_
    refine (Site.yields_child _ hchild).bind fun right hright => .pure ?_
    exact Expr.madeOf_iff.mpr ⟨hloc, Ingredient.noConfusion, hleft, hright⟩
  | unary =>
    refine .after fun op => (Site.yields_child _ hchild).bind fun operand hoperand => .pure ?_
    exact Expr.madeOf_iff.mpr ⟨hloc, Ingredient.noConfusion, hoperand⟩
  | member =>
    refine (Site.yields_child _ hchild).bind fun target htarget => .after fun name => .pure ?_
    exact Expr.madeOf_iff.mpr ⟨hloc, htarget⟩
  | classDef =>
    refine .after fun name =>
      (Site.yields_optionalChild _ hoptional).bind fun superclass hsuperclass => ?_
    refine (Site.yields_children _ _ hitem).bind fun body hbody => .pure ?_
    exact Expr.madeOf_iff.mpr ⟨hloc, hsuperclass, hbody⟩

theorem yields_parameter {data : Data} {entries : List (Data × Data)}
    (hdata : parts.look data = .mapping entries) :
    Yields (Pattern.MadeOf Ingredient.IsBuilt) (pattern origin data parts (room + 1)) := by
  rw [pattern, hdata]
  have hexpr := hbelow.expr room (Nat.le_refl _)
  have hpattern := hbelow.pattern (room - 1) (Nat.sub_le _ _)
  refine .after fun loc => .after fun kind => ?_
  cases kind with
  | wildcard => exact .pure (by simp [Pattern.MadeOf, Pattern.ingredients])
  | name => exact .after fun _ => .pure (by simp [Pattern.MadeOf, Pattern.ingredients])
  | literal => exact .after fun d => (hexpr d).bind fun e he => .pure he
  | typed => exact .after fun _ => .after fun d => (hexpr d).bind fun e he => .pure he
  | list =>
    refine .after fun items => (Yields.mapM fun d _ => hpattern d).bind fun ps hps => .pure ?_
    exact Pattern.forall_allIngredients.mpr hps

theorem YieldsWithin.succ : YieldsWithin origin parts (room + 1) := by
  refine ⟨fun n hn data => ?_, fun n hn data => ?_⟩
  · rcases Nat.le_succ_iff.mp hn with hle | rfl
    · exact hbelow.expr n hle data
    · cases hdata : parts.look data with
      | mapping entries => exact yields_node hbelow hdata
      | integer i =>
        rw [Build.expr, hdata]
        dsimp only
        cases Decimal.ofInteger? i with
        | some x => exact .pure (Expr.madeOf_iff.mpr Ingredient.noConfusion)
        | none => exact .throw _
      | null | boolean | float =>
        rw [Build.expr, hdata]
        exact .pure (Expr.madeOf_iff.mpr Ingredient.noConfusion)
      | _ =>
        rw [Build.expr, hdata]
        exact .throw _
  · rcases Nat.le_succ_iff.mp hn with hle | rfl
    · exact hbelow.pattern n hle data
    · cases hdata : parts.look data with
      | mapping entries => exact yields_parameter hbelow hdata
      | text name =>
        rw [Build.pattern, hdata]
        refine .pure ?_
        split <;> simp [Pattern.MadeOf, Pattern.ingredients]
      | _ =>
        rw [Build.pattern, hdata]
        exact .throw _

end Step

/-- By induction on the room: the parts of a node are built in less of it. -/
theorem yieldsWithin (origin : String) (parts : Parts) (room : Nat) :
    YieldsWithin origin parts room := by
  induction room with
  | zero =>
    refine ⟨fun n hn data => ?_, fun n hn data => ?_⟩
    · obtain rfl := Nat.le_zero.mp hn
      rw [expr]
      exact .throw _
    · obtain rfl := Nat.le_zero.mp hn
      rw [pattern]
      exact .throw _
  | succ room ih => exact ih.succ

theorem yields_expr (origin : String) (data : Data) (parts : Parts) (calls : Nat) :
    Yields (Expr.MadeOf Ingredient.IsBuilt) (expr origin data parts calls) :=
  (yieldsWithin origin parts calls).expr calls (Nat.le_refl _) data

theorem yields_program (origin : String) (data : Data) (parts : Parts) (room : Nat) :
    Yields (fun es => ∀ e ∈ es, e.MadeOf Ingredient.IsBuilt) (program origin data parts room) := by
  have hone : Yields (fun es => ∀ e ∈ es, e.MadeOf Ingredient.IsBuilt)
      (do return [← expr origin data parts room] : Build (List Expr)) :=
    (yields_expr origin data parts room).bind fun e he => .pure (List.forall_mem_singleton.mpr he)
  unfold program
  cases parts.look data with
  | null => exact .pure fun _ he => absurd he List.not_mem_nil
  | list nodes => exact .mapM fun d _ => yields_expr origin d parts (room - 1)
  | _ => exact hone

end Build

end TreeScript
