import TreeScript.Proofs.Correspondence.Call

/-!
# Evaluation corresponds to evaluation of moved code

Under every correspondence, evaluating an expression is related to evaluating it
in other places. One level of evaluation is settled from the level below, and
the rest is induction on how deep evaluations may nest.
-/

namespace TreeScript

namespace Run

theorem readMember_eq (room : Room) (v : Ref) (name : String) :
    readMember room v name =
      (look (fun h => (h.member? v name).isSome) >>= fun found =>
        if found then make fun h => (h.member? v name).getD (v, h)
        else display room v >>= fun shown => complain (.unboundMember name shown)) := by
  funext m
  rw [look_bind]
  unfold readMember
  cases hmember : m.heap.member? v name with
  | some made => simp [make, hmember]
  | none => rfl

end Run

namespace Correspondence

open Run

variable {C : Correspondence}

/-! ## Reading -/

section Reading

theorem rel_fillTemplate (room : Room) (template : String) :
    C.Rel (fillTemplate room template) (fillTemplate room template) := by
  refine C.bind (C.lookScope _) fun bound => ?_
  have hshown (h : Heap) : (h.revise C.moved).display? room.shown = h.display? room.shown :=
    funext (h.display?_revise C.moved room.shown)
  refine C.bind (C.lookDeep fun h => by rw [hshown]) fun _ => ?_
  refine C.bind (C.lookScope _) fun entries => ?_
  refine C.look_bind (fun h => by simp) fun table => ?_
  rcases Template.fill template ⟨table⟩ with (fault | (key | key)) | text
  · exact C.fail fun _ _ => Fault.noConfusion
  · exact C.complain _
  · exact C.fail fun _ _ => Fault.noConfusion
  · exact C.alloc (.string text)

theorem rel_lookup (name : String) : C.Rel (lookup name) (lookup name) := by
  refine C.bind (C.lookScope _) fun v? => ?_
  cases v? with
  | some v => exact C.pure v
  | none => exact C.complain _

theorem rel_readMember (room : Room) (v : Ref) (name : String) :
    C.Rel (readMember room v name) (readMember room v name) := by
  rw [readMember_eq]
  refine C.look_bind (fun h => by simp [Heap.member?_revise]) fun found => ?_
  split
  · refine C.make fun h => ?_
    rw [← moved, Heap.member?_revise]
    cases h.member? v name <;> rfl
  · exact C.bind (C.display room v) fun shown => C.complain _

theorem rel_asNumber (v : Ref) : C.Rel (asNumber v) (asNumber v) := by
  refine C.payload_bind v fun p => ?_
  cases p with
  | number x => exact C.pure x
  | _ => exact C.complain _

theorem rel_asList (v : Ref) : C.Rel (asList v) (asList v) := by
  refine C.payload_bind v fun p => ?_
  cases p with
  | list items => exact C.pure items
  | _ => exact C.complain _

theorem rel_asClass (v : Ref) : C.Rel (asClass v) (asClass v) := by
  refine C.look_bind (fun h => by simp) fun found => ?_
  split
  · exact C.pure v
  · exact C.complain _

theorem rel_ofExcept_apply (op : Arithmetic) (x y : Float) :
    C.Rel (ofExcept (op.apply x y)) (ofExcept (op.apply x y)) := by
  cases h : op.apply x y with
  | ok z => exact C.pure z
  | error e =>
    refine C.fail ?_
    rcases Arithmetic.fault_of_apply h with rfl | rfl | rfl <;> exact fun _ _ => Fault.noConfusion

theorem rel_boolean (b : Bool) : C.Rel (boolean b) (boolean b) := C.pure _

end Reading

/-! ## Defining -/

section Defining

/-- What a definition makes is allocated with its code in other places. -/
theorem rel_allocDefinition {α : Type} (existing : Option Ref) (fn : Function) {k k' : Ref → Run α}
    (hk : ∀ v, C.Rel (k v) (k' v)) :
    C.Rel (Run.look (·.foldDefinition existing fn) >>= fun p => Run.alloc p >>= k)
      (Run.look (·.foldDefinition existing (fn.revise C.moved)) >>= fun p => Run.alloc p >>= k') :=
  C.look (fun h => h.foldDefinition_moving C.place existing fn) fun p => C.bind (C.alloc p) hk

theorem rel_defineFunction (fn : Function) :
    C.Rel (defineFunction fn) (defineFunction (fn.revise C.moved)) := by
  refine C.bind (C.lookScope _) fun existing => ?_
  refine rel_allocDefinition existing fn fun v => ?_
  exact C.bind (C.changeScope _) fun _ => C.pure v

theorem rel_defineMethod (cls : Ref) (fn : Function) :
    C.Rel (defineMethod cls fn) (defineMethod cls (fn.revise C.moved)) := by
  refine C.look_bind (fun h => Heap.methodOf?_mapFunctions _ h cls fn.name) fun existing => ?_
  refine rel_allocDefinition existing fn fun v => ?_
  exact C.changeHeap fun h => h.updateClass_revise C.moved cls _

theorem rel_defineDefault (cls : Ref) (name : String) (v : Ref) :
    C.Rel (defineDefault cls name v) (defineDefault cls name v) :=
  C.changeHeap fun h => h.updateClass_revise C.moved cls _

end Defining

/-! ## One level -/

section Level

theorem rel_repeatWhile {condition condition' : Run Bool} {body body' : Run Unit}
    (hcondition : C.Rel condition condition') (hbody : C.Rel body body') (rounds : Nat) :
    C.Rel (repeatWhile condition body rounds) (repeatWhile condition' body' rounds) := by
  induction rounds with
  | zero => exact C.exhausted
  | succ rounds ih =>
    refine C.bind hcondition fun holds => ?_
    split
    · exact C.bind hbody fun _ => ih
    · exact C.pure ()

/-- Both operands are evaluated, and then what is made of them. -/
theorem rel_operands {α : Type} {operand operand' : Expr → Run α} {k k' : α → α → Run Ref}
    (hoperand : ∀ e, C.Rel (operand e) (operand' (e.revise C.moved)))
    (hk : ∀ x y, C.Rel (k x y) (k' x y)) (left right : Expr) :
    C.Rel (operand left >>= fun x => operand right >>= k x)
      (operand' (left.revise C.moved) >>= fun x => operand' (right.revise C.moved) >>= k' x) :=
  C.bind (hoperand left) fun x => C.bind (hoperand right) (hk x)

variable {evaluate evaluate' : Evaluator} (heval : C.Evaluates evaluate evaluate')

include heval

theorem rel_evaluateAll (es : List Expr) :
    C.Rel (evaluateAll evaluate es) (evaluateAll evaluate' (Expr.reviseAll C.moved es)) := by
  induction es with
  | nil => exact C.pure []
  | cons e es ih => exact C.bind (heval.run e) fun v => C.bind ih fun vs => C.pure (v :: vs)

theorem rel_evaluateLast (last : Ref) (es : List Expr) :
    C.Rel (evaluateLast evaluate last es)
      (evaluateLast evaluate' last (Expr.reviseAll C.moved es)) := by
  induction es generalizing last with
  | nil => exact C.pure last
  | cons e es ih => exact C.bind (heval.run e) ih

theorem rel_evaluateTruth (e : Expr) :
    C.Rel (evaluateTruth evaluate e) (evaluateTruth evaluate' (e.revise C.moved)) :=
  C.bind (heval.run e) fun v => C.look_same fun h => Heap.isTruthy_mapFunctions _ h v

theorem rel_evaluateNumber (e : Expr) :
    C.Rel (evaluateNumber evaluate e) (evaluateNumber evaluate' (e.revise C.moved)) :=
  C.bind (heval.run e) rel_asNumber

theorem rel_evaluateOperator (op : Operator) (left right : Expr) :
    C.Rel (evaluateOperator evaluate op left right)
      (evaluateOperator evaluate' op (left.revise C.moved) (right.revise C.moved)) := by
  have hnumber := rel_evaluateNumber heval
  have htruth := rel_evaluateTruth heval
  cases op with
  | add =>
    refine rel_operands heval.run (fun l r => ?_) left right
    have hjoin : C.Rel
        (Run.display evaluate.room l >>= fun s => Run.display evaluate.room r >>= fun t =>
          Run.alloc (.string (s ++ t)))
        (Run.display evaluate'.room l >>= fun s => Run.display evaluate'.room r >>= fun t =>
          Run.alloc (.string (s ++ t))) := by
      rw [heval.room]
      exact C.bind (C.display _ l) fun s => C.bind (C.display _ r) fun t => C.alloc (.string (s ++ t))
    refine C.look (t := fun (p, q) => (p.revise C.moved, q.revise C.moved))
      (fun h => by simp [moved]) fun (p, q) => ?_
    cases p with
    | number x =>
      cases q with
      | number y => exact C.allocNumber _
      | _ => exact hjoin
    | _ => exact hjoin
  | arithmetic op =>
    refine rel_operands hnumber (fun x y => ?_) left right
    exact C.bind (rel_ofExcept_apply op x y) C.allocNumber
  | comparison op => exact rel_operands hnumber (fun x y => rel_boolean _) left right
  | equal =>
    refine rel_operands heval.run (fun l r => ?_) left right
    rw [heval.room]
    exact C.bind (C.lookDeep fun h => h.same?_moving C.place _ l r) rel_boolean
  | unequal =>
    refine rel_operands heval.run (fun l r => ?_) left right
    rw [heval.room]
    exact C.bind (C.lookDeep fun h => h.same?_moving C.place _ l r) fun same => rel_boolean !same
  | both =>
    refine C.bind (htruth left) fun truth => ?_
    split
    · exact C.bind (htruth right) rel_boolean
    · exact rel_boolean false
  | either =>
    refine C.bind (htruth left) fun truth => ?_
    split
    · exact rel_boolean true
    · exact C.bind (htruth right) rel_boolean
  | isA =>
    refine C.bind (heval.run left) fun v => C.bind (heval.run right) fun w => ?_
    refine C.bind (rel_asClass w) fun c => ?_
    exact C.look_bind (fun h => by simp [Heap.revise]) rel_boolean

theorem rel_evaluateAssign (target value : Expr) :
    C.Rel (evaluateAssign evaluate target value)
      (evaluateAssign evaluate' (target.revise C.moved) (value.revise C.moved)) := by
  cases target with
  | name l name =>
    refine C.bind (heval.run value) fun v => ?_
    exact C.bind (C.changeScope _) fun _ => C.pure v
  | member l owner name =>
    refine C.bind (heval.run owner) fun o => C.bind (heval.run value) fun v => ?_
    exact C.bind (C.changeHeap fun h => h.setMember_revise C.moved o name v) fun _ => C.pure v
  | _ => exact C.complain _

theorem rel_evaluateIndex (target index : Expr) :
    C.Rel (evaluateIndex evaluate target index)
      (evaluateIndex evaluate' (target.revise C.moved) (index.revise C.moved)) := by
  refine C.bind (heval.run target) fun v => C.bind (rel_asList v) fun items => ?_
  refine C.bind (rel_evaluateNumber heval index) fun x => ?_
  cases Decimal.integer? x with
  | none => exact C.complain _
  | some i =>
    dsimp only
    split
    · exact C.pure _
    · exact C.complain _

theorem rel_evaluateSuperclass (e : Option Expr) :
    C.Rel (evaluateSuperclass evaluate e)
      (evaluateSuperclass evaluate' (Expr.reviseOption C.moved e)) := by
  cases e with
  | none => exact C.pure _
  | some e => exact C.bind (heval.run e) rel_asClass

theorem rel_defineMembers (cls : Ref) (es : List Expr) :
    C.Rel (defineMembers evaluate cls es)
      (defineMembers evaluate' cls (Expr.reviseAll C.moved es)) := by
  induction es with
  | nil => exact C.pure ()
  | cons e es ih =>
    have heffect := C.bind (heval.run e) fun _ => ih
    cases e with
    | function l name params body =>
      cases name with
      | none => exact heffect
      | some name =>
        refine C.bind (C.lookScope _) fun captured => ?_
        exact C.bind (rel_defineMethod cls _) fun _ => ih
    | assign l target value =>
      cases target with
      | name l name =>
        refine C.bind (heval.run value) fun v => ?_
        exact C.bind (rel_defineDefault cls name v) fun _ => ih
      | _ => exact heffect
    | _ => exact heffect

theorem rel_evaluateClass (name : String) (superclass : Option Expr) (body : List Expr) :
    C.Rel (evaluateClass evaluate name superclass body)
      (evaluateClass evaluate' name (Expr.reviseOption C.moved superclass)
        (Expr.reviseAll C.moved body)) := by
  refine C.bind (rel_evaluateSuperclass heval superclass) fun parent => ?_
  refine C.bind (C.alloc (.classObject { name, superclass := some parent })) fun cls => ?_
  refine C.bind (C.inNewFrame name (rel_defineMembers heval cls body)) fun _ => ?_
  exact C.bind (C.changeScope _) fun _ => C.pure cls

theorem rel_evaluateLevel (rounds : Nat) (e : Expr) :
    C.Rel (evaluateLevel evaluate rounds e) (evaluateLevel evaluate' rounds (e.revise C.moved)) := by
  cases e with
  | number l literal => exact C.allocNumber literal.value
  | string l s => exact C.alloc (.string s)
  | template l text =>
    unfold evaluateLevel
    simp only [Expr.revise, heval.room]
    exact rel_fillTemplate _ text
  | boolean l b => exact rel_boolean b
  | null l => exact C.pure _
  | list l items => exact C.bind (rel_evaluateAll heval items) fun vs => C.alloc (.list vs)
  | name l name => exact rel_lookup name
  | assign l target value => exact rel_evaluateAssign heval target value
  | block l body => exact C.inNewFrame "block" (rel_evaluateLast heval Heap.nullRef body)
  | branch l condition yes no =>
    refine C.bind (rel_evaluateTruth heval condition) fun truth => ?_
    split
    · exact heval.run yes
    · cases no with
      | some e => exact heval.run e
      | none => exact C.pure _
  | loop l condition body =>
    have hbody := C.bind (heval.run body) fun _ => C.pure ()
    refine C.bind (rel_repeatWhile (rel_evaluateTruth heval condition) hbody rounds) fun _ => ?_
    exact C.pure _
  | function l name params body =>
    refine C.bind (C.lookScope _) fun captured => ?_
    cases name with
    | none => exact C.alloc (.function { name := "lambda", params, body, captured := some captured })
    | some name => exact rel_defineFunction _
  | call l callee args =>
    refine C.bind (heval.run callee) fun f => ?_
    exact C.bind (rel_evaluateAll heval args) fun vs => rel_call heval f vs (some l)
  | operator l symbol left right =>
    unfold evaluateLevel
    simp only [Expr.revise]
    cases Operator.ofSymbol? symbol with
    | some op => exact rel_evaluateOperator heval op left right
    | none => exact C.complain _
  | unary l symbol operand =>
    unfold evaluateLevel
    simp only [Expr.revise]
    cases UnaryOperator.ofSymbol? symbol with
    | none => exact C.complain _
    | some op =>
      cases op with
      | negate => exact C.bind (rel_evaluateNumber heval operand) fun x => C.allocNumber (-x)
      | not => exact C.bind (rel_evaluateTruth heval operand) fun truth => rel_boolean !truth
  | member l target name =>
    unfold evaluateLevel
    simp only [Expr.revise, heval.room]
    exact C.bind (heval.run target) fun v => rel_readMember _ v name
  | index l target index => exact rel_evaluateIndex heval target index
  | classDef l name superclass body => exact rel_evaluateClass heval name superclass body

end Level

/-! ## All levels -/

theorem rel_evaluateAt (limits : Limits) (nesting : Nat) :
    C.Evaluates (evaluateAt limits nesting) (evaluateAt limits nesting) := by
  induction nesting with
  | zero => exact ⟨fun e => C.entered (C.fail fun _ _ => Fault.noConfusion), rfl⟩
  | succ nesting ih =>
    refine ⟨fun e => ?_, rfl⟩
    simp only [evaluateAt, Expr.loc_revise]
    exact C.entered (C.bind (C.setPlace e.loc) fun _ => rel_evaluateLevel ih limits.rounds e)

theorem rel_evaluate (limits : Limits) : C.Evaluates (evaluate limits) (evaluate limits) :=
  rel_evaluateAt limits limits.nesting

end Correspondence

end TreeScript
