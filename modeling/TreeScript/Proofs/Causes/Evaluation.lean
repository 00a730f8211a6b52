import TreeScript.Proofs.Causes.Call
import TreeScript.Proofs.Settling

/-!
# Causes of faults of evaluation

One level of evaluation fails with a cause in the code if the levels below do,
and it stands at the place of its expression until a part of that is evaluated.
The rest is induction on how deep evaluations may nest.
-/

namespace TreeScript

namespace Run

variable {K : Ingredient → Prop} {S : Standing} {m : Machine}

/-! ## Reading -/

section Reading

theorem caused_fillTemplate (room : Room) (text : String) (hplace : K (.place m.place))
    (htemplate : K .template) : Caused K S (fillTemplate room text) m := by
  refine .after (steps_lookScope _) fun bound m₁ hm₁ => .after (steps_lookDeep _) fun _ m₂ hm₂ => ?_
  refine .after (steps_lookScope _) fun entries m₃ hm₃ => .after (steps_look _) fun table m₄ hm₄ => ?_
  have hplace₄ : K (.place m₄.place) := by
    rw [hm₄, hm₃, hm₂, hm₁]
    exact hplace
  rcases Template.fill text ⟨table⟩ with (fault | (key | key)) | text
  · exact caused_fail (.inr hplace₄) (.inl rfl) htemplate
  · exact caused_complain (.inr hplace₄) (.inl rfl) trivial
  · exact caused_fail (.inr hplace₄) (.inl rfl) htemplate
  · exact caused_allocPlain rfl m₄

theorem caused_lookup (name : String) (hplace : K (.place m.place)) : Caused K S (lookup name) m := by
  refine .after (steps_lookScope _) fun v? m' hm' => ?_
  cases v? with
  | some v => exact caused_pure v m'
  | none => exact caused_complain (.inr (hm' ▸ hplace)) (.inl rfl) trivial

theorem caused_readMember (room : Room) (v : Ref) (name : String) (hafter : S.after m.place) :
    Caused K S (readMember room v name) m := by
  intro hm
  unfold readMember
  split
  · next hmember => exact ⟨hm.stores.member hmember, hm.stands⟩
  · refine Caused.after (steps_lookDeep _) (fun _ m' hm' => ?_) hm
    exact caused_complain (.inl rfl) (.inr (hm' ▸ hafter)) trivial

theorem caused_asNumber (v : Ref) (m : Machine) : Caused K S (asNumber v) m := by
  refine .look ?_
  split
  · exact caused_pure _ m
  · exact caused_complain (.inl rfl) (.inl rfl) trivial

theorem caused_asList (v : Ref) (m : Machine) : Caused K S (asList v) m := by
  refine .look ?_
  split
  · exact caused_pure _ m
  · exact caused_complain (.inl rfl) (.inl rfl) trivial

theorem caused_asClass (v : Ref) (m : Machine) : Caused K S (asClass v) m := by
  refine .look ?_
  split
  · exact caused_pure v m
  · exact caused_complain (.inl rfl) (.inl rfl) trivial

/-- Arithmetic fails only where code divides or takes powers. -/
theorem caused_arithmetic {op : Arithmetic} {symbol : String}
    (hop : Operator.ofSymbol? symbol = some (.arithmetic op)) (hsymbol : K (.operator symbol))
    (x y : Float) (hafter : S.after m.place) : Caused K S (ofExcept (op.apply x y)) m := by
  have hdivides : op = .div → symbol = "/" := by
    rintro rfl
    unfold Operator.ofSymbol? at hop
    split at hop <;> first | rfl | cases hop
  have hraises : op = .pow → symbol = "^" := by
    rintro rfl
    unfold Operator.ofSymbol? at hop
    split at hop <;> first | rfl | cases hop
  cases op with
  | sub => exact caused_pure _ m
  | mul => exact caused_pure _ m
  | div =>
    rw [hdivides rfl] at hsymbol
    unfold Arithmetic.apply
    dsimp only
    split
    · exact caused_fail (.inl rfl) (.inr hafter) hsymbol
    · exact caused_pure _ m
  | pow =>
    rw [hraises rfl] at hsymbol
    unfold Arithmetic.apply power
    dsimp only
    split
    · split
      · exact caused_fail (.inl rfl) (.inr hafter) hsymbol
      · exact caused_fail (.inl rfl) (.inr hafter) hsymbol
    · exact caused_pure _ m

/-- An operator is unknown if it is written but stands for nothing. -/
theorem caused_unknownOperator {symbol : String} (hplace : K (.place m.place))
    (hsymbol : K (.operator symbol) ∧ Operator.ofSymbol? symbol = none ∨
      K (.unary symbol) ∧ UnaryOperator.ofSymbol? symbol = none) :
    Caused K S (complain (.unknownOperator symbol) : Run Ref) m :=
  caused_complain (.inr hplace) (.inl rfl) hsymbol

theorem caused_boolean (b : Bool) (m : Machine) : Caused K S (boolean b) m := caused_pure _ m

end Reading

/-! ## Defining -/

section Defining

theorem caused_defineFunction {fn : Function} (hfn : fn.MadeOf K) (m : Machine) :
    Caused K S (defineFunction fn) m := by
  refine .after (steps_lookScope _) fun existing m' _ => .of_stores fun hm' => .look ?_
  refine .after (steps_alloc (hm'.foldDefinition hfn existing)) fun v _ _ => ?_
  exact .after (steps_changeScope _) fun _ m'' _ => caused_pure v m''

theorem caused_defineMethod (cls : Ref) {fn : Function} (hfn : fn.MadeOf K) (m : Machine) :
    Caused K S (defineMethod cls fn) m := by
  refine .look (.of_stores fun hm => .look ?_)
  refine .after (steps_alloc (hm.foldDefinition hfn _)) fun v m' _ => ?_
  exact (steps_changeHeap fun h hh => hh.updateClass cls _).caused m'

theorem caused_defineDefault (cls : Ref) (name : String) (v : Ref) (m : Machine) :
    Caused K S (defineDefault cls name v) m :=
  (steps_changeHeap fun _ hh => hh.updateClass cls _).caused m

end Defining

/-! ## One level -/

section Level

theorem caused_repeatWhile {condition : Run Bool} {body : Run Unit}
    (hcondition : ∀ m, Caused K S condition m) (hbody : ∀ m, Caused K S body m) (rounds : Nat)
    (m : Machine) : Caused K S (repeatWhile condition body rounds) m := by
  induction rounds generalizing m with
  | zero => exact caused_exhausted
  | succ rounds ih =>
    refine (hcondition m).bind fun holds m' => ?_
    split
    · exact (hbody m').bind fun _ => ih
    · exact caused_pure () m'

variable {evaluate : Evaluator} (heval : CausedEvaluation K S evaluate)

include heval

theorem caused_evaluateAll {es : List Expr} (hes : ∀ e ∈ es, e.MadeOf K) (m : Machine) :
    Caused K S (evaluateAll evaluate es) m := by
  induction es generalizing m with
  | nil => exact caused_pure [] m
  | cons e es ih =>
    rw [List.forall_mem_cons] at hes
    refine (heval e hes.1 m).bind fun v m₁ => (ih hes.2 m₁).bind fun vs m₂ => ?_
    exact caused_pure _ m₂

theorem caused_evaluateLast {es : List Expr} (hes : ∀ e ∈ es, e.MadeOf K) (last : Ref) (m : Machine) :
    Caused K S (evaluateLast evaluate last es) m := by
  induction es generalizing last m with
  | nil => exact caused_pure last m
  | cons e es ih =>
    rw [List.forall_mem_cons] at hes
    exact (heval e hes.1 m).bind fun v m' => ih hes.2 v m'

theorem caused_evaluateTruth {e : Expr} (he : e.MadeOf K) (m : Machine) :
    Caused K S (evaluateTruth evaluate e) m :=
  (heval e he m).bind fun _ m' => (steps_look _).caused m'

theorem caused_evaluateNumber {e : Expr} (he : e.MadeOf K) (m : Machine) :
    CausedLeaving K S (evaluateNumber evaluate e) m := by
  refine ⟨(heval e he m).bind fun v m' => caused_asNumber v m', ?_⟩
  have hleaves := (heval e he m).leaves
  unfold evaluateNumber
  rw [bind_apply]
  cases h : evaluate e m with
  | done v m' =>
    rw [h] at hleaves
    show (asNumber v m').Ends _ _
    unfold asNumber
    rw [look_bind]
    cases m'.heap.payload v with
    | number x => exact hleaves
    | _ => trivial
  | failed fault m' => trivial
  | exhausted => trivial

theorem caused_evaluateOperator {op : Operator} {symbol : String}
    (hop : Operator.ofSymbol? symbol = some op) (hsymbol : K (.operator symbol)) {left right : Expr}
    (hleft : left.MadeOf K) (hright : right.MadeOf K) (m : Machine) :
    Caused K S (evaluateOperator evaluate op left right) m := by
  cases op with
  | add =>
    refine (heval left hleft m).bind fun l m₁ => (heval right hright m₁).bind fun r m₂ => .look ?_
    split
    · exact caused_allocPlain rfl m₂
    · refine .after (steps_lookDeep _) fun _ m₃ _ => .after (steps_lookDeep _) fun _ m₄ _ => ?_
      exact caused_allocPlain rfl m₄
  | arithmetic op =>
    refine (caused_evaluateNumber heval hleft m).bind fun x m₁ => ?_
    refine (caused_evaluateNumber heval hright m₁).andThen fun y m₂ hm₂ => ?_
    exact (caused_arithmetic hop hsymbol x y hm₂).bind fun z m₃ => caused_allocPlain rfl m₃
  | comparison op =>
    refine (caused_evaluateNumber heval hleft m).bind fun x m₁ => ?_
    exact (caused_evaluateNumber heval hright m₁).bind fun y m₂ => caused_boolean _ m₂
  | equal | unequal =>
    refine (heval left hleft m).bind fun l m₁ => (heval right hright m₁).bind fun r m₂ => ?_
    exact .after (steps_lookDeep _) fun _ m₃ _ => caused_boolean _ m₃
  | both =>
    refine (caused_evaluateTruth heval hleft m).bind fun truth m₁ => ?_
    split
    · exact (caused_evaluateTruth heval hright m₁).bind caused_boolean
    · exact caused_boolean false m₁
  | either =>
    refine (caused_evaluateTruth heval hleft m).bind fun truth m₁ => ?_
    split
    · exact caused_boolean true m₁
    · exact (caused_evaluateTruth heval hright m₁).bind caused_boolean
  | isA =>
    refine (heval left hleft m).bind fun v m₁ => (heval right hright m₁).bind fun w m₂ => ?_
    exact (caused_asClass w m₂).bind fun c m₃ => .look (caused_boolean _ m₃)

theorem caused_evaluateAssign {target value : Expr} (htarget : ∀ i ∈ target.targetIngredients, K i)
    (howner : target.MadeOf K) (hvalue : value.MadeOf K) (hplace : K (.place m.place)) :
    Caused K S (evaluateAssign evaluate target value) m := by
  cases target with
  | name l name =>
    refine (heval value hvalue m).bind fun v m₁ => ?_
    exact .after (steps_changeScope _) fun _ m₂ _ => caused_pure v m₂
  | member l owner name =>
    refine (heval owner (Expr.madeOf_iff.mp howner).2 m).bind fun o m₁ => ?_
    refine (heval value hvalue m₁).bind fun v m₂ => ?_
    refine .after (steps_changeHeap fun h hh => hh.setMember o name v) fun _ m₃ _ => ?_
    exact caused_pure v m₃
  | _ => exact caused_complain (.inr hplace) (.inl rfl) (htarget .oddTarget List.mem_cons_self)

theorem caused_evaluateIndex {target index : Expr} (htarget : target.MadeOf K)
    (hindex : index.MadeOf K) (m : Machine) : Caused K S (evaluateIndex evaluate target index) m := by
  refine (heval target htarget m).bind fun v m₁ => (caused_asList v m₁).bind fun items m₂ => ?_
  refine (caused_evaluateNumber heval hindex m₂).andThen fun x m₃ hm₃ => ?_
  split
  · exact caused_complain (.inl rfl) (.inl rfl) trivial
  · split
    · exact caused_pure _ m₃
    · exact caused_complain (.inl rfl) (.inr hm₃) trivial

theorem caused_evaluateSuperclass {e : Option Expr} (he : ∀ e' ∈ e, e'.MadeOf K) (m : Machine) :
    Caused K S (evaluateSuperclass evaluate e) m := by
  cases e with
  | none => exact caused_pure _ m
  | some e => exact (heval e (he e rfl) m).bind fun v m' => caused_asClass v m'

theorem caused_defineMembers (cls : Ref) {es : List Expr} (hes : ∀ e ∈ es, e.MadeOf K)
    (m : Machine) : Caused K S (defineMembers evaluate cls es) m := by
  induction es generalizing m with
  | nil => exact caused_pure () m
  | cons e es ih =>
    rw [List.forall_mem_cons] at hes
    obtain ⟨he, hes⟩ := hes
    have heffect : Caused K S (evaluate e >>= fun _ => defineMembers evaluate cls es) m :=
      (heval e he m).bind fun _ m' => ih hes m'
    cases e with
    | function l name params body =>
      cases name with
      | none => exact heffect
      | some name =>
        refine .after (steps_lookScope _) fun captured m₁ _ => ?_
        have hfn : Function.MadeOf K { name, params, body, captured := some captured } :=
          Function.madeOf_iff.mpr (Expr.madeOf_iff.mp he).2
        exact (caused_defineMethod cls hfn m₁).bind fun _ m₂ => ih hes m₂
    | assign l target value =>
      cases target with
      | name l' name =>
        obtain ⟨-, -, -, hvalue⟩ := Expr.madeOf_iff.mp he
        refine (heval value hvalue m).bind fun v m₁ => ?_
        exact (caused_defineDefault cls name v m₁).bind fun _ m₂ => ih hes m₂
      | _ => exact heffect
    | _ => exact heffect

theorem caused_evaluateClass (name : String) {superclass : Option Expr} {body : List Expr}
    (hsuperclass : ∀ e ∈ superclass, e.MadeOf K) (hbody : ∀ e ∈ body, e.MadeOf K) (m : Machine) :
    Caused K S (evaluateClass evaluate name superclass body) m := by
  refine (caused_evaluateSuperclass heval hsuperclass m).bind fun parent m₁ => ?_
  refine (caused_allocPlain rfl m₁).bind fun cls m₂ => ?_
  refine Caused.bind (.inNewFrame fun m' => caused_defineMembers heval cls hbody m') fun _ m₃ => ?_
  exact .after (steps_changeScope _) fun _ m₄ _ => caused_pure cls m₄

/-- An expression that the machine stands at. -/
theorem caused_evaluateLevel (hS : ∀ l, K (.place l) → S.during l) (rounds : Nat) {e : Expr}
    (he : e.MadeOf K) (hplace : K (.place m.place)) :
    Caused K S (evaluateLevel evaluate rounds e) m := by
  have hparts := Expr.madeOf_iff.mp he
  cases e with
  | number l literal => exact caused_allocPlain rfl m
  | string l text => exact caused_allocPlain rfl m
  | template l text => exact caused_fillTemplate _ text hplace hparts.2
  | boolean l b => exact caused_boolean b m
  | null l => exact caused_pure _ m
  | list l items =>
    exact (caused_evaluateAll heval hparts.2 m).bind fun vs m' => caused_allocPlain rfl m'
  | name l name => exact caused_lookup name hplace
  | assign l target value =>
    obtain ⟨-, htarget, howner, hvalue⟩ := hparts
    exact caused_evaluateAssign heval htarget howner hvalue hplace
  | block l body =>
    exact .inNewFrame fun m' => caused_evaluateLast heval hparts.2 Heap.nullRef m'
  | branch l condition yes no =>
    obtain ⟨-, hcondition, hyes, hno⟩ := hparts
    refine (caused_evaluateTruth heval hcondition m).bind fun truth m' => ?_
    split
    · exact (heval yes hyes m').caused
    · cases no with
      | some e => exact (heval e (hno e rfl) m').caused
      | none => exact caused_pure _ m'
  | loop l condition body =>
    obtain ⟨-, hcondition, hbody⟩ := hparts
    have hround (m : Machine) : Caused K S (do let _ ← evaluate body) m :=
      (heval body hbody m).bind fun _ m' => caused_pure () m'
    refine (caused_repeatWhile (caused_evaluateTruth heval hcondition) hround rounds m).bind ?_
    exact fun _ m' => caused_pure _ m'
  | function l name params body =>
    refine .after (steps_lookScope _) fun captured m' _ => ?_
    have hfn (name : String) : Function.MadeOf K { name, params, body, captured := some captured } :=
      Function.madeOf_iff.mpr hparts.2
    cases name with
    | none =>
      refine (steps_alloc fun fn hmem => ?_).caused m'
      rw [List.mem_singleton.mp hmem]
      exact hfn "lambda"
    | some name => exact caused_defineFunction (hfn _) m'
  | call l callee args =>
    obtain ⟨hl, hcallee, hargs⟩ := hparts
    refine (heval callee hcallee m).bind fun f m₁ => ?_
    refine (caused_evaluateAll heval hargs m₁).bind fun vs m₂ => ?_
    -- wherever the parts have led the machine, the call brings it back to its own place
    refine caused_call heval f vs (fun l' hl' => ?_) hl
    cases hl'
    exact hS l hl
  | operator l symbol left right =>
    obtain ⟨-, hsymbol, hleft, hright⟩ := hparts
    unfold evaluateLevel
    dsimp only
    cases hop : Operator.ofSymbol? symbol with
    | some op => exact caused_evaluateOperator heval hop hsymbol hleft hright m
    | none => exact caused_unknownOperator hplace (.inl ⟨hsymbol, hop⟩)
  | unary l symbol operand =>
    obtain ⟨-, hsymbol, hoperand⟩ := hparts
    unfold evaluateLevel
    dsimp only
    rcases hop : UnaryOperator.ofSymbol? symbol with - | - | -
    · exact caused_unknownOperator hplace (.inr ⟨hsymbol, hop⟩)
    · exact (caused_evaluateNumber heval hoperand m).bind fun x m' => caused_allocPlain rfl m'
    · exact (caused_evaluateTruth heval hoperand m).bind fun truth m' => caused_boolean _ m'
  | member l target name =>
    exact (heval target hparts.2 m).andThen fun v m' hm' => caused_readMember _ v name hm'
  | index l target index => exact caused_evaluateIndex heval hparts.2.1 hparts.2.2 m
  | classDef l name superclass body =>
    exact caused_evaluateClass heval name hparts.2.1 hparts.2.2 m

end Level

end Run

/-! ## All levels -/

/-- Evaluations of the code, with the place settled so, leave the machine nowhere else. -/
structure Standing.Admits (S : Standing) (K : Ingredient → Prop) (settle : Settling) : Prop where
  code : ∀ l, K (.place l) → S.during l
  during : ∀ before after, S.during before → S.during after → S.during (settle before after)
  after : ∀ before after, S.after (settle before after)

namespace Run

variable {K : Ingredient → Prop} {S : Standing} {m : Machine}

section Settled

variable {α : Type} {settle : Settling} (hS : S.Admits K settle)

include hS

theorem Caused.settled {x : Run α} (hx : Caused K S x m) : Caused K S (settled settle x) m := by
  intro hm
  have hend := hx hm
  unfold Run.settled
  cases h : x m with
  | done a m' =>
    rw [h] at hend
    exact ⟨hend.stores, hS.during _ _ hm.stands hend.stands⟩
  | failed e m' =>
    rw [h] at hend
    exact hend
  | exhausted => trivial

theorem leaves_settled (x : Run α) (m : Machine) :
    (settled settle x m).Ends (fun _ m' => S.after m'.place) fun _ _ => True := by
  unfold settled
  cases x m with
  | done a m' => exact hS.after _ _
  | failed e m' => trivial
  | exhausted => trivial

theorem caused_evaluateAtSettling (limits : Limits) (nesting : Nat) :
    CausedEvaluation K S (evaluateAtSettling settle limits nesting) := by
  induction nesting with
  | zero => exact fun e _ m => ⟨.entered fun _ _ => caused_fail (.inl rfl) (.inl rfl) trivial, trivial⟩
  | succ nesting ih =>
    refine fun e he m => ⟨Caused.settled hS (.entered fun m' _ hm' => ?_), leaves_settled hS _ m⟩
    exact caused_evaluateLevel ih hS.code limits.rounds he (m := { m' with place := e.loc }) he.loc
      ⟨hm'.stores, hS.code e.loc he.loc⟩

end Settled

theorem caused_evaluate (limits : Limits) : CausedEvaluation K .anywhere (evaluate limits) := by
  have hS : Standing.anywhere.Admits K .stay :=
    ⟨fun _ _ => trivial, fun _ _ _ _ => trivial, fun _ _ => trivial⟩
  have h := caused_evaluateAtSettling hS limits limits.nesting
  rw [evaluateAtSettling_stay] at h
  exact h

end Run

end TreeScript
