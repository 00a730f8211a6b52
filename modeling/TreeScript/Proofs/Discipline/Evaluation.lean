import TreeScript.Proofs.Discipline.Call

/-!
# Evaluation under a discipline

Evaluation respects every discipline: from a store that is as the discipline
wants it, with a head in which names may be bound, every expression ends in such
a store again, with the same head and with a value that the program may hold.
One level of evaluation is settled from the level below, and the rest is
induction on how deep evaluations may nest.
-/

namespace TreeScript

namespace Discipline

open Run

variable {D : Discipline} {m : Machine}

/-! ## Reading -/

section Reading

variable {s : Store}

theorem respects_fillTemplate (room : Room) (template : String) (hm : D.Inv m.store) :
    D.Respects m.store (fillTemplate room template m) D.HoldsValue := by
  unfold fillTemplate
  rw [lookScope_bind]
  refine respects_lookDeep hm fun _ => ?_
  rw [lookScope_bind, look_bind]
  rcases Template.fill template _ with (fault | (key | key)) | text
  · exact respects_fail hm fun _ => Fault.noConfusion
  · exact respects_complain _ hm
  · exact respects_fail hm fun _ => Fault.noConfusion
  · exact respects_allocString text hm

theorem respects_lookup (name : String) (hm : D.Ready m.store) :
    D.Respects m.store (lookup name m) D.HoldsValue := by
  unfold lookup
  rw [lookScope_bind]
  cases hv : m.scope.lookup? name with
  | some v =>
    exact respects_done hm.inv
      ((D.closed hm.inv).lookup hm.holds_head (D.holds_globals hm.inv) hv)
  | none => exact respects_complain _ hm.inv

theorem makes_fieldOrMethod {inst start : Ref} {name : String} {made : Ref × Heap}
    (hs : D.Inv s) (hinst : D.HoldsValue s inst) (hstart : D.HoldsValue s start)
    (hlooks : s.heap.LooksFrom inst start)
    (h : s.heap.fieldOrMethod? inst start name = some made) : D.Makes s made := by
  unfold Heap.fieldOrMethod? at h
  split at h
  · next value hvalue =>
    cases h
    exact makes_held hs ((D.closed hs).field hinst (Bindings.mem_values_of_get? hvalue))
  · obtain ⟨⟨owner, method⟩, hfind, rfl⟩ := Option.map_eq_some_iff.mp h
    obtain ⟨howner, hmethod⟩ := (D.closed hs).findMethod hstart hfind
    exact makes_bindMethod hs hmethod hinst howner ⟨start, name, hlooks, hfind⟩

theorem makes_member {r : Ref} {name : String} {made : Ref × Heap} (hs : D.Inv s)
    (hr : D.HoldsValue s r) (h : s.heap.member? r name = some made) : D.Makes s made := by
  unfold Heap.member? at h
  split at h
  · split at h
    · next owner method hfind =>
      cases h
      exact makes_held hs ((D.closed hs).findMethod hr hfind).2
    · obtain ⟨value, hfind, rfl⟩ := Option.map_eq_some_iff.mp h
      exact makes_held hs ((D.closed hs).findDefault hr hfind)
  · next inst start hp =>
    have hview : ∀ q ∈ (s.heap.payload r).places, D.Holds s q := fun _ => (D.closed hs).payload hr
    rw [hp] at hview
    exact makes_fieldOrMethod hs (hview _ (by simp [Payload.places]))
      (hview _ (by simp [Payload.places])) (.view hp) h
  · next hplain =>
    exact makes_fieldOrMethod hs hr ((D.closed hs).classOf (fun _ => D.holds_shared hs) hr)
      (Heap.looksFrom_classOf hplain) h

theorem respects_readMember {v : Ref} (room : Room) (name : String) (hm : D.Inv m.store)
    (hv : D.HoldsValue m.store v) :
    D.Respects m.store (readMember room v name m) D.HoldsValue := by
  unfold readMember
  split
  · next value heap hmember =>
    have hmade := makes_member (s := m.store) hm hv hmember
    exact ⟨hmade.follows, hmade.holds⟩
  · exact respects_lookDeep hm fun shown => respects_complain _ hm

theorem respects_asNumber (v : Ref) (hm : D.Inv m.store) :
    D.Respects m.store (asNumber v m) fun _ _ => True := by
  unfold asNumber
  rw [look_bind]
  cases m.heap.payload v with
  | number x => exact respects_done hm trivial
  | _ => exact respects_complain _ hm

theorem respects_asList {v : Ref} (hm : D.Inv m.store) (hv : D.HoldsValue m.store v) :
    D.Respects m.store (asList v m) D.HoldsAll := by
  unfold asList
  rw [look_bind]
  cases hp : m.heap.payload v with
  | list items => exact respects_done hm (holdsAll_of_payload hm hv hp)
  | _ => exact respects_complain _ hm

theorem respects_asClass {v : Ref} (hm : D.Inv m.store) (hv : D.HoldsValue m.store v) :
    D.Respects m.store (asClass v m) fun s c =>
      D.HoldsValue s c ∧ (s.heap.class? c).isSome = true := by
  unfold asClass
  rw [look_bind]
  split
  · next hclass => exact respects_done hm ⟨hv, hclass⟩
  · exact respects_complain _ hm

theorem respects_arithmetic (op : Arithmetic) (x y : Float) (hm : D.Inv m.store) :
    D.Respects m.store (ofExcept (op.apply x y) m) fun _ _ => True := by
  cases h : op.apply x y with
  | ok z => exact respects_done hm trivial
  | error e =>
    refine respects_fail hm ?_
    rcases Arithmetic.fault_of_apply h with rfl | rfl | rfl <;> exact fun _ => Fault.noConfusion

theorem respects_boolean (b : Bool) (hm : D.Inv m.store) :
    D.Respects m.store (boolean b m) D.HoldsValue :=
  respects_shared hm (Heap.isShared_ofBool b)

end Reading

/-! ## Defining -/

section Defining

/-- What a definition makes of the value bound before refers to nothing else. -/
theorem holds_foldDefinition {s : Store} {fn : Function} (existing : Option Ref) (hs : D.Inv s)
    (hexisting : ∀ v, existing = some v → D.HoldsValue s v) (hfn : D.HoldsFunction s fn) :
    ∀ q ∈ (s.heap.foldDefinition existing fn).places, D.Holds s q := by
  intro q hq
  unfold Heap.foldDefinition at hq
  split at hq
  · next name fns hp =>
    obtain ⟨v, hv, hp⟩ := Option.map_eq_some_iff.mp hp
    obtain ⟨g, hg, hgq⟩ := List.mem_flatMap.mp hq
    rcases Function.mem_insertInto hg with rfl | hg
    · exact hfn q hgq
    · exact holdsFunction_of_mem hs (hexisting v hv) hp hg q hgq
  · next old hp =>
    obtain ⟨v, hv, hp⟩ := Option.map_eq_some_iff.mp hp
    split at hq
    · exact hfn q hq
    · obtain ⟨g, hg, hgq⟩ := List.mem_flatMap.mp hq
      simp only [List.mem_cons, List.not_mem_nil, or_false] at hg
      rcases hg with rfl | rfl
      · exact holdsFunction_of_payload hs (hexisting v hv) hp q hgq
      · exact hfn q hgq
  · exact hfn q hq

/-- A function made in the head captures the head and nothing else. -/
theorem Ready.holdsFunction (hm : D.Ready m.store) (name : String) (params : List Pattern)
    (body : Expr) :
    D.HoldsFunction m.store { name, params, body, captured := some m.scope.head } := by
  intro q hq
  simp only [Function.places, Option.map_some, Option.map_none, Option.toList_some,
    Option.toList_none, List.append_nil, List.mem_singleton] at hq
  exact hq ▸ hm.holds_head

theorem respects_defineFunction {fn : Function} (hm : D.Ready m.store) (hunbound : fn.IsUnbound)
    (hfn : D.HoldsFunction m.store fn) :
    D.Respects m.store (defineFunction fn m) D.HoldsValue := by
  unfold defineFunction
  rw [lookScope_bind, look_bind]
  have hplaces := holds_foldDefinition ((m.scope.frame m.scope.head).bindings.get? fn.name) hm.inv
    (fun v hv => (D.closed hm.inv).binding hm.holds_head (Bindings.mem_values_of_get? hv)) hfn
  refine (respects_alloc hm.inv (.code (.definition _ hunbound)) hplaces).bind ?_
  intro v m₁ h hv
  refine (respects_define fn.name (h.ready hm) hv).bind ?_
  intro _ m₂ h₂ _
  exact respects_done h₂.inv (h₂.holds hv)

namespace Stages

variable {S : Stages} {cls : Ref} {cs : List Ref}

theorem respects_write {v : Ref} {table : ClassTable} {name : String}
    (hm : (S.stage (cls :: cs)).Inv m.store) (hcls : S.Draft m.store cls)
    (hentry : m.heap.ClassEntry cls table name v) (hv : (S.stage (cls :: cs)).HoldsValue m.store v) :
    (S.stage (cls :: cs)).Respects m.store (changeHeap (·.updateClass cls (·.write table name v)) m)
      fun _ _ => True :=
  ⟨⟨m.store.grows_heap (by simp [Machine.store]), rfl, S.writes hm hcls hentry hv⟩, trivial⟩

theorem respects_defineMethod {fn : Function} (hm : (S.stage (cls :: cs)).Inv m.store)
    (hcls : S.Draft m.store cls) (hunbound : fn.IsUnbound)
    (hfn : (S.stage (cls :: cs)).HoldsFunction m.store fn) :
    (S.stage (cls :: cs)).Respects m.store (defineMethod cls fn m) fun _ _ => True := by
  unfold defineMethod
  rw [look_bind, look_bind]
  have hexisting : ∀ w, m.heap.methodOf? cls fn.name = some w →
      (S.stage (cls :: cs)).HoldsValue m.store w := by
    intro w hw
    obtain ⟨info, hinfo, hw⟩ := Option.bind_eq_some_iff.mp hw
    apply S.holds_entries hm hcls
    refine List.mem_append_left _ ?_
    rw [show (m.store.heap.object cls).payload = .classObject info from
      Heap.payload_of_class? hinfo]
    simp [Payload.places, ClassInfo.places, Bindings.mem_values_of_get? hw]
  have hplaces := holds_foldDefinition (m.heap.methodOf? cls fn.name) hm hexisting hfn
  have hmade := makes_alloc hm (.code (.definition (m.heap.methodOf? cls fn.name) hunbound)) hplaces
  have halloc : (S.stage (cls :: cs)).Respects m.store
      (alloc (m.heap.foldDefinition (m.heap.methodOf? cls fn.name) fn) m) fun s v =>
        (S.stage (cls :: cs)).HoldsValue s v ∧ s.heap.ClassEntry cls .methods fn.name v :=
    ⟨hmade.follows, hmade.holds, Heap.classEntry_foldDefinition hunbound⟩
  refine halloc.bind ?_
  rintro v m₁ h ⟨hv, hentry⟩
  exact respects_write h.inv (S.draft_mono h.grows hcls) hentry hv

theorem respects_defineDefault {v : Ref} (name : String) (hm : (S.stage (cls :: cs)).Inv m.store)
    (hcls : S.Draft m.store cls) (hv : (S.stage (cls :: cs)).HoldsValue m.store v) :
    (S.stage (cls :: cs)).Respects m.store (defineDefault cls name v m) fun _ _ => True :=
  respects_write hm hcls (.default name v) hv

end Stages

end Defining

/-! ## One level -/

section Level

/-- Both operands are evaluated, and what is made of them needs only a store as it should be. -/
theorem respects_operands {α : Type} {operand : Expr → Run α} {k : α → α → Run Ref}
    {V : Store → α → Prop} (left right : Expr) (hm : D.Ready m.store)
    (hoperand : ∀ e m, D.Ready m.store → D.Respects m.store (operand e m) V)
    (hk : ∀ x y m, D.Ready m.store → D.Respects m.store (k x y m) D.HoldsValue) :
    D.Respects m.store ((do let x ← operand left; let y ← operand right; k x y) m)
      D.HoldsValue := by
  refine (hoperand left m hm).bind ?_
  intro x m₁ h₁ _
  have hm₁ := h₁.ready hm
  exact (hoperand right m₁ hm₁).bind fun y m₂ h₂ _ => hk x y m₂ (h₂.ready hm₁)

variable {evaluate : Evaluator} (heval : D.Evaluates evaluate)

include heval

theorem respects_evaluateAll (es : List Expr) (hm : D.Ready m.store) :
    D.Respects m.store (evaluateAll evaluate es m) D.HoldsAll := by
  induction es generalizing m with
  | nil => exact respects_done hm.inv fun _ hv => nomatch hv
  | cons e es ih =>
    unfold evaluateAll
    refine (heval.run e m hm).bind ?_
    intro v m₁ h₁ hv
    refine (ih (h₁.ready hm)).bind ?_
    intro vs m₂ h₂ hvs
    exact respects_done h₂.inv (List.forall_mem_cons.mpr ⟨h₂.holds hv, hvs⟩)

theorem respects_evaluateLast {last : Ref} (es : List Expr) (hm : D.Ready m.store)
    (hlast : D.HoldsValue m.store last) :
    D.Respects m.store (evaluateLast evaluate last es m) D.HoldsValue := by
  induction es generalizing m last with
  | nil => exact respects_done hm.inv hlast
  | cons e es ih =>
    unfold evaluateLast
    exact (heval.run e m hm).bind fun v m₁ h₁ hv => ih (h₁.ready hm) hv

/-- A block leaves names in the frame that it opens, so names need not be bound in the head. -/
theorem respects_block (es : List Expr) (hm : D.Inv m.store)
    (hhead : D.Holds m.store (.frame m.scope.head)) :
    D.Respects m.store (inNewFrame "block" (evaluateLast evaluate Heap.nullRef es) m)
      D.HoldsValue := by
  refine respects_inNewFrame "block" hm hhead holdsValue_mono ?_
  intro m₁ hm₁ _
  exact respects_evaluateLast heval es hm₁ (D.holds_shared hm₁.inv Heap.isShared_nullRef)

theorem respects_evaluateTruth (e : Expr) (hm : D.Ready m.store) :
    D.Respects m.store (evaluateTruth evaluate e m) fun _ _ => True := by
  unfold evaluateTruth
  exact (heval.run e m hm).bind fun v m₁ h₁ _ => respects_done h₁.inv trivial

theorem respects_evaluateNumber (e : Expr) (hm : D.Ready m.store) :
    D.Respects m.store (evaluateNumber evaluate e m) fun _ _ => True := by
  unfold evaluateNumber
  exact (heval.run e m hm).bind fun v m₁ h₁ _ => respects_asNumber v h₁.inv

theorem respects_evaluateOperator (op : Operator) (left right : Expr) (hm : D.Ready m.store) :
    D.Respects m.store (evaluateOperator evaluate op left right m) D.HoldsValue := by
  have hnumber := fun e m => respects_evaluateNumber (m := m) heval e
  cases op with
  | add =>
    refine respects_operands left right hm heval.run ?_
    intro l r m hm
    rw [look_bind]
    generalize (m.heap.payload l, m.heap.payload r) = payloads
    split
    · exact respects_allocNumber _ hm.inv
    · exact respects_lookDeep hm.inv fun _ => respects_lookDeep hm.inv fun _ =>
        respects_allocString _ hm.inv
  | arithmetic op =>
    refine respects_operands left right hm hnumber ?_
    intro x y m hm
    exact (respects_arithmetic op x y hm.inv).bind fun z m₁ h₁ _ => respects_allocNumber z h₁.inv
  | comparison op =>
    exact respects_operands left right hm hnumber fun x y m hm => respects_boolean _ hm.inv
  | equal =>
    exact respects_operands left right hm heval.run fun l r m hm =>
      respects_lookDeep hm.inv fun _ => respects_boolean _ hm.inv
  | unequal =>
    exact respects_operands left right hm heval.run fun l r m hm =>
      respects_lookDeep hm.inv fun _ => respects_boolean _ hm.inv
  | both =>
    -- the right operand is evaluated only if the left one leaves the answer open
    refine (respects_evaluateTruth heval left hm).bind ?_
    intro truth m₁ h₁ _
    split
    · refine (respects_evaluateTruth heval right (h₁.ready hm)).bind ?_
      intro _ m₂ h₂ _
      exact respects_boolean _ h₂.inv
    · exact respects_boolean false h₁.inv
  | either =>
    refine (respects_evaluateTruth heval left hm).bind ?_
    intro truth m₁ h₁ _
    split
    · exact respects_boolean true h₁.inv
    · refine (respects_evaluateTruth heval right (h₁.ready hm)).bind ?_
      intro _ m₂ h₂ _
      exact respects_boolean _ h₂.inv
  | isA =>
    refine (heval.run left m hm).bind ?_
    intro v m₁ h₁ _
    refine (heval.run right m₁ (h₁.ready hm)).bind ?_
    intro w m₂ h₂ hw
    exact (respects_asClass h₂.inv hw).bind fun c m₃ h₃ _ => respects_boolean _ h₃.inv

theorem respects_evaluateAssign (target value : Expr) (hm : D.Ready m.store) :
    D.Respects m.store (evaluateAssign evaluate target value m) D.HoldsValue := by
  unfold evaluateAssign
  split
  · next name =>
    refine (heval.run value m hm).bind ?_
    intro v m₁ h₁ hv
    refine (respects_assign name (h₁.ready hm) hv).bind ?_
    intro _ m₂ h₂ _
    exact respects_done h₂.inv (h₂.holds hv)
  · next owner name =>
    refine (heval.run owner m hm).bind ?_
    intro o m₁ h₁ ho
    refine (heval.run value m₁ (h₁.ready hm)).bind ?_
    intro v m₂ h₂ hv
    refine (respects_setMember name h₂.inv (h₂.holds ho) hv).bind ?_
    intro _ m₃ h₃ _
    exact respects_done h₃.inv (h₃.holds hv)
  · exact respects_complain _ hm.inv

theorem respects_evaluateIndex (target index : Expr) (hm : D.Ready m.store) :
    D.Respects m.store (evaluateIndex evaluate target index m) D.HoldsValue := by
  unfold evaluateIndex
  refine (heval.run target m hm).bind ?_
  intro v m₁ h₁ hv
  refine (respects_asList h₁.inv hv).bind ?_
  intro items m₂ h₂ hitems
  refine (respects_evaluateNumber heval index ((h₁.trans h₂).ready hm)).bind ?_
  intro x m₃ h₃ _
  cases Decimal.integer? x with
  | none => exact respects_complain _ h₃.inv
  | some i =>
    dsimp only
    cases hw : (if i < 0 then none else items[i.toNat]?) with
    | none => exact respects_complain _ h₃.inv
    | some w =>
      refine respects_done h₃.inv (h₃.holds (hitems w ?_))
      split at hw
      · cases hw
      · exact List.mem_of_getElem? hw

theorem respects_evaluateSuperclass (superclass : Option Expr) (hm : D.Ready m.store) :
    D.Respects m.store (evaluateSuperclass evaluate superclass m) fun s c =>
      D.HoldsValue s c ∧ s.heap.IsSuperclass c := by
  cases superclass with
  | some e =>
    refine (heval.run e m hm).bind fun v m₁ h₁ hv => (respects_asClass h₁.inv hv).imp ?_ fun _ _ h => h
    exact fun _ _ h => ⟨h.1, h.2.1, .inl h.2.2⟩
  | none =>
    have hobject := D.holds_shared hm.inv (BuiltinClass.isShared_ref .object)
    exact respects_done hm.inv ⟨hobject, .inr rfl⟩

omit heval in
/-- Between any two rounds of a loop the store is as it should be. -/
theorem respects_repeatWhile {condition : Run Bool} {body : Run Unit} (rounds : Nat)
    (hcondition : ∀ m, D.Ready m.store → D.Respects m.store (condition m) fun _ _ => True)
    (hbody : ∀ m, D.Ready m.store → D.Respects m.store (body m) fun _ _ => True)
    (hm : D.Ready m.store) :
    D.Respects m.store (repeatWhile condition body rounds m) fun _ _ => True := by
  induction rounds generalizing m with
  | zero => trivial
  | succ rounds ih =>
    unfold repeatWhile
    refine (hcondition m hm).bind ?_
    intro truth m₁ h₁ _
    split
    · refine (hbody m₁ (h₁.ready hm)).bind ?_
      intro _ m₂ h₂ _
      exact ih ((h₁.trans h₂).ready hm)
    · exact respects_done h₁.inv trivial

/-- One level of evaluation is as the discipline wants it if definitions of classes are. -/
theorem respects_evaluateLevel (rounds : Nat)
    (hclass : ∀ name superclass body m, D.Ready m.store →
      D.Respects m.store (evaluateClass evaluate name superclass body m) D.HoldsValue)
    (e : Expr) (hm : D.Ready m.store) :
    D.Respects m.store (evaluateLevel evaluate rounds e m) D.HoldsValue := by
  have hnull {m : Machine} (hm : D.Inv m.store) := respects_shared hm Heap.isShared_nullRef
  cases e with
  | number loc literal => exact respects_allocNumber _ hm.inv
  | string loc text => exact respects_allocString text hm.inv
  | template loc text => exact respects_fillTemplate _ text hm.inv
  | boolean loc b => exact respects_boolean b hm.inv
  | null loc => exact hnull hm.inv
  | list loc items =>
    exact (respects_evaluateAll heval items hm).bind fun vs m₁ h₁ hvs =>
      respects_allocList h₁.inv hvs
  | name loc name => exact respects_lookup name hm
  | assign loc target value => exact respects_evaluateAssign heval target value hm
  | block loc body => exact respects_block heval body hm.inv hm.holds_head
  | branch loc condition yes no =>
    refine (respects_evaluateTruth heval condition hm).bind ?_
    intro truth m₁ h₁ _
    have hm₁ := h₁.ready hm
    split
    · exact heval.run yes m₁ hm₁
    · cases no with
      | some e => exact heval.run e m₁ hm₁
      | none => exact hnull hm₁.inv
  | loop loc condition body =>
    have hbody (m : Machine) (hm : D.Ready m.store) :
        D.Respects m.store ((do let _ ← evaluate body) m) fun _ _ => True :=
      (heval.run body m hm).bind fun _ _ h _ => respects_done h.inv trivial
    refine (respects_repeatWhile rounds
      (fun m hm => respects_evaluateTruth heval condition hm) hbody hm).bind fun _ m₁ h₁ _ => ?_
    exact hnull h₁.inv
  | function loc name params body =>
    unfold evaluateLevel
    dsimp only
    rw [lookScope_bind]
    cases name with
    | none =>
      exact respects_alloc hm.inv (.code (.definition none ⟨rfl, rfl⟩))
        (hm.holdsFunction "lambda" params body)
    | some name => exact respects_defineFunction hm ⟨rfl, rfl⟩ (hm.holdsFunction _ params body)
  | call loc callee args =>
    refine (heval.run callee m hm).bind ?_
    intro f m₁ h₁ hf
    refine (respects_evaluateAll heval args (h₁.ready hm)).bind ?_
    intro vs m₂ h₂ hvs
    exact respects_call heval (some loc) h₂.inv (h₂.holds hf) hvs
  | operator loc symbol left right =>
    unfold evaluateLevel
    dsimp only
    cases Operator.ofSymbol? symbol with
    | some op => exact respects_evaluateOperator heval op left right hm
    | none => exact respects_complain _ hm.inv
  | unary loc symbol operand =>
    unfold evaluateLevel
    dsimp only
    rcases UnaryOperator.ofSymbol? symbol with _ | _ | _
    · exact respects_complain _ hm.inv
    · exact (respects_evaluateNumber heval operand hm).bind fun x m₁ h₁ _ =>
        respects_allocNumber _ h₁.inv
    · exact (respects_evaluateTruth heval operand hm).bind fun truth m₁ h₁ _ =>
        respects_boolean _ h₁.inv
  | member loc target name =>
    exact (heval.run target m hm).bind fun v m₁ h₁ hv => respects_readMember _ name h₁.inv hv
  | index loc target index => exact respects_evaluateIndex heval target index hm
  | classDef loc name superclass body => exact hclass name superclass body m hm

end Level

/-! ## Classes -/

namespace Stages

variable {S : Stages} {evaluate : Evaluator} {cls : Ref} {cs : List Ref}

section Classes

variable (heval : ∀ cs, (S.stage cs).Evaluates evaluate)

include heval

/-- Of the members of a class, methods capture the head; all else is evaluated in it. -/
theorem respects_defineMembers (es : List Expr) (hm : (S.stage (cls :: cs)).Ready m.store)
    (hcls : S.Draft m.store cls) :
    (S.stage (cls :: cs)).Respects m.store (defineMembers evaluate cls es m) fun _ _ => True := by
  induction es generalizing m with
  | nil => exact respects_done hm.inv trivial
  | cons e es ih =>
    -- the class stays under definition and the head in place, so the other members can follow
    have rest (m' : Machine) (h : (S.stage (cls :: cs)).Follows m.store m'.store) :
        (S.stage (cls :: cs)).Respects m'.store (defineMembers evaluate cls es m')
          fun _ _ => True :=
      ih (h.ready hm) (S.draft_mono h.grows hcls)
    unfold defineMembers
    split
    · next name params body =>
      rw [lookScope_bind]
      have hfn := hm.holdsFunction name params body
      refine (respects_defineMethod hm.inv hcls ?_ hfn).bind fun _ m₁ h₁ _ => rest m₁ h₁
      exact ⟨rfl, rfl⟩
    · next name value =>
      refine ((heval _).run value m hm).bind ?_
      intro v m₁ h₁ hv
      have hdefault := respects_defineDefault name h₁.inv (S.draft_mono h₁.grows hcls) hv
      exact hdefault.bind fun _ m₂ h₂ _ => rest m₂ (h₁.trans h₂)
    · exact ((heval _).run e m hm).bind fun _ m₁ h₁ _ => rest m₁ h₁

theorem respects_classBody (name : String) (body : List Expr)
    (hm : (S.stage (cls :: cs)).Ready m.store) (hcls : S.Draft m.store cls) :
    (S.stage (cls :: cs)).Respects m.store (inNewFrame name (defineMembers evaluate cls body) m)
      fun _ _ => True := by
  refine respects_inNewFrame name hm.inv hm.holds_head (fun _ _ => trivial) ?_
  intro m₁ hm₁ hgrows
  exact respects_defineMembers heval body hm₁ (S.draft_mono hgrows hcls)

/-- The class is under definition while its body is evaluated, and no longer than that, however
the body ends. -/
theorem respects_evaluateClass (name : String) (superclass : Option Expr) (body : List Expr)
    (hm : (S.stage cs).Ready m.store) :
    (S.stage cs).Respects m.store (evaluateClass evaluate name superclass body m)
      (S.stage cs).HoldsValue := by
  unfold evaluateClass
  refine (respects_evaluateSuperclass (heval cs) superclass hm).bind ?_
  rintro parent m₁ h₁ ⟨hparent, hsuper⟩
  have hm₁ := h₁.ready hm
  obtain ⟨hinv, hdraft, hactive⟩ := S.begins name h₁.inv hparent hsuper
  let c := m₁.heap.objects.size
  let m₂ : Machine :=
    { m₁ with heap := (m₁.heap.alloc (.classObject { name, superclass := some parent })).2 }
  have hm₂ : (S.stage (c :: cs)).Ready m₂.store := ⟨hinv, hactive _ hm₁.active⟩
  have hgrows : m₁.store.Grows m₂.store := m₁.store.grows_heap (by simp [m₂, Machine.store, Heap.alloc])
  have hclass : (S.stage cs).Respects m₁.store
      (inNewFrame name (defineMembers evaluate c body) m₂) fun s _ => (S.stage cs).HoldsValue s c := by
    -- the definition ends however the body does, so a fault leaves no class under definition
    have ended {s : Store} (hgrows : m₂.store.Grows s) (hinv : (S.stage (c :: cs)).Inv s) :=
      S.ends hinv (S.draft_mono hgrows hdraft)
    refine (respects_classBody heval name body hm₂ hdraft).imp ?_ ?_
    · intro _ m₃ h
      obtain ⟨hinv, hc⟩ := ended h.1.grows h.1.inv
      exact ⟨⟨hgrows.trans h.1.grows, h.1.head, hinv⟩, hc⟩
    · intro e m₃ h
      refine ⟨hgrows.trans h.grows, h.head.imp_right fun lost => ?_,
        fun stack he => S.cramped (h.emptied stack he), (ended h.grows h.inv).1⟩
      exact ⟨S.cramped lost.1, lost.2.1, S.holds_frame lost.2.2⟩
  rw [alloc_bind]
  refine hclass.bind ?_
  intro _ m₃ h₃ hcls
  refine (respects_define name (h₃.ready hm₁) hcls).bind ?_
  intro _ m₄ h₄ _
  exact respects_done h₄.inv (h₄.holds hcls)

end Classes

end Stages

/-! ## All levels -/

/-- Taking up an expression or pattern touches nothing that a discipline speaks of. -/
theorem respects_visited {place : Option Loc} {x : Run Ref} (hm : D.Inv m.store)
    (hx : ∀ m', D.Follows m.store m'.store → D.Respects m'.store (x m') D.HoldsValue) :
    D.Respects m.store (entered (do setPlace place; x) m) D.HoldsValue := by
  refine respects_entered ?_
  intro m₁ hstore
  have h₁ : D.Follows m.store m₁.store := by
    rw [hstore]
    exact .refl hm
  exact (respects_setPlace place h₁.inv).bind fun _ m₂ h₂ _ => hx m₂ (h₁.trans h₂)

theorem respects_tooDeep (hm : D.Inv m.store) :
    D.Respects m.store ((entered (fail .nestingTooDeep) : Run Ref) m) D.HoldsValue :=
  respects_entered fun _ hstore =>
    respects_fail (hstore ▸ hm) fun _ => Fault.noConfusion

theorem Stages.respects_evaluateAt {S : Stages} {limits : Limits} (nesting : Nat) (cs : List Ref)
    (hroom : ∀ cs, limits.entry = 0 ∨ (S.stage cs).Cramped := by exact fun _ => .inr trivial) :
    (S.stage cs).Evaluates (evaluateAt limits nesting) := by
  have room (levels : Nat) (cs : List Ref) :
      (limits.room levels).entry = true ∨ (S.stage cs).Cramped :=
    (hroom cs).imp_left fun h => by simp [Limits.room, h]
  induction nesting generalizing cs with
  | zero => exact ⟨fun e m hm => respects_tooDeep hm.inv, room 0 cs⟩
  | succ nesting ih =>
    -- the parts are one level further in, where one level less is left
    refine ⟨fun e m hm => respects_visited hm.inv fun m₁ h₁ => ?_, room (nesting + 1) cs⟩
    have hclass := fun name superclass body (m : Machine) (hm : (S.stage cs).Ready m.store) =>
      respects_evaluateClass ih name superclass body hm
    exact respects_evaluateLevel (ih cs) limits.rounds hclass e (h₁.ready hm)

theorem Stages.respects_evaluate {S : Stages} (limits : Limits) (cs : List Ref)
    (hroom : ∀ cs, limits.entry = 0 ∨ (S.stage cs).Cramped := by exact fun _ => .inr trivial) :
    (S.stage cs).Evaluates (evaluate limits) :=
  respects_evaluateAt limits.nesting cs hroom

theorem respects_evaluate {D : Uniform} (limits : Limits)
    (hroom : limits.entry = 0 ∨ D.Cramped := by exact .inr trivial) : D.Evaluates (evaluate limits) :=
  D.stages.respects_evaluate limits [] fun _ => hroom

theorem respects_evaluatePattern (p : Pattern) (hm : D.Inv m.store) :
    D.Respects m.store (evaluatePattern p m) D.HoldsValue :=
  respects_visited hm fun _ h₁ => respects_complain _ h₁.inv

/-- A block may be evaluated wherever the head is held: it binds names in the frame that it opens
for itself. -/
theorem respects_evaluate_block {D : Uniform} (limits : Limits) (loc : Option Loc)
    (body : List Expr) (hm : D.Inv m.store) (hhead : D.Holds m.store (.frame m.scope.head))
    (hroom : limits.entry = 0 ∨ D.Cramped := by exact .inr trivial) :
    D.Respects m.store (evaluate limits (.block loc body) m) D.HoldsValue := by
  unfold evaluate
  cases limits.nesting with
  | zero => exact respects_tooDeep hm
  | succ nesting =>
    refine respects_visited hm ?_
    intro m₁ h₁
    have hhead₁ : D.Holds m₁.store (.frame m₁.scope.head) :=
      h₁.head ▸ h₁.holds hhead
    exact respects_block (D.stages.respects_evaluateAt nesting [] fun _ => hroom) body h₁.inv hhead₁

end Discipline

end TreeScript
