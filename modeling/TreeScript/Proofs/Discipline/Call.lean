import TreeScript.Proofs.Discipline

/-!
# Calls under a discipline

If expressions are evaluated as a discipline wants it in every ready store, then
matching, dispatch and calls respect it too. They need no more than the places
that go into the call, and nothing of the head: what they evaluate, they
evaluate in a frame of their own.
-/

namespace TreeScript.Discipline

open Run

variable {D : Discipline}

variable (D) in
/-- Every expression is evaluated as the discipline wants it, wherever names may be bound in the
head, and there is room for entering functions unless calls may break off. -/
structure Evaluates (evaluate : Evaluator) : Prop where
  run : ∀ e m, D.Ready m.store → D.Respects m.store (evaluate e m) D.HoldsValue
  room : evaluate.room.entry = true ∨ D.Cramped

variable {evaluate : Evaluator} {m : Machine}

/-! ## Matching -/

section Matching

mutual

theorem respects_accepts {frame : FrameId} (heval : D.Evaluates evaluate) :
    ∀ (p : Pattern) (v : Ref) (m : Machine), D.Ready m.store →
    m.scope.head = frame → D.HoldsValue m.store v →
    D.Respects m.store (accepts evaluate frame p v m) fun _ _ => True
  | .wildcard _, v, m, hm, _, _ => by
    rw [accepts]
    exact respects_done hm.inv trivial
  | .name _ name, v, m, hm, hhead, hv => by
    rw [accepts]
    refine (respects_defineIn name hm.inv (hhead ▸ hm.active) hv).bind ?_
    intro _ m₁ h _
    exact respects_done h.inv trivial
  | .literal _ literal, v, m, hm, _, _ => by
    rw [accepts]
    refine (heval.run literal m hm).bind ?_
    intro expected m₁ h _
    exact respects_lookDeep_self h.inv fun _ => trivial
  | .typed _ name cls, v, m, hm, hhead, hv => by
    rw [accepts]
    refine (heval.run cls m hm).bind ?_
    intro c m₁ h _
    rw [look_bind]
    split
    · have hactive : D.Active m₁.store frame := hhead ▸ D.active_mono h.grows hm.active
      refine (respects_defineIn name h.inv hactive (h.holds hv)).bind ?_
      intro _ m₂ h _
      exact respects_done h.inv trivial
    · exact respects_done h.inv trivial
  | .list _ patterns, v, m, hm, hhead, hv => by
    rw [accepts, look_bind]
    cases hp : m.heap.payload v with
    | list items =>
      dsimp only
      split
      · have hitems := holdsAll_of_payload hm.inv hv hp
        exact respects_acceptsAll heval patterns items m hm hhead hitems
      · exact respects_done hm.inv trivial
    | _ => exact respects_done hm.inv trivial

theorem respects_acceptsAll {frame : FrameId} (heval : D.Evaluates evaluate) :
    ∀ (ps : List Pattern) (vs : List Ref) (m : Machine), D.Ready m.store →
    m.scope.head = frame → D.HoldsAll m.store vs →
    D.Respects m.store (acceptsAll evaluate frame ps vs m) fun _ _ => True
  | [], _, m, hm, _, _ => by
    rw [acceptsAll.eq_def]
    exact respects_done hm.inv trivial
  | _ :: _, [], m, hm, _, _ => by
    rw [acceptsAll.eq_def]
    exact respects_done hm.inv trivial
  | p :: ps, v :: vs, m, hm, hhead, hvs => by
    rw [acceptsAll]
    refine (respects_accepts heval p v m hm hhead (hvs v List.mem_cons_self)).bind ?_
    intro accepted m₁ h _
    split
    · refine respects_acceptsAll heval ps vs m₁ (h.ready hm) (h.head.trans hhead) ?_
      intro w hw
      exact h.holds (hvs w (List.mem_cons_of_mem _ hw))
    · exact respects_done h.inv trivial

end

variable (heval : D.Evaluates evaluate)

include heval

/-- The frame that matching gives is new, so names may be bound in it. -/
theorem respects_matchArgs {fn : Function} {args : List Ref} (hm : D.Inv m.store)
    (hfn : D.HoldsFunction m.store fn) (hargs : D.HoldsAll m.store args) :
    D.Respects m.store (matchArgs evaluate fn args m) fun s frame? =>
      ∀ frame, frame? = some frame → D.Active s frame := by
  unfold matchArgs
  split
  · rw [look_bind, lookScope_bind]
    have hparent : D.Holds m.store (.frame (fn.captured.getD m.scope.globals)) := by
      cases hcaptured : fn.captured with
      | none => exact D.holds_globals hm
      | some f => exact hfn.captured hcaptured
    refine (respects_newFrame _ hm hparent).bind ?_
    intro frame m₁ h hframe
    -- names may be bound in the new frame, whatever the head is
    have hmatch : D.Respects m₁.store
        (inFrame frame (acceptsAll evaluate frame fn.params args) m₁) fun _ _ => True := by
      refine respects_inFrame h.inv hframe (fun _ _ => trivial) ?_
      intro m₂ hm₂ hgrows hhead
      refine respects_acceptsAll heval fn.params args m₂ hm₂ hhead ?_
      intro v hv
      exact D.holds_mono hgrows (h.holds (hargs v hv))
    refine hmatch.bind ?_
    intro accepted m₂ h₂ _
    refine respects_done h₂.inv ?_
    intro f hf
    split at hf <;> cases hf
    exact D.active_mono h₂.grows hframe
  · refine respects_done hm ?_
    intro _ hf
    cases hf

theorem respects_anyAccepts {args : List Ref} (fns : List Function) (hm : D.Inv m.store)
    (hfns : ∀ fn ∈ fns, D.HoldsFunction m.store fn)
    (hargs : D.HoldsAll m.store args) :
    D.Respects m.store (anyAccepts evaluate args fns m) fun _ _ => True := by
  induction fns generalizing m with
  | nil => exact respects_done hm trivial
  | cons fn fns ih =>
    unfold anyAccepts
    refine (respects_matchArgs heval hm (hfns fn List.mem_cons_self) hargs).bind ?_
    intro frame m₁ h _
    split
    · exact respects_done h.inv trivial
    · refine ih h.inv ?_ (h.holdsAll hargs)
      intro g hg
      exact h.holdsFunction (hfns g (List.mem_cons_of_mem _ hg))

theorem respects_isApplicable? {callee : Ref} {args : List Ref} (hm : D.Inv m.store)
    (hcallee : D.HoldsValue m.store callee) (hargs : D.HoldsAll m.store args) :
    D.Respects m.store (isApplicable? evaluate callee args m) fun _ _ => True := by
  unfold isApplicable?
  rw [look_bind]
  cases hp : m.heap.payload callee with
  | function fn =>
    have hfn := holdsFunction_of_payload hm hcallee hp
    refine (respects_matchArgs heval hm hfn hargs).bind ?_
    intro _ _ h _
    exact respects_done h.inv trivial
  | overloads name fns =>
    have hfns (fn : Function) (hfn : fn ∈ fns) : D.HoldsFunction m.store fn :=
      holdsFunction_of_mem hm hcallee hp hfn
    refine (respects_anyAccepts heval fns hm hfns hargs).bind ?_
    intro _ _ h _
    exact respects_done h.inv trivial
  | _ => exact respects_done hm trivial

end Matching

/-! ## Running -/

section Running

variable (heval : D.Evaluates evaluate)

theorem respects_defineSome {frame : FrameId} (name : String) {value : Option Ref}
    (hm : D.Inv m.store) (hframe : D.Active m.store frame)
    (hvalue : ∀ v, value = some v → D.HoldsValue m.store v) :
    D.Respects m.store (defineSome frame name value m) fun _ _ => True := by
  cases value with
  | none => exact respects_done hm trivial
  | some v => exact respects_defineIn name hm hframe (hvalue v rfl)

include heval in
theorem respects_bracketed {fn : Function} {frame : FrameId} (name : String) (hm : D.Inv m.store)
    (hfn : D.HoldsFunction m.store fn) (hframe : D.Active m.store frame) :
    D.Respects m.store
      (bracketed frame name fn.params.length
        (do
          defineSome frame "self" fn.self
          defineSome frame "super" fn.super
          evaluate fn.body) m)
      D.HoldsValue := by
  refine respects_ensuring ?_ fun m => store_trace _ m
  refine respects_inFrame hm hframe holdsValue_mono ?_
  intro m₁ hm₁ hgrows hhead
  have hactive : D.Active m₁.store frame := hhead ▸ hm₁.active
  have hfn₁ : D.HoldsFunction m₁.store fn := fun p hp => D.holds_mono hgrows (hfn p hp)
  refine (respects_trace true _ hm₁.inv).bind ?_
  intro _ m₂ h₂ _
  have hself := respects_defineSome "self" h₂.inv (D.active_mono h₂.grows hactive)
    fun v hv => (h₂.holdsFunction hfn₁).self hv
  refine hself.bind ?_
  intro _ m₃ h₃ _
  have h₃ := h₂.trans h₃
  have hsuper := respects_defineSome "super" h₃.inv (D.active_mono h₃.grows hactive)
    fun v hv => (h₃.holdsFunction hfn₁).super hv
  refine hsuper.bind ?_
  intro _ m₄ h₄ _
  exact heval.run fn.body m₄ ((h₃.trans h₄).ready hm₁)

include heval in
theorem respects_invoke {fn : Function} {frame : FrameId} (hm : D.Inv m.store)
    (hfn : D.HoldsFunction m.store fn) (hframe : D.Active m.store frame) :
    D.Respects m.store (invoke evaluate fn frame m) D.HoldsValue := by
  cases hentry : evaluate.room.entry with
  | true =>
    rw [invoke_of_fits hentry, lookScope_bind]
    exact respects_bracketed heval _ hm hfn hframe
  | false =>
    -- the frame of the function stays the head, and names may be bound in it
    have hcramped : D.Cramped := heval.room.resolve_left (by simp [hentry])
    have hgrows : m.store.Grows { m.store with scope := m.scope.enter frame } :=
      m.store.grows_scope (m.scope.grows_enter frame)
    rw [invoke_of_cramped hentry]
    exact ⟨hgrows, .inr ⟨hcramped, .inl rfl, D.holds_mono hgrows (D.holds_active hm hframe)⟩,
      fun _ => Fault.noConfusion, D.enter frame hm⟩

include heval in
theorem respects_applyFunction {fn : Function} {args : List Ref} (hm : D.Inv m.store)
    (hfn : D.HoldsFunction m.store fn) (hargs : D.HoldsAll m.store args) :
    D.Respects m.store (applyFunction evaluate fn args m) D.HoldsValue := by
  unfold applyFunction
  split
  · refine (respects_matchArgs heval hm hfn hargs).bind ?_
    intro frame? m₁ h hframe
    cases frame? with
    | some frame => exact respects_invoke heval h.inv (h.holdsFunction hfn) (hframe frame rfl)
    | none => exact respects_complain _ h.inv
  · exact respects_complain _ hm

theorem respects_traceChoice (room : Room) (name : String) (params : List Pattern)
    (hm : D.Inv m.store) :
    D.Respects m.store (traceChoice room name params m) fun _ _ => True := by
  unfold traceChoice
  split
  · exact respects_trace _ _ hm
  · exact respects_fail hm fun _ => Fault.noConfusion

include heval in
theorem respects_dispatch {args : List Ref} (name : String) (fns : List Function)
    (hm : D.Inv m.store) (hfns : ∀ fn ∈ fns, D.HoldsFunction m.store fn)
    (hargs : D.HoldsAll m.store args) :
    D.Respects m.store (dispatch evaluate name args fns m) D.HoldsValue := by
  induction fns generalizing m with
  | nil => exact respects_complain _ hm
  | cons fn fns ih =>
    unfold dispatch
    have hfn := hfns fn List.mem_cons_self
    refine (respects_matchArgs heval hm hfn hargs).bind ?_
    intro frame? m₁ h hframe
    cases frame? with
    | some frame =>
      refine (respects_traceChoice _ name fn.params h.inv).bind ?_
      intro _ m₂ h₂ _
      refine respects_invoke heval h₂.inv ((h.trans h₂).holdsFunction hfn) ?_
      exact D.active_mono h₂.grows (hframe frame rfl)
    | none =>
      refine ih h.inv ?_ (h.holdsAll hargs)
      intro g hg
      exact h.holdsFunction (hfns g (List.mem_cons_of_mem _ hg))

theorem respects_toNumber {v : Ref} (hm : D.Inv m.store) (hv : D.HoldsValue m.store v) :
    D.Respects m.store (toNumber v m) D.HoldsValue := by
  unfold toNumber
  rw [look_bind]
  cases m.heap.payload v with
  | number x => exact respects_done hm hv
  | string text =>
    dsimp only
    cases Decimal.ofText? text with
    | some x => exact respects_allocNumber x hm
    | none => exact respects_complain _ hm
  | _ => exact respects_complain _ hm

theorem respects_length (v : Ref) (hm : D.Inv m.store) :
    D.Respects m.store (length v m) D.HoldsValue := by
  unfold length
  rw [look_bind]
  cases m.heap.payload v with
  | string text => exact respects_allocNumber _ hm
  | list items => exact respects_allocNumber _ hm
  | _ => exact respects_complain _ hm

theorem respects_applyIntrinsic {args : List Ref} (room : Room) (name : String) (code : Intrinsic)
    (hm : D.Inv m.store) (hargs : D.HoldsAll m.store args) :
    D.Respects m.store (applyIntrinsic room name code args m) D.HoldsValue := by
  unfold applyIntrinsic
  split
  · exact respects_length _ hm
  · exact respects_toNumber hm (hargs _ List.mem_cons_self)
  · refine respects_lookDeep hm fun shown => ?_
    refine Respects.bind (respects_change rfl hm) ?_
    intro _ m₁ h _
    exact respects_shared h.inv Heap.isShared_nullRef
  · exact respects_lookDeep hm fun shown => respects_allocString shown hm
  · refine respects_done hm ((D.closed hm).classOf (fun _ hr => D.holds_shared hm hr) ?_)
    exact hargs _ List.mem_cons_self
  · exact respects_allocList hm hargs
  · exact respects_complain _ hm

include heval in
theorem respects_applyPlain {callee : Ref} {args : List Ref} (hm : D.Inv m.store)
    (hcallee : D.HoldsValue m.store callee) (hargs : D.HoldsAll m.store args) :
    D.Respects m.store (applyPlain evaluate callee args m) D.HoldsValue := by
  unfold applyPlain
  rw [look_bind]
  cases hp : m.heap.payload callee with
  | function fn =>
    exact respects_applyFunction heval hm (holdsFunction_of_payload hm hcallee hp) hargs
  | overloads name fns =>
    exact respects_dispatch heval name fns hm (fun _ => holdsFunction_of_mem hm hcallee hp) hargs
  | native name arity code =>
    dsimp only
    split
    · exact respects_applyIntrinsic _ _ _ hm hargs
    · exact respects_complain _ hm
  | _ => exact respects_lookDeep hm fun shown => respects_complain _ hm

/-- Listing a call touches nothing that a discipline speaks of. -/
theorem respects_listed {room : Room} {callee : Ref} {args : List Ref} {site : Option (Option Loc)}
    {x : Run Ref} (hm : D.Inv m.store)
    (hx : ∀ m', D.Follows m.store m'.store → D.Respects m'.store (x m') D.HoldsValue) :
    D.Respects m.store (listed room callee args site x m) D.HoldsValue := by
  refine respects_entered ?_
  intro m₁ hstore
  have h₁ : D.Follows m.store m₁.store := by
    rw [hstore]
    exact .refl hm
  refine respects_lookDeep h₁.inv fun name => ?_
  refine (respects_trace _ _ h₁.inv).bind ?_
  intro _ m₂ h₂ _
  refine Respects.bind (respects_change rfl h₂.inv) ?_
  intro _ m₃ h₃ _
  have hsite : D.Respects m₃.store (visitSite site m₃) fun _ _ => True := by
    cases site with
    | none => exact respects_done h₃.inv trivial
    | some place => exact respects_setPlace place h₃.inv
  refine hsite.bind ?_
  intro _ m₄ h₄ _
  refine (hx m₄ (((h₁.trans h₂).trans h₃).trans h₄)).bind ?_
  intro result m₅ h₅ hresult
  refine Respects.bind (respects_change rfl h₅.inv) ?_
  intro _ m₆ h₆ _
  exact respects_done h₆.inv (h₆.holds hresult)

theorem respects_allocInstance {cls : Ref} (hm : D.Inv m.store)
    (hclass : (m.heap.class? cls).isSome = true) (hcls : D.HoldsValue m.store cls) :
    D.Respects m.store (make (·.allocInstance cls) m) fun s inst =>
      D.HoldsValue s inst ∧ s.heap.payload inst = .instance cls := by
  have hmake : D.Makes m.store (m.heap.allocInstance cls) := makes_allocInstance hm hclass hcls
  refine ⟨hmake.follows, hmake.holds, ?_⟩
  exact m.heap.payload_add_self _

include heval in
theorem respects_instantiate {cls : Ref} {info : ClassInfo} {args : List Ref}
    (hm : D.Inv m.store) (hclass : (m.heap.class? cls).isSome = true)
    (hcls : D.HoldsValue m.store cls) (hargs : D.HoldsAll m.store args) :
    D.Respects m.store (instantiate evaluate cls info args m) D.HoldsValue := by
  unfold instantiate
  split
  · refine (respects_allocInstance hm hclass hcls).bind ?_
    rintro inst m₁ h₁ ⟨hinst, hpayload⟩
    rw [look_bind]
    cases hinit : m₁.heap.findMethod? cls "init" with
    | some found =>
      obtain ⟨owner, init⟩ := found
      obtain ⟨howner, hmethod⟩ := (D.closed h₁.inv).findMethod (h₁.holds hcls) hinit
      have hbind := respects_make (m := m₁) (f := (·.bindMethod init inst owner))
        (makes_bindMethod h₁.inv hmethod hinst howner ⟨cls, "init", .class hpayload, hinit⟩)
      refine hbind.bind ?_
      intro bound m₂ h₂ hbound
      have hargs₂ := (h₁.trans h₂).holdsAll hargs
      have hrun : D.Respects m₂.store
          (listed evaluate.room bound args none (applyPlain evaluate bound args) m₂) D.HoldsValue := by
        refine respects_listed h₂.inv ?_
        intro m₃ h₃
        exact respects_applyPlain heval h₃.inv (h₃.holds hbound) (h₃.holdsAll hargs₂)
      -- whatever the initializer gives, the call gives the instance
      refine hrun.bind ?_
      intro _ m₄ h₄ _
      exact respects_done h₄.inv ((h₂.trans h₄).holds hinst)
    | none =>
      dsimp only
      split
      · exact respects_done h₁.inv hinst
      · exact respects_complain _ h₁.inv
  · exact respects_complain _ hm

include heval in
theorem respects_call {callee : Ref} {args : List Ref} (site : Option (Option Loc))
    (hm : D.Inv m.store) (hcallee : D.HoldsValue m.store callee)
    (hargs : D.HoldsAll m.store args) :
    D.Respects m.store (call evaluate callee args site m) D.HoldsValue := by
  refine respects_listed hm ?_
  intro m₁ h
  have hargs₁ := h.holdsAll hargs
  unfold apply
  rw [look_bind]
  have hplain := respects_applyPlain heval h.inv (h.holds hcallee) hargs₁
  cases hp : m₁.heap.payload callee with
  | classObject info =>
    have hclass : (m₁.heap.class? callee).isSome = true := by simp [Heap.class?, hp]
    exact respects_instantiate heval h.inv hclass (h.holds hcallee) hargs₁
  | _ => exact hplain

end Running

end TreeScript.Discipline
