import TreeScript.Proofs.Correspondence.Evaluation

/-!
# Evaluations that agree as far as they go

Two ways of evaluating agree if they have the same outcome until they part, and
once they have parted they stay apart. If expressions are evaluated in ways that
agree, then so are matching, calls, and every expression but the writing of a
member. Along the way a property of heaps is kept that neither new objects nor the
definition of classes take away; writing members is left out since that is what
may take it away.
-/

namespace TreeScript

namespace Heap

/-- A property of heaps that only the writing of fields can take away. -/
structure Lasting (I : Heap → Prop) : Prop where
  add {h : Heap} (o : Object) : I h → I (h.add o).2
  updateClass {h : Heap} (c : Ref) (f : ClassInfo → ClassInfo) : I h → I (h.updateClass c f)

variable {I : Heap → Prop} {h : Heap}

theorem Lasting.rebind (hI : Lasting I) (hh : I h) (callee : Ref) (f : Function → Function) :
    I (h.rebind callee f).2 := by
  unfold Heap.rebind
  split
  · exact hI.add _ hh
  · exact hI.add _ hh
  · exact hh

theorem Lasting.bindMethod (hI : Lasting I) (hh : I h) (method inst owner : Ref) :
    I (h.bindMethod method inst owner).2 := by
  unfold Heap.bindMethod
  split
  · split
    · exact hI.rebind (hI.add _ hh) method _
    · exact hI.rebind hh method _
  · exact hh

theorem Lasting.member? (hI : Lasting I) (hh : I h) {r : Ref} {name : String}
    {made : Ref × Heap} (hmade : h.member? r name = some made) : I made.2 := by
  have hfield (inst start : Ref) (hfound : h.fieldOrMethod? inst start name = some made) :
      I made.2 := by
    unfold fieldOrMethod? at hfound
    split at hfound
    · cases hfound
      exact hh
    · obtain ⟨found, -, rfl⟩ := Option.map_eq_some_iff.mp hfound
      exact hI.bindMethod hh _ _ _
  unfold Heap.member? at hmade
  split at hmade
  · split at hmade
    · cases hmade
      exact hh
    · obtain ⟨v, -, rfl⟩ := Option.map_eq_some_iff.mp hmade
      exact hh
  · exact hfield _ _ hmade
  · exact hfield _ _ hmade

end Heap

/-- The machine that an outcome leaves has a heap with the property. -/
def Outcome.Leaves {α : Type} (I : Heap → Prop) (o : Outcome α) : Prop :=
  o.Ends (fun _ m => I m.heap) fun _ m => I m.heap

namespace Run

/-- What closes a computation ends, and fails only as if there had been no room for it. -/
def Closing (last : Run Unit) : Prop :=
  ∀ m, last m ≠ .exhausted ∧ ∀ e m', last m = .failed e m' → e.LosesHead

/-- How the ends of two computations may differ. Whatever comes after them, they still do. -/
structure Gap where
  Apart : ∀ {α : Type}, Outcome α → Outcome α → Prop
  bind : ∀ {α β : Type} {x y : Run α} {m m' : Machine} (f g : α → Run β),
    Apart (x m) (y m') → Apart ((x >>= f) m) ((y >>= g) m')
  ensuring : ∀ {α : Type} {x y : Run α} {m m' : Machine} {last : Run Unit},
    Closing last → Apart (x m) (y m') →
    Apart (Run.ensuring x last m) (Run.ensuring y last m')

/-- The first computation has stopped. -/
def Gap.stopped : Gap where
  Apart o _ := o = .exhausted
  bind f _ h := bind_exhausted h f
  ensuring _ h := by rw [ensuring_apply, h]

/-- The first computation has failed, and closing leaves no other faults. -/
def Gap.failed (P : Fault → Prop) (hP : ∀ e, e.LosesHead → P e) : Gap where
  Apart o _ := ∃ e m, o = .failed e m ∧ P e
  bind f _ := by
    rintro ⟨e, m, h, he⟩
    exact ⟨e, m, bind_failed h f, he⟩
  ensuring {α x y m m' last} hlast := by
    rintro ⟨e, m₁, h, he⟩
    rw [ensuring_apply, h]
    dsimp only
    rw [bind_apply]
    cases hend : last m₁ with
    | done _ m₂ => exact ⟨e, m₂, rfl, he⟩
    | failed e' m₂ => exact ⟨e', m₂, rfl, hP e' ((hlast m₁).2 e' m₂ hend)⟩
    | exhausted => exact absurd hend (hlast m₁).1

variable {α β : Type} {G : Gap} {I : Heap → Prop}

/-- From a heap with the property, the two computations part, or else they have the same outcome,
which keeps the property. -/
def Agrees (G : Gap) (I : Heap → Prop) (x y : Run α) : Prop :=
  ∀ m, I m.heap → G.Apart (x m) (y m) ∨ x m = y m ∧ (y m).Leaves I

/-! ## Sequences -/

theorem agrees_self {x : Run α} (h : ∀ m, I m.heap → (x m).Leaves I) : Agrees G I x x :=
  fun m hm => .inr ⟨rfl, h m hm⟩

/-- What leaves the heap as it was agrees with itself. -/
theorem agrees_still {x : Run α} (h : ∀ m, (x m).Leaves (· = m.heap)) : Agrees G I x x :=
  agrees_self fun m hm => (h m).imp (fun _ _ heq => heq ▸ hm) fun _ _ heq => heq ▸ hm

theorem agrees_pure (a : α) : Agrees G I (Pure.pure a : Run α) (Pure.pure a) :=
  agrees_still fun _ => rfl

theorem agrees_fail (e : Fault) : Agrees G I (fail e : Run α) (fail e) := agrees_still fun _ => rfl

theorem agrees_complain (c : Complaint) : Agrees G I (complain c : Run α) (complain c) :=
  agrees_still fun _ => rfl

theorem agrees_look (f : Heap → α) : Agrees G I (look f) (look f) := agrees_still fun _ => rfl

theorem agrees_lookDeep (f : Heap → Option α) : Agrees G I (lookDeep f) (lookDeep f) := by
  refine agrees_still fun m => ?_
  unfold lookDeep
  cases f m.heap <;> rfl

theorem agrees_lookScope (f : Scope Ref → α) : Agrees G I (lookScope f) (lookScope f) :=
  agrees_still fun _ => rfl

theorem agrees_change {f : Machine → Machine} (hf : ∀ m, (f m).heap = m.heap) :
    Agrees G I (change f) (change f) :=
  agrees_still hf

theorem agrees_changeScope (f : Scope Ref → Scope Ref) :
    Agrees G I (changeScope f) (changeScope f) :=
  agrees_change fun _ => rfl

theorem agrees_trace (fits : Bool) (line : Machine → String) :
    Agrees G I (trace fits line) (trace fits line) := by
  cases fits with
  | true => exact agrees_change fun m => by split <;> rfl
  | false => exact agrees_fail _

theorem agrees_setPlace (place : Option Loc) : Agrees G I (setPlace place) (setPlace place) :=
  agrees_change fun _ => rfl

theorem agrees_emit (topic : Topic) (message : String) :
    Agrees G I (emit topic message) (emit topic message) :=
  agrees_change fun _ => rfl

theorem agrees_defineIn (frame : FrameId) (name : String) (v : Ref) :
    Agrees G I (defineIn frame name v) (defineIn frame name v) :=
  agrees_changeScope _

theorem agrees_newFrame (name : String) (parent : FrameId) :
    Agrees G I (newFrame name parent) (newFrame name parent) :=
  agrees_still fun _ => rfl

theorem agrees_popFrame : Agrees G I popFrame popFrame := by
  refine agrees_still fun m => ?_
  unfold popFrame
  cases m.scope.pop <;> rfl

theorem closing_change (f : Machine → Machine) : Closing (change f) :=
  fun _ => ⟨nofun, nofun⟩

theorem closing_popFrame : Closing popFrame := by
  intro m
  unfold popFrame
  cases m.scope.pop with
  | ok _ => exact ⟨nofun, nofun⟩
  | error stack =>
    refine ⟨nofun, fun e m' h => ?_⟩
    cases h
    exact .inr ⟨stack, rfl⟩

theorem Closing.trace {last : Run Unit} (hlast : Closing last) (fits : Bool)
    (line : Machine → String) : Closing (do last; Run.trace fits line) := by
  intro m
  rw [bind_apply]
  cases h : last m with
  | done _ m' =>
    cases fits with
    | true => exact ⟨nofun, nofun⟩
    | false =>
      refine ⟨nofun, fun e m'' hfailed => ?_⟩
      cases hfailed
      exact .inl rfl
  | failed e m' =>
    refine ⟨nofun, fun e' m'' hfailed => ?_⟩
    cases hfailed
    exact (hlast m).2 e m' h
  | exhausted => exact absurd h (hlast m).1

theorem agrees_make {f : Heap → Ref × Heap} (hf : ∀ h, I h → I (f h).2) :
    Agrees G I (make f) (make f) :=
  agrees_self fun m hm => hf m.heap hm

theorem agrees_alloc (hI : Heap.Lasting I) (p : Payload) : Agrees G I (alloc p) (alloc p) :=
  agrees_make fun _ hh => hI.add _ hh

theorem agrees_changeHeap {f : Heap → Heap} (hf : ∀ h, I h → I (f h)) :
    Agrees G I (changeHeap f) (changeHeap f) :=
  agrees_self fun m hm => hf m.heap hm

theorem Agrees.bind {x y : Run α} {f g : α → Run β} (hx : Agrees G I x y)
    (hf : ∀ a, Agrees G I (f a) (g a)) : Agrees G I (x >>= f) (y >>= g) := by
  intro m hm
  rcases hx m hm with hparts | ⟨hsame, hleaves⟩
  · exact .inl (G.bind f g hparts)
  · rw [bind_apply, bind_apply, hsame]
    cases hym : y m with
    | done a m' =>
      rw [hym] at hleaves
      exact hf a m' hleaves
    | failed e m' =>
      rw [hym] at hleaves
      exact .inr ⟨rfl, hleaves⟩
    | exhausted => exact .inr ⟨rfl, trivial⟩

theorem Agrees.ensuring {x y : Run α} {last : Run Unit} (hx : Agrees G I x y)
    (hlast : Agrees G I last last) (hends : Closing last) :
    Agrees G I (ensuring x last) (ensuring y last) := by
  intro m hm
  rcases hx m hm with hparts | ⟨hsame, hleaves⟩
  · exact .inl (G.ensuring hends hparts)
  · rw [ensuring_apply, ensuring_apply, hsame]
    cases hym : y m with
    | done a m' =>
      rw [hym] at hleaves
      exact hlast.bind (fun _ => agrees_pure a) m' hleaves
    | failed e m' =>
      rw [hym] at hleaves
      exact hlast.bind (fun _ => agrees_fail e) m' hleaves
    | exhausted => exact .inr ⟨rfl, trivial⟩

theorem Agrees.entered {x y : Run α} (hx : Agrees G I x y) : Agrees G I (entered x) (entered y) :=
  Agrees.bind (agrees_change fun _ => rfl) fun _ =>
    hx.ensuring (agrees_change fun _ => rfl) (closing_change _)

theorem Agrees.inFrame {x y : Run α} (hx : Agrees G I x y) (frame : FrameId) :
    Agrees G I (inFrame frame x) (inFrame frame y) :=
  (agrees_lookScope _).bind fun _ =>
    (agrees_changeScope _).bind fun _ => hx.ensuring (agrees_changeScope _) (closing_change _)

theorem Agrees.inNewFrame {x y : Run α} (hx : Agrees G I x y) (name : String) :
    Agrees G I (inNewFrame name x) (inNewFrame name y) :=
  (agrees_changeScope _).bind fun _ => hx.ensuring agrees_popFrame closing_popFrame

/-! ## Room -/

/-- There is room for the same. It is only for lines of the trace that there may be room in one and
not in the other, and then they part. -/
structure RoomsAgree (G : Gap) (I : Heap → Prop) (room room' : Room) : Prop where
  line : ∀ line, Agrees G I (trace room.line line) (trace room'.line line)
  entry : room'.entry = room.entry
  compared : room'.compared = room.compared
  shown : room'.shown = room.shown

theorem RoomsAgree.refl (room : Room) : RoomsAgree G I room room :=
  ⟨fun line => agrees_trace _ line, rfl, rfl, rfl⟩

theorem callName?_congr {room room' : Room} (h : room'.shown = room.shown) :
    callName? room' = callName? room := by
  unfold callName?
  rw [h]

theorem Agrees.listed {x y : Run Ref} (hx : Agrees G I x y) {room room' : Room}
    (hroom : RoomsAgree G I room room') (callee : Ref) (args : List Ref)
    (site : Option (Option Loc)) :
    Agrees G I (listed room callee args site x) (listed room' callee args site y) := by
  have hsite : Agrees G I (visitSite site) (visitSite site) := by
    cases site with
    | none => exact agrees_pure ()
    | some place => exact agrees_setPlace place
  unfold Run.listed
  rw [callName?_congr hroom.shown]
  refine Agrees.entered ((agrees_lookDeep _).bind fun name => (hroom.line _).bind fun _ => ?_)
  refine Agrees.bind (agrees_change fun _ => rfl) fun _ => hsite.bind fun _ => hx.bind fun v => ?_
  exact Agrees.bind (agrees_change fun _ => rfl) fun _ => agrees_pure v

/-! ## Calls -/

section Reading

theorem agrees_toNumber (hI : Heap.Lasting I) (v : Ref) : Agrees G I (toNumber v) (toNumber v) := by
  refine (agrees_look _).bind fun p => ?_
  split
  · exact agrees_pure v
  · split
    · exact agrees_alloc hI _
    · exact agrees_complain _
  · exact agrees_complain _

theorem agrees_length (hI : Heap.Lasting I) (v : Ref) : Agrees G I (length v) (length v) := by
  refine (agrees_look _).bind fun p => ?_
  split
  · exact agrees_alloc hI _
  · exact agrees_alloc hI _
  · exact agrees_complain _

theorem agrees_display {room room' : Room} (hroom : room'.shown = room.shown) (v : Ref) :
    Agrees G I (display room v) (display room' v) := by
  unfold display
  rw [hroom]
  exact agrees_lookDeep _

theorem agrees_applyIntrinsic (hI : Heap.Lasting I) {room room' : Room}
    (hroom : room'.shown = room.shown) (name : String) (code : Intrinsic) (args : List Ref) :
    Agrees G I (applyIntrinsic room name code args) (applyIntrinsic room' name code args) := by
  unfold applyIntrinsic
  split
  · exact agrees_length hI _
  · exact agrees_toNumber hI _
  · exact (agrees_display hroom _).bind fun shown => (agrees_emit _ shown).bind fun _ => agrees_pure _
  · exact (agrees_display hroom _).bind fun shown => agrees_alloc hI _
  · exact agrees_look _
  · exact agrees_alloc hI _
  · exact agrees_complain _

theorem agrees_traceChoice {room room' : Room} (hroom : RoomsAgree G I room room') (name : String)
    (params : List Pattern) :
    Agrees G I (traceChoice room name params) (traceChoice room' name params) := by
  unfold traceChoice
  split
  · exact hroom.line _
  · exact agrees_fail _

theorem agrees_defineSome (frame : FrameId) (name : String) (value : Option Ref) :
    Agrees G I (defineSome frame name value) (defineSome frame name value) := by
  cases value with
  | none => exact agrees_pure ()
  | some v => exact agrees_defineIn frame name v

end Reading

/-- Two evaluators that agree on every expression, and have room for the same. -/
structure Agree (G : Gap) (I : Heap → Prop) (evaluate evaluate' : Evaluator) : Prop where
  run : ∀ e, Agrees G I (evaluate e) (evaluate' e)
  room : RoomsAgree G I evaluate.room evaluate'.room

section Calling

variable {evaluate evaluate' : Evaluator}

mutual

theorem agrees_accepts (heval : Agree G I evaluate evaluate') (frame : FrameId) :
    ∀ (p : Pattern) (v : Ref), Agrees G I (accepts evaluate frame p v) (accepts evaluate' frame p v)
  | .wildcard _, v => by
    rw [accepts, accepts]
    exact agrees_pure true
  | .name _ name, v => by
    rw [accepts, accepts]
    exact (agrees_defineIn frame name v).bind fun _ => agrees_pure true
  | .literal _ literal, v => by
    rw [accepts, accepts, heval.room.compared]
    exact (heval.run literal).bind fun expected => agrees_lookDeep _
  | .typed _ name cls, v => by
    rw [accepts, accepts]
    refine (heval.run cls).bind fun c => (agrees_look _).bind fun accepted => ?_
    split
    · exact (agrees_defineIn frame name v).bind fun _ => agrees_pure true
    · exact agrees_pure false
  | .list _ patterns, v => by
    rw [accepts, accepts]
    refine (agrees_look _).bind fun p => ?_
    split
    · split
      · exact agrees_acceptsAll heval frame patterns _
      · exact agrees_pure false
    · exact agrees_pure false

theorem agrees_acceptsAll (heval : Agree G I evaluate evaluate') (frame : FrameId) :
    ∀ (ps : List Pattern) (vs : List Ref),
      Agrees G I (acceptsAll evaluate frame ps vs) (acceptsAll evaluate' frame ps vs)
  | [], _ => by
    rw [acceptsAll.eq_def, acceptsAll.eq_def]
    exact agrees_pure true
  | _ :: _, [] => by
    rw [acceptsAll.eq_def, acceptsAll.eq_def]
    exact agrees_pure true
  | p :: ps, v :: vs => by
    rw [acceptsAll, acceptsAll]
    refine (agrees_accepts heval frame p v).bind fun accepted => ?_
    split
    · exact agrees_acceptsAll heval frame ps vs
    · exact agrees_pure false

end

variable (heval : Agree G I evaluate evaluate')

include heval

theorem agrees_matchArgs (fn : Function) (args : List Ref) :
    Agrees G I (matchArgs evaluate fn args) (matchArgs evaluate' fn args) := by
  unfold matchArgs
  split
  · refine (agrees_look _).bind fun name => (agrees_lookScope _).bind fun parent => ?_
    refine (agrees_newFrame name parent).bind fun frame => ?_
    exact ((agrees_acceptsAll heval frame fn.params args).inFrame frame).bind fun _ => agrees_pure _
  · exact agrees_pure none

theorem agrees_anyAccepts (args : List Ref) (fns : List Function) :
    Agrees G I (anyAccepts evaluate args fns) (anyAccepts evaluate' args fns) := by
  induction fns with
  | nil => exact agrees_pure false
  | cons fn fns ih =>
    refine (agrees_matchArgs heval fn args).bind fun frame? => ?_
    split
    · exact agrees_pure true
    · exact ih

theorem agrees_isApplicable? (callee : Ref) (args : List Ref) :
    Agrees G I (isApplicable? evaluate callee args) (isApplicable? evaluate' callee args) := by
  refine (agrees_look _).bind fun p => ?_
  cases p with
  | function fn => exact (agrees_matchArgs heval fn args).bind fun frame? => agrees_pure _
  | overloads name fns => exact (agrees_anyAccepts heval args fns).bind fun ok => agrees_pure _
  | _ => exact agrees_pure _

theorem agrees_invoke (fn : Function) (frame : FrameId) :
    Agrees G I (invoke evaluate fn frame) (invoke evaluate' fn frame) := by
  unfold invoke
  rw [heval.room.entry]
  refine (agrees_lookScope _).bind fun name => (agrees_lookScope _).bind fun head => ?_
  refine (agrees_changeScope _).bind fun _ => (agrees_trace _ _).bind fun _ => ?_
  refine Agrees.ensuring ?_ ((agrees_changeScope _).bind fun _ => agrees_trace _ _)
    ((closing_change _).trace _ _)
  refine (agrees_defineSome frame "self" fn.self).bind fun _ => ?_
  exact (agrees_defineSome frame "super" fn.super).bind fun _ => heval.run fn.body

theorem agrees_applyFunction (fn : Function) (args : List Ref) :
    Agrees G I (applyFunction evaluate fn args) (applyFunction evaluate' fn args) := by
  unfold applyFunction
  split
  · refine (agrees_matchArgs heval fn args).bind fun frame? => ?_
    cases frame? with
    | some frame => exact agrees_invoke heval fn frame
    | none => exact agrees_complain _
  · exact agrees_complain _

theorem agrees_dispatch (name : String) (args : List Ref) (fns : List Function) :
    Agrees G I (dispatch evaluate name args fns) (dispatch evaluate' name args fns) := by
  induction fns with
  | nil => exact agrees_complain _
  | cons fn fns ih =>
    refine (agrees_matchArgs heval fn args).bind fun frame? => ?_
    cases frame? with
    | some frame =>
      exact (agrees_traceChoice heval.room name fn.params).bind fun _ => agrees_invoke heval fn frame
    | none => exact ih

theorem agrees_applyPlain (hI : Heap.Lasting I) (callee : Ref) (args : List Ref) :
    Agrees G I (applyPlain evaluate callee args) (applyPlain evaluate' callee args) := by
  refine (agrees_look _).bind fun p => ?_
  cases p with
  | function fn => exact agrees_applyFunction heval fn args
  | overloads name fns => exact agrees_dispatch heval name args fns
  | native name arity code =>
    dsimp only
    split
    · exact agrees_applyIntrinsic hI heval.room.shown name code args
    · exact agrees_complain _
  | _ => exact (agrees_display heval.room.shown _).bind fun shown => agrees_complain _

theorem agrees_instantiate (hI : Heap.Lasting I) (cls : Ref) (info : ClassInfo) (args : List Ref) :
    Agrees G I (instantiate evaluate cls info args) (instantiate evaluate' cls info args) := by
  unfold instantiate
  split
  · refine (agrees_make fun _ hh => hI.add _ hh).bind fun inst => (agrees_look _).bind fun init? => ?_
    cases init? with
    | some found =>
      refine (agrees_make fun _ hh => hI.bindMethod hh _ _ _).bind fun bound => ?_
      exact ((agrees_applyPlain heval hI bound args).listed heval.room bound args none).bind fun _ =>
        agrees_pure inst
    | none =>
      dsimp only
      split
      · exact agrees_pure inst
      · exact agrees_complain _
  · exact agrees_complain _

theorem agrees_call (hI : Heap.Lasting I) (callee : Ref) (args : List Ref)
    (site : Option (Option Loc)) :
    Agrees G I (call evaluate callee args site) (call evaluate' callee args site) := by
  refine Agrees.listed ((agrees_look _).bind fun p => ?_) heval.room callee args site
  cases p with
  | classObject info => exact agrees_instantiate heval hI callee info args
  | _ => exact agrees_applyPlain heval hI callee args

end Calling

/-! ## Expressions -/

section Parts

theorem agrees_fillTemplate (hI : Heap.Lasting I) {room room' : Room}
    (hroom : room'.shown = room.shown) (template : String) :
    Agrees G I (fillTemplate room template) (fillTemplate room' template) := by
  unfold fillTemplate
  rw [hroom]
  refine (agrees_lookScope _).bind fun bound => (agrees_lookDeep _).bind fun _ => ?_
  refine (agrees_lookScope _).bind fun entries => (agrees_look _).bind fun table => ?_
  split
  · exact agrees_alloc hI _
  · exact agrees_complain _
  · exact agrees_fail _
  · exact agrees_fail _

theorem agrees_lookup (name : String) : Agrees G I (lookup name) (lookup name) := by
  refine (agrees_lookScope _).bind fun v? => ?_
  split
  · exact agrees_pure _
  · exact agrees_complain _

theorem agrees_readMember (hI : Heap.Lasting I) {room room' : Room}
    (hroom : room'.shown = room.shown) (v : Ref) (name : String) :
    Agrees G I (readMember room v name) (readMember room' v name) := by
  intro m hm
  unfold readMember
  cases hmember : m.heap.member? v name with
  | some made => exact .inr ⟨rfl, hI.member? hm hmember⟩
  | none => exact (agrees_display hroom v).bind (fun shown => agrees_complain _) m hm

theorem agrees_asNumber (v : Ref) : Agrees G I (asNumber v) (asNumber v) := by
  refine (agrees_look _).bind fun p => ?_
  split
  · exact agrees_pure _
  · exact agrees_complain _

theorem agrees_asList (v : Ref) : Agrees G I (asList v) (asList v) := by
  refine (agrees_look _).bind fun p => ?_
  split
  · exact agrees_pure _
  · exact agrees_complain _

theorem agrees_asClass (v : Ref) : Agrees G I (asClass v) (asClass v) := by
  refine (agrees_look _).bind fun found => ?_
  split
  · exact agrees_pure v
  · exact agrees_complain _

theorem agrees_ofExcept {α : Type} (result : Except Fault α) :
    Agrees G I (ofExcept result) (ofExcept result) := by
  cases result with
  | ok a => exact agrees_pure a
  | error e => exact agrees_fail e

theorem agrees_defineFunction (hI : Heap.Lasting I) (fn : Function) :
    Agrees G I (defineFunction fn) (defineFunction fn) := by
  refine (agrees_lookScope _).bind fun existing => (agrees_look _).bind fun p => ?_
  exact (agrees_alloc hI p).bind fun v => (agrees_changeScope _).bind fun _ => agrees_pure v

theorem agrees_defineMethod (hI : Heap.Lasting I) (cls : Ref) (fn : Function) :
    Agrees G I (defineMethod cls fn) (defineMethod cls fn) := by
  refine (agrees_look _).bind fun existing => (agrees_look _).bind fun p => ?_
  exact (agrees_alloc hI p).bind fun v => agrees_changeHeap fun _ hh => hI.updateClass cls _ hh

theorem agrees_defineDefault (hI : Heap.Lasting I) (cls : Ref) (name : String) (v : Ref) :
    Agrees G I (defineDefault cls name v) (defineDefault cls name v) :=
  agrees_changeHeap fun _ hh => hI.updateClass cls _ hh

theorem Agrees.repeatWhile {condition condition' : Run Bool} {body body' : Run Unit}
    (hcondition : Agrees G I condition condition') (hbody : Agrees G I body body') (rounds : Nat) :
    Agrees G I (repeatWhile condition body rounds) (repeatWhile condition' body' rounds) := by
  induction rounds with
  | zero => exact agrees_still fun _ => trivial
  | succ rounds ih =>
    refine hcondition.bind fun holds => ?_
    split
    · exact hbody.bind fun _ => ih
    · exact agrees_pure ()

end Parts

section Level

variable {evaluate evaluate' : Evaluator} (heval : Agree G I evaluate evaluate')

include heval

theorem agrees_evaluateAll (es : List Expr) :
    Agrees G I (evaluateAll evaluate es) (evaluateAll evaluate' es) := by
  induction es with
  | nil => exact agrees_pure []
  | cons e es ih => exact (heval.run e).bind fun v => ih.bind fun vs => agrees_pure (v :: vs)

theorem agrees_evaluateLast (last : Ref) (es : List Expr) :
    Agrees G I (evaluateLast evaluate last es) (evaluateLast evaluate' last es) := by
  induction es generalizing last with
  | nil => exact agrees_pure last
  | cons e es ih => exact (heval.run e).bind ih

theorem agrees_evaluateTruth (e : Expr) :
    Agrees G I (evaluateTruth evaluate e) (evaluateTruth evaluate' e) :=
  (heval.run e).bind fun _ => agrees_look _

theorem agrees_evaluateNumber (e : Expr) :
    Agrees G I (evaluateNumber evaluate e) (evaluateNumber evaluate' e) :=
  (heval.run e).bind agrees_asNumber

theorem agrees_evaluateOperator (hI : Heap.Lasting I) (op : Operator) (left right : Expr) :
    Agrees G I (evaluateOperator evaluate op left right)
      (evaluateOperator evaluate' op left right) := by
  have hnumber := agrees_evaluateNumber heval
  have htruth := agrees_evaluateTruth heval
  have hboolean (b : Bool) : Agrees G I (boolean b) (boolean b) := agrees_pure _
  cases op with
  | add =>
    refine (heval.run left).bind fun l => (heval.run right).bind fun r =>
      (agrees_look _).bind fun p => ?_
    split
    · exact agrees_alloc hI _
    · have hshown := agrees_display (G := G) (I := I) heval.room.shown
      exact (hshown _).bind fun l => (hshown _).bind fun r => agrees_alloc hI _
  | arithmetic op =>
    refine (hnumber left).bind fun x => (hnumber right).bind fun y => ?_
    exact (agrees_ofExcept _).bind fun z => agrees_alloc hI _
  | comparison op => exact (hnumber left).bind fun x => (hnumber right).bind fun y => hboolean _
  | equal | unequal =>
    refine (heval.run left).bind fun l => (heval.run right).bind fun r => ?_
    rw [heval.room.compared]
    exact (agrees_lookDeep _).bind fun same => hboolean _
  | both =>
    refine (htruth left).bind fun truth => ?_
    split
    · exact (htruth right).bind hboolean
    · exact hboolean false
  | either =>
    refine (htruth left).bind fun truth => ?_
    split
    · exact hboolean true
    · exact (htruth right).bind hboolean
  | isA =>
    refine (heval.run left).bind fun v => (heval.run right).bind fun w =>
      (agrees_asClass w).bind fun c => ?_
    exact (agrees_look _).bind hboolean

theorem agrees_evaluateIndex (target index : Expr) :
    Agrees G I (evaluateIndex evaluate target index) (evaluateIndex evaluate' target index) := by
  refine (heval.run target).bind fun v => (agrees_asList v).bind fun items => ?_
  refine (agrees_evaluateNumber heval index).bind fun x => ?_
  split
  · exact agrees_complain _
  · split
    · exact agrees_pure _
    · exact agrees_complain _

theorem agrees_defineMembers (hI : Heap.Lasting I) (cls : Ref) (es : List Expr) :
    Agrees G I (defineMembers evaluate cls es) (defineMembers evaluate' cls es) := by
  induction es with
  | nil => exact agrees_pure ()
  | cons e es ih =>
    have heffect := (heval.run e).bind fun _ => ih
    cases e with
    | function l name params body =>
      cases name with
      | none => exact heffect
      | some name =>
        refine (agrees_lookScope _).bind fun captured => ?_
        exact (agrees_defineMethod hI cls _).bind fun _ => ih
    | assign l target value =>
      cases target with
      | name l name =>
        exact (heval.run value).bind fun v => (agrees_defineDefault hI cls name v).bind fun _ => ih
      | _ => exact heffect
    | _ => exact heffect

theorem agrees_evaluateClass (hI : Heap.Lasting I) (name : String) (superclass : Option Expr)
    (body : List Expr) :
    Agrees G I (evaluateClass evaluate name superclass body)
      (evaluateClass evaluate' name superclass body) := by
  have hsuperclass : Agrees G I (evaluateSuperclass evaluate superclass)
      (evaluateSuperclass evaluate' superclass) := by
    cases superclass with
    | none => exact agrees_pure _
    | some e => exact (heval.run e).bind agrees_asClass
  refine hsuperclass.bind fun parent => (agrees_alloc hI _).bind fun cls => ?_
  refine ((agrees_defineMembers heval hI cls body).inNewFrame name).bind fun _ => ?_
  exact (agrees_changeScope _).bind fun _ => agrees_pure cls

/-- One level agrees if the parts do, except for the writing of a member. -/
theorem agrees_evaluateLevel (hI : Heap.Lasting I) (rounds : Nat) (e : Expr)
    (he : ∀ l l' owner name value, e ≠ .assign l (.member l' owner name) value) :
    Agrees G I (evaluateLevel evaluate rounds e) (evaluateLevel evaluate' rounds e) := by
  cases e with
  | number l literal => exact agrees_alloc hI _
  | string l s => exact agrees_alloc hI _
  | template l text =>
    unfold evaluateLevel
    exact agrees_fillTemplate hI heval.room.shown text
  | boolean l b => exact agrees_pure _
  | null l => exact agrees_pure _
  | list l items => exact (agrees_evaluateAll heval items).bind fun vs => agrees_alloc hI _
  | name l name => exact agrees_lookup name
  | assign l target value =>
    cases target with
    | member l' owner name => exact absurd rfl (he l l' owner name value)
    | name l' name =>
      exact (heval.run value).bind fun v => (agrees_changeScope _).bind fun _ => agrees_pure v
    | _ => exact agrees_complain _
  | block l body => exact (agrees_evaluateLast heval Heap.nullRef body).inNewFrame "block"
  | branch l condition yes no =>
    refine (agrees_evaluateTruth heval condition).bind fun truth => ?_
    split
    · exact heval.run yes
    · cases no with
      | some e => exact heval.run e
      | none => exact agrees_pure _
  | loop l condition body =>
    have hbody := (heval.run body).bind fun _ => agrees_pure ()
    have htruth := agrees_evaluateTruth heval condition
    exact (htruth.repeatWhile hbody rounds).bind fun _ => agrees_pure _
  | function l name params body =>
    refine (agrees_lookScope _).bind fun captured => ?_
    cases name with
    | none => exact agrees_alloc hI _
    | some name => exact agrees_defineFunction hI _
  | call l callee args =>
    refine (heval.run callee).bind fun f => ?_
    exact (agrees_evaluateAll heval args).bind fun vs => agrees_call heval hI f vs (some l)
  | operator l symbol left right =>
    unfold evaluateLevel
    dsimp only
    cases Operator.ofSymbol? symbol with
    | some op => exact agrees_evaluateOperator heval hI op left right
    | none => exact agrees_complain _
  | unary l symbol operand =>
    unfold evaluateLevel
    dsimp only
    cases UnaryOperator.ofSymbol? symbol with
    | none => exact agrees_complain _
    | some op =>
      cases op with
      | negate => exact (agrees_evaluateNumber heval operand).bind fun x => agrees_alloc hI _
      | not => exact (agrees_evaluateTruth heval operand).bind fun truth => agrees_pure _
  | member l target name =>
    unfold evaluateLevel
    exact (heval.run target).bind fun v => agrees_readMember hI heval.room.shown v name
  | index l target index => exact agrees_evaluateIndex heval target index
  | classDef l name superclass body => exact agrees_evaluateClass heval hI name superclass body

end Level

end Run

end TreeScript
