import TreeScript.Proofs.Correspondence

/-!
# Calls correspond to calls of moved code

If expressions are evaluated as they are evaluated in other places, then so are
matching, dispatch and calls: the values and the payloads are the same but for
the places in the code of functions.
-/

namespace TreeScript.Correspondence

open Run

variable {C : Correspondence} {evaluate evaluate' : Evaluator}

/-! ## Matching -/

section Matching

mutual

theorem rel_accepts (heval : C.Evaluates evaluate evaluate') (frame : FrameId) :
    ∀ (p : Pattern) (v : Ref),
      C.Rel (accepts evaluate frame p v) (accepts evaluate' frame (p.revise C.moved) v)
  | .wildcard _, v => by
    rw [Pattern.revise, accepts, accepts]
    exact C.pure true
  | .name _ name, v => by
    rw [Pattern.revise, accepts, accepts]
    exact C.bind (C.defineIn frame name v) fun _ => C.pure true
  | .literal _ literal, v => by
    rw [Pattern.revise, accepts, accepts]
    refine C.bind (heval.run literal) fun expected => ?_
    rw [heval.room]
    exact C.lookDeep fun h => h.same?_moving C.place _ expected v
  | .typed _ name cls, v => by
    rw [Pattern.revise, accepts, accepts]
    refine C.bind (heval.run cls) fun c => ?_
    refine C.look_bind (fun h => by simp [Heap.revise]) fun accepted => ?_
    split
    · exact C.bind (C.defineIn frame name v) fun _ => C.pure true
    · exact C.pure false
  | .list _ patterns, v => by
    rw [Pattern.revise, accepts, accepts]
    refine C.payload_bind v fun p => ?_
    cases p with
    | list items =>
      simp only [Payload.revise, Payload.mapFunctions, Pattern.reviseAll_eq_map, List.length_map]
      split
      · rw [← Pattern.reviseAll_eq_map]
        exact rel_acceptsAll heval frame patterns items
      · exact C.pure false
    | _ => exact C.pure false

theorem rel_acceptsAll (heval : C.Evaluates evaluate evaluate') (frame : FrameId) :
    ∀ (ps : List Pattern) (vs : List Ref),
      C.Rel (acceptsAll evaluate frame ps vs)
        (acceptsAll evaluate' frame (Pattern.reviseAll C.moved ps) vs)
  | [], _ => by
    rw [Pattern.reviseAll, acceptsAll.eq_def, acceptsAll.eq_def]
    exact C.pure true
  | _ :: _, [] => by
    rw [Pattern.reviseAll, acceptsAll.eq_def, acceptsAll.eq_def]
    exact C.pure true
  | p :: ps, v :: vs => by
    rw [Pattern.reviseAll, acceptsAll, acceptsAll]
    refine C.bind (rel_accepts heval frame p v) fun accepted => ?_
    split
    · exact rel_acceptsAll heval frame ps vs
    · exact C.pure false

end

variable (heval : C.Evaluates evaluate evaluate')

include heval

theorem rel_matchArgs (fn : Function) (args : List Ref) :
    C.Rel (matchArgs evaluate fn args) (matchArgs evaluate' (fn.revise C.moved) args) := by
  unfold matchArgs
  rw [Function.length_params_revise]
  split
  · refine C.look_bind (fun h => h.frameName_revise C.moved fn) fun name => ?_
    refine C.bind (C.lookScope _) fun parent => ?_
    refine C.bind (C.newFrame name parent) fun frame => ?_
    refine C.bind (C.inFrame frame (rel_acceptsAll heval frame fn.params args)) fun accepted => ?_
    exact C.pure _
  · exact C.pure none

end Matching

/-! ## Running -/

section Running

theorem rel_defineSome (frame : FrameId) (name : String) (value : Option Ref) :
    C.Rel (defineSome frame name value) (defineSome frame name value) := by
  cases value with
  | none => exact C.pure ()
  | some v => exact C.defineIn frame name v

theorem rel_traceChoice (room : Room) (name : String) (params : List Pattern) :
    C.Rel (traceChoice room name params)
      (traceChoice room name (Pattern.reviseAll C.moved params)) := by
  have hwritable : (Pattern.reviseAll C.moved params).all (·.isWritable) =
      params.all (·.isWritable) := by
    simp only [Pattern.reviseAll_eq_map, List.all_map, Function.comp_def, moved,
      Pattern.isWritable_moving C.keepsWritable]
  unfold traceChoice
  rw [hwritable]
  split
  · exact C.choice _ name _ _
  · exact C.fail fun _ _ => Fault.noConfusion

theorem rel_toNumber (v : Ref) : C.Rel (toNumber v) (toNumber v) := by
  refine C.payload_bind v fun p => ?_
  cases p with
  | number x => exact C.pure v
  | string text =>
    simp only [Payload.revise, Payload.mapFunctions]
    cases Decimal.ofText? text with
    | some x => exact C.allocNumber x
    | none => exact C.complain _
  | _ => exact C.complain _

theorem rel_length (v : Ref) : C.Rel (length v) (length v) := by
  refine C.payload_bind v fun p => ?_
  cases p with
  | string text => exact C.allocNumber _
  | list items => exact C.allocNumber _
  | _ => exact C.complain _

theorem rel_applyIntrinsic (room : Room) (name : String) (code : Intrinsic) (args : List Ref) :
    C.Rel (applyIntrinsic room name code args) (applyIntrinsic room name code args) := by
  unfold applyIntrinsic
  split
  · exact rel_length _
  · exact rel_toNumber _
  · exact C.bind (C.display room _) fun shown => C.bind (C.emit shown) fun _ => C.pure _
  · exact C.bind (C.display room _) fun shown => C.alloc (.string shown)
  · exact C.look_same fun h => h.classOf_revise C.moved _
  · exact C.alloc (.list args)
  · exact C.complain _

variable (heval : C.Evaluates evaluate evaluate')

include heval

theorem rel_invoke (fn : Function) (frame : FrameId) :
    C.Rel (invoke evaluate fn frame) (invoke evaluate' (fn.revise C.moved) frame) := by
  cases hentry : evaluate.room.entry with
  | true =>
    have hentry' : evaluate'.room.entry = true := by rw [heval.room, hentry]
    rw [invoke_of_fits hentry, invoke_of_fits hentry', Function.length_params_revise]
    refine C.bind (C.lookScope _) fun name => C.body frame name fn.params.length ?_
    refine C.bind (rel_defineSome frame "self" fn.self) fun _ => ?_
    exact C.bind (rel_defineSome frame "super" fn.super) fun _ => heval.run fn.body
  | false =>
    have hentry' : evaluate'.room.entry = false := by rw [heval.room, hentry]
    rw [invoke_of_cramped hentry, invoke_of_cramped hentry']
    exact C.bind (C.changeScope _) fun _ => C.fail fun _ _ => Fault.noConfusion

theorem rel_applyFunction (fn : Function) (args : List Ref) :
    C.Rel (applyFunction evaluate fn args) (applyFunction evaluate' (fn.revise C.moved) args) := by
  unfold applyFunction
  rw [Function.length_params_revise]
  split
  · refine C.bind (rel_matchArgs heval fn args) fun frame? => ?_
    cases frame? with
    | some frame => exact rel_invoke heval fn frame
    | none => exact C.complain _
  · exact C.complain _

theorem rel_dispatch (name : String) (args : List Ref) (fns : List Function) :
    C.Rel (dispatch evaluate name args fns)
      (dispatch evaluate' name args (fns.map (Function.revise C.moved))) := by
  induction fns with
  | nil => exact C.complain _
  | cons fn fns ih =>
    refine C.bind (rel_matchArgs heval fn args) fun frame? => ?_
    cases frame? with
    | some frame =>
      refine C.bind ?_ fun _ => rel_invoke heval fn frame
      rw [heval.room]
      exact rel_traceChoice _ name fn.params
    | none => exact ih

theorem rel_applyPlain (callee : Ref) (args : List Ref) :
    C.Rel (applyPlain evaluate callee args) (applyPlain evaluate' callee args) := by
  refine C.payload_bind callee fun p => ?_
  have hrefused := C.bind (β := Ref) (C.display evaluate.room callee)
    fun shown => C.complain (.notCallable shown)
  cases p with
  | function fn => exact rel_applyFunction heval fn args
  | overloads name fns => exact rel_dispatch heval name args fns
  | native name arity code =>
    simp only [Payload.revise, Payload.mapFunctions, heval.room]
    split
    · exact rel_applyIntrinsic _ name code args
    · exact C.complain _
  | _ => simpa only [Payload.revise, Payload.mapFunctions, heval.room] using hrefused

theorem rel_instantiate (cls : Ref) (info : ClassInfo) (args : List Ref) :
    C.Rel (instantiate evaluate cls info args) (instantiate evaluate' cls info args) := by
  unfold instantiate
  split
  · refine C.bind (C.make fun h => h.allocInstance_revise C.moved cls) fun inst => ?_
    refine C.look_bind (fun h => Heap.findMethod?_mapFunctions _ h cls "init") fun init? => ?_
    cases init? with
    | some found =>
      obtain ⟨owner, init⟩ := found
      have hbind := C.make (f := (·.bindMethod init inst owner)) (g := (·.bindMethod init inst owner))
        fun h => h.bindMethod_revise C.moved init inst owner
      refine C.bind hbind fun bound => ?_
      have hinit := C.listed evaluate.room bound args none (rel_applyPlain heval bound args)
      rw [heval.room]
      exact C.bind hinit fun _ => C.pure inst
    | none =>
      dsimp only
      split
      · exact C.pure inst
      · exact C.complain _
  · exact C.complain _

theorem rel_apply (callee : Ref) (args : List Ref) :
    C.Rel (apply evaluate callee args) (apply evaluate' callee args) := by
  refine C.payload_bind callee fun p => ?_
  cases p with
  | classObject info => exact rel_instantiate heval callee info args
  | _ => exact rel_applyPlain heval callee args

theorem rel_call (callee : Ref) (args : List Ref) (site : Option (Option Loc)) :
    C.Rel (call evaluate callee args site) (call evaluate' callee args (site.map C.place)) := by
  unfold call
  rw [heval.room]
  exact C.listed evaluate.room callee args site (rel_apply heval callee args)

end Running

end TreeScript.Correspondence
