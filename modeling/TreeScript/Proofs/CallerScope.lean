import TreeScript.Machine.CallLaws
import TreeScript.Machine.Eval

/-!
# Calls do not see the chain of the caller

Whatever a call evaluates, it evaluates in a frame that hangs below the frame in
which the function was made, or below the global frame. So a computation that
only moves the head by running inside a frame of its own does the same from
every head: same outcome, same new frames and objects, same side effects. The
head itself is handed through. Calls are of this kind whatever the evaluator
does, if there is room for entering functions, and this needs no induction over
expressions.
-/

namespace TreeScript

namespace Machine

/-- The machine with another frame as the head of the active chain. -/
def withHead (m : Machine) (h : FrameId) : Machine := { m with scope := m.scope.enter h }

theorem withHead_head (m : Machine) : m.withHead m.scope.head = m := rfl

end Machine

namespace Outcome

variable {α : Type}

def withHead (h : FrameId) : Outcome α → Outcome α
  | .done a m => .done a (m.withHead h)
  | .failed e m => .failed e (m.withHead h)
  | .exhausted => .exhausted

/-- Two outcomes that are the same but for the heads that are left, which are the given ones. -/
def SameButHeads (h₁ h₂ : FrameId) : Outcome α → Outcome α → Prop
  | .done a m₁, .done b m₂ => a = b ∧ m₁.scope.head = h₁ ∧ m₂ = m₁.withHead h₂
  | .failed e m₁, .failed f m₂ => e = f ∧ m₁.scope.head = h₁ ∧ m₂ = m₁.withHead h₂
  | .exhausted, .exhausted => True
  | _, _ => False

end Outcome

namespace Run

variable {α β : Type}

/-- A computation that takes no notice of the head and hands it through. -/
def HeadFree (x : Run α) : Prop :=
  ∀ m h, x (m.withHead h) = (x m).withHead h

theorem HeadFree.bind {x : Run α} {f : α → Run β} (hx : HeadFree x) (hf : ∀ a, HeadFree (f a)) :
    HeadFree (x >>= f) := by
  intro m h
  rw [bind_apply, bind_apply, hx m h]
  cases x m with
  | done a m' => exact hf a m' h
  | failed e m' => rfl
  | exhausted => rfl

theorem HeadFree.sameButHeads {x : Run α} (hx : HeadFree x) (m : Machine) (h : FrameId) :
    (x m).SameButHeads m.scope.head h (x (m.withHead h)) := by
  -- handing the head through a machine that has it already is how the head comes back
  have hself := hx m m.scope.head
  rw [m.withHead_head] at hself
  rw [hx m h]
  cases hxm : x m with
  | done a m' =>
    rw [hxm] at hself
    injection hself with _ hm'
    exact ⟨rfl, congrArg (·.scope.head) hm', rfl⟩
  | failed e m' =>
    rw [hxm] at hself
    injection hself with _ hm'
    exact ⟨rfl, congrArg (·.scope.head) hm', rfl⟩
  | exhausted => trivial

/-! ## Operations of the machine -/

theorem headFree_pure (a : α) : HeadFree (Pure.pure a : Run α) := fun _ _ => rfl

theorem headFree_complain (c : Complaint) : HeadFree (complain c : Run α) := fun _ _ => rfl

theorem headFree_fail (e : Fault) : HeadFree (fail e : Run α) := fun _ _ => rfl

theorem headFree_look (f : Heap → α) : HeadFree (look f) := fun _ _ => rfl

theorem headFree_make (f : Heap → Ref × Heap) : HeadFree (make f) := fun _ _ => rfl

theorem headFree_alloc (p : Payload) : HeadFree (alloc p) := headFree_make (·.alloc p)

theorem headFree_allocNumber (x : Float) : HeadFree (allocNumber x) := headFree_alloc _

theorem headFree_emit (topic : Topic) (message : String) : HeadFree (emit topic message) :=
  fun _ _ => rfl

theorem headFree_newFrame (name : String) (parent : FrameId) : HeadFree (newFrame name parent) :=
  fun _ _ => rfl

theorem headFree_change {f : Machine → Machine} (hf : ∀ m h, f (m.withHead h) = (f m).withHead h) :
    HeadFree (change f) := by
  intro m h
  exact congrArg (Outcome.done ()) (hf m h)

theorem headFree_lookScope {f : Scope Ref → α} (hf : ∀ s h, f (s.enter h) = f s) :
    HeadFree (lookScope f) := by
  intro m h
  exact congrArg (Outcome.done · (m.withHead h)) (hf m.scope h)

theorem headFree_lookDeep (f : Heap → Option α) : HeadFree (lookDeep f) := by
  intro m h
  show lookDeep f (m.withHead h) = _
  unfold lookDeep
  rw [show (m.withHead h).heap = m.heap from rfl]
  cases f m.heap <;> rfl

theorem headFree_trace {fits : Bool} {line : Machine → String}
    (hline : ∀ m h, line (m.withHead h) = line m) : HeadFree (trace fits line) := by
  cases fits with
  | true =>
    refine headFree_change ?_
    intro m h
    rw [hline m h]
    show (if m.tracing then _ else _) = Machine.withHead (if m.tracing then _ else _) h
    split <;> rfl
  | false => exact headFree_fail _

theorem headFree_ensuring {x : Run α} {last : Run Unit} (hx : HeadFree x) (hlast : HeadFree last) :
    HeadFree (ensuring x last) := by
  intro m h
  unfold ensuring
  rw [hx m h]
  cases x m with
  | done a m' =>
    simp only [Outcome.withHead, hlast m' h]
    cases last m' <;> rfl
  | failed e m' =>
    simp only [Outcome.withHead, hlast m' h]
    cases last m' <;> rfl
  | exhausted => rfl

theorem headFree_entered {x : Run α} (hx : HeadFree x) : HeadFree (entered x) :=
  (headFree_change fun _ _ => rfl).bind fun _ =>
    headFree_ensuring hx (headFree_change fun _ _ => rfl)

/-- Inside a frame the computation may do with the head as it likes. -/
theorem headFree_inFrame (f : FrameId) (x : Run α) : HeadFree (inFrame f x) := by
  intro m h
  -- both runs enter the frame, so inside it they start from one machine
  show ensuring x (changeScope (·.enter h)) (m.withHead f) =
    (ensuring x (changeScope (·.enter m.scope.head)) (m.withHead f)).withHead h
  unfold ensuring
  cases x (m.withHead f) <;> rfl

/-! ## Calls -/

section Calls

variable (evaluate : Evaluator)

theorem headFree_matchArgs (fn : Function) (args : List Ref) :
    HeadFree (matchArgs evaluate fn args) := by
  unfold matchArgs
  split
  · refine (headFree_look _).bind ?_
    intro name
    refine (headFree_lookScope fun _ _ => rfl).bind ?_
    intro parent
    refine (headFree_newFrame name parent).bind ?_
    intro frame
    refine (headFree_inFrame frame _).bind ?_
    intro accepted
    exact headFree_pure _
  · exact headFree_pure none

theorem headFree_anyAccepts (args : List Ref) (fns : List Function) :
    HeadFree (anyAccepts evaluate args fns) := by
  induction fns with
  | nil => exact headFree_pure false
  | cons fn fns ih =>
    refine (headFree_matchArgs evaluate fn args).bind ?_
    intro frame?
    split
    · exact headFree_pure true
    · exact ih

theorem headFree_isApplicable? (callee : Ref) (args : List Ref) :
    HeadFree (isApplicable? evaluate callee args) := by
  refine (headFree_look _).bind ?_
  intro payload
  cases payload with
  | function fn =>
    exact (headFree_matchArgs evaluate fn args).bind fun frame? => headFree_pure _
  | overloads name fns =>
    exact (headFree_anyAccepts evaluate args fns).bind fun accepted => headFree_pure _
  | _ => exact headFree_pure _

theorem headFree_traceChoice (room : Room) (name : String) (params : List Pattern) :
    HeadFree (traceChoice room name params) := by
  unfold traceChoice
  split
  · exact headFree_trace fun _ _ => rfl
  · exact headFree_fail _

theorem headFree_toNumber (v : Ref) : HeadFree (toNumber v) := by
  refine (headFree_look _).bind ?_
  intro payload
  cases payload with
  | number x => exact headFree_pure v
  | string text =>
    dsimp only
    cases Decimal.ofText? text with
    | some x => exact headFree_allocNumber x
    | none => exact headFree_complain _
  | _ => exact headFree_complain _

theorem headFree_length (v : Ref) : HeadFree (length v) := by
  refine (headFree_look _).bind ?_
  intro payload
  cases payload with
  | string text => exact headFree_allocNumber _
  | list items => exact headFree_allocNumber _
  | _ => exact headFree_complain _

theorem headFree_applyIntrinsic (room : Room) (name : String) (code : Intrinsic)
    (args : List Ref) : HeadFree (applyIntrinsic room name code args) := by
  unfold applyIntrinsic
  split
  · exact headFree_length _
  · exact headFree_toNumber _
  · refine (headFree_lookDeep _).bind ?_
    intro shown
    exact (headFree_emit .stdout shown).bind fun _ => headFree_pure _
  · exact (headFree_lookDeep _).bind fun shown => headFree_alloc _
  · exact headFree_look _
  · exact headFree_alloc _
  · exact headFree_complain _

theorem headFree_listed (room : Room) (callee : Ref) (args : List Ref)
    (site : Option (Option Loc)) {x : Run Ref} (hx : HeadFree x) :
    HeadFree (listed room callee args site x) := by
  have hsite : HeadFree (visitSite site) := by
    cases site with
    | none => exact headFree_pure ()
    | some place => exact headFree_change fun _ _ => rfl
  refine headFree_entered ?_
  refine (headFree_lookDeep _).bind ?_
  intro name
  refine (headFree_trace fun _ _ => rfl).bind ?_
  intro _
  refine (headFree_change fun _ _ => rfl).bind ?_
  intro _
  refine hsite.bind ?_
  intro _
  refine hx.bind ?_
  intro result
  exact (headFree_change fun _ _ => rfl).bind fun _ => headFree_pure result

variable {evaluate} (hroom : evaluate.room.entry = true)

include hroom

theorem headFree_invoke (fn : Function) (frame : FrameId) :
    HeadFree (invoke evaluate fn frame) := by
  rw [invoke_of_fits hroom]
  refine (headFree_lookScope fun _ _ => rfl).bind ?_
  intro name
  exact headFree_ensuring (headFree_inFrame frame _) (headFree_trace fun _ _ => rfl)

theorem headFree_applyFunction (fn : Function) (args : List Ref) :
    HeadFree (applyFunction evaluate fn args) := by
  unfold applyFunction
  split
  · refine (headFree_matchArgs evaluate fn args).bind ?_
    intro frame?
    cases frame? with
    | some frame => exact headFree_invoke hroom fn frame
    | none => exact headFree_complain _
  · exact headFree_complain _

theorem headFree_dispatch (name : String) (args : List Ref) (fns : List Function) :
    HeadFree (dispatch evaluate name args fns) := by
  induction fns with
  | nil => exact headFree_complain _
  | cons fn fns ih =>
    refine (headFree_matchArgs evaluate fn args).bind ?_
    intro frame?
    cases frame? with
    | some frame =>
      exact (headFree_traceChoice _ name fn.params).bind fun _ => headFree_invoke hroom fn frame
    | none => exact ih

theorem headFree_applyPlain (callee : Ref) (args : List Ref) :
    HeadFree (applyPlain evaluate callee args) := by
  refine (headFree_look _).bind ?_
  intro payload
  cases payload with
  | function fn => exact headFree_applyFunction hroom fn args
  | overloads name fns => exact headFree_dispatch hroom name args fns
  | native name arity code =>
    dsimp only
    split
    · exact headFree_applyIntrinsic _ name code args
    · exact headFree_complain _
  | _ => exact (headFree_lookDeep _).bind fun shown => headFree_complain _

theorem headFree_instantiate (cls : Ref) (info : ClassInfo) (args : List Ref) :
    HeadFree (instantiate evaluate cls info args) := by
  unfold instantiate
  split
  · refine (headFree_make _).bind ?_
    intro inst
    refine (headFree_look _).bind ?_
    intro init?
    cases init? with
    | some found =>
      refine (headFree_make _).bind ?_
      intro bound
      have hinit := headFree_listed evaluate.room bound args none (headFree_applyPlain hroom bound args)
      exact hinit.bind fun _ => headFree_pure inst
    | none =>
      dsimp only
      split
      · exact headFree_pure inst
      · exact headFree_complain _
  · exact headFree_complain _

theorem headFree_call (callee : Ref) (args : List Ref) (site : Option (Option Loc)) :
    HeadFree (call evaluate callee args site) := by
  refine headFree_listed _ callee args site ?_
  refine (headFree_look _).bind ?_
  intro payload
  cases payload with
  | classObject info => exact headFree_instantiate hroom callee info args
  | _ => exact headFree_applyPlain hroom callee args

end Calls

/-- Two machines that differ in the head of the active chain alone are told apart by no call of any
value, and by no question whether a value is applicable: value or fault, heap, frames and side
effects agree, and each machine has its own head back. -/
theorem sameButHeads_of_call (limits : Limits) (m : Machine) (h : FrameId) :
    (∀ callee args site,
      (call (evaluate limits) callee args site m).SameButHeads m.scope.head h
        (call (evaluate limits) callee args site (m.withHead h))) ∧
    (∀ callee args,
      (isApplicable? (evaluate limits) callee args m).SameButHeads m.scope.head h
        (isApplicable? (evaluate limits) callee args (m.withHead h))) := by
  constructor
  · intro callee args site
    exact (headFree_call (entry_evaluate limits) callee args site).sameButHeads m h
  · intro callee args
    exact (headFree_isApplicable? _ callee args).sameButHeads m h

end Run

end TreeScript
