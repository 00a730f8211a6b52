import TreeScript.Machine.Eval
import TreeScript.Machine.Laws

/-!
# Laws of calls

A function that is entered either has room for its line of the trace or has
not. If it has, its body runs between two lines in a frame of its own, and the
head comes back however that ends. If it has not, the call breaks off before the
body, and leaves the frame of the function as the head. From outside there is
room for the line of every call, and for entering functions.
-/

namespace TreeScript

/-- The faults of a call that broke off for want of room, and of closing frames after it. -/
def Fault.LosesHead (e : Fault) : Prop := e = .nestingTooDeep ∨ ∃ stack, e = .emptyStack stack

namespace Run

/-- The line of a trace with which the body of a call begins. -/
def pushLine (name : String) (count : Nat) : String := s!"[DBG] push {name} argc {count}"

/-- The line of a trace with which the body of a call ends. -/
def popLine (name : String) : String := s!"[DBG] pop {name}"

/-- The line of a trace that shows which parameters have accepted the arguments. -/
def choiceLine (name shown : String) : String := s!"[DBG] dispatch {name} -> {shown}"

/-- Runs in a frame, between the two lines that a trace has for a body. -/
def bracketed (frame : FrameId) (name : String) (count : Nat) (x : Run Ref) : Run Ref :=
  ensuring
    (inFrame frame do
      trace true fun _ => pushLine name count
      x)
    (trace true fun _ => popLine name)

/-- Only a list may be nested too deep to name the call of it. -/
theorem exists_callName {h : Heap} {callee : Ref} (hcallee : ∀ items, h.payload callee ≠ .list items)
    (room : Room) : ∃ name, callName? room h callee = some name := by
  unfold callName?
  rw [Heap.display?_of_not_list hcallee]
  dsimp only
  repeat' split
  all_goals exact ⟨_, rfl⟩

section Entering

variable {evaluate : Evaluator}

/-- With room for its line the body of a function runs between the two lines. -/
theorem invoke_of_fits (h : evaluate.room.entry = true) (fn : Function) (frame : FrameId) :
    invoke evaluate fn frame =
      (lookScope fun s => (s.frame frame).name) >>= fun name =>
        bracketed frame name fn.params.length
          (do
            defineSome frame "self" fn.self
            defineSome frame "super" fn.super
            evaluate fn.body) := by
  unfold invoke
  rw [h]
  refine congrArg _ (funext fun name => funext fun m => ?_)
  let body : Run Ref := do
    defineSome frame "self" fn.self
    defineSome frame "super" fn.super
    evaluate fn.body
  -- the line is written before the body is protected, which makes no difference if it fits
  show ensuring (trace true (fun _ => pushLine name fn.params.length) >>= fun _ => body)
      (changeScope (·.enter m.scope.head) >>= fun _ => trace true fun _ => popLine name)
      { m with scope := m.scope.enter frame } = _
  exact (congrFun (ensuring_ensuring_change _ _ _) _).symm

/-- Without room for its line a function is not entered, though its frame is the head. -/
theorem invoke_of_cramped (h : evaluate.room.entry = false) (fn : Function) (frame : FrameId) :
    invoke evaluate fn frame = changeScope (·.enter frame) >>= fun _ => fail .nestingTooDeep := by
  funext m
  simp only [invoke, h]
  rfl

end Entering

/-! ## Room -/

theorem room_evaluateAt (limits : Limits) (nesting : Nat) :
    (evaluateAt limits nesting).room = limits.room nesting := by
  cases nesting <;> rfl

theorem line_evaluate (limits : Limits) : (evaluate limits).room.line = true := by
  rw [evaluate, room_evaluateAt]
  exact decide_eq_true limits.nesting_pos

theorem entry_evaluate (limits : Limits) : (evaluate limits).room.entry = true := by
  rw [evaluate, room_evaluateAt]
  exact decide_eq_true limits.entry_le

end Run

end TreeScript
