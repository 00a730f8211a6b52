import TreeScript.Proofs.CallerScope
import TreeScript.Proofs.Discipline.Evaluation
import TreeScript.Proofs.SpareLevels

/-!
# The head is given back

Blocks, class bodies, matching, function bodies, constructors and overload sets
all move the head of the active chain, in any nesting. However a computation
ends, the head is the frame that was the head before, and no program closes a
frame with nothing below it.

There is one way out of this. A function is made the head before its line of the
trace is written, and only then is the head sure to come back. Where there is
room for calling the function and none for that line, the fault leaves the frame
of the function as the head. Blocks close from there on the way out, and run out
of frames if there are more of them than there are frames below. A call from
outside gives the head back even then: there is always room for its own line. And
what could end with as many levels to spare as that line takes gives the head back
in any case.
-/

namespace TreeScript

namespace Outcome

variable {α : Type}

/-- However a computation ends, the head is the given one. -/
def GivesBack (head : FrameId) (o : Outcome α) : Prop :=
  o.Ends (fun _ m => m.scope.head = head) (fun _ m => m.scope.head = head)

/-- However a computation ends, the head is the given one, and a fault is not that of closing a
frame that has nothing below it. -/
def KeepsStack (head : FrameId) (o : Outcome α) : Prop :=
  o.Ends (fun _ m => m.scope.head = head)
    (fun e m => m.scope.head = head ∧ ∀ stack, e ≠ .emptyStack stack)

/-- A computation has ended otherwise than for want of room. -/
def HasRoom (o : Outcome α) : Prop := ∀ m, o ≠ .failed .nestingTooDeep m

end Outcome

/-- The discipline that demands nothing. What respects it still gives the head back, as far as calls
do not break off. -/
def Discipline.unrestricted (cramped : Prop) : Discipline.Uniform where
  Inv _ := True
  Holds _ _ := True
  Active _ _ := True
  Cramped := cramped
  Draft _ _ := True
  holds_mono _ _ := trivial
  active_mono _ _ := trivial
  draft_mono _ _ := trivial
  closed _ _ _ _ _ := trivial
  holds_globals _ := trivial
  holds_shared _ _ := trivial
  holds_active _ _ := trivial
  holds_draft _ _ := trivial
  enter _ _ := trivial
  newFrame _ _ _ := ⟨trivial, trivial⟩
  bind _ _ _ := trivial
  add _ _ _ := ⟨trivial, trivial⟩
  draft _ _ := trivial
  setField _ _ _ _ := trivial
  writeClass _ _ _ _ _ := trivial

namespace Run

open Discipline

theorem HeadFree.givesBack {α : Type} {x : Run α} (hx : HeadFree x) (m : Machine) :
    (x m).GivesBack m.scope.head := by
  have hsame := hx.sameButHeads m m.scope.head
  rw [m.withHead_head] at hsame
  cases hxm : x m with
  | done a m' =>
    rw [hxm] at hsame
    exact hsame.2.1
  | failed e m' =>
    rw [hxm] at hsame
    exact hsame.2.1
  | exhausted => trivial

/-- Where calls never break off, nothing leaves another head. -/
theorem keepsStack_of_respects {α : Type} {m : Machine} {o : Outcome α} {V : Store → α → Prop}
    (h : (unrestricted False).Respects m.store o V) : o.KeepsStack m.scope.head :=
  h.imp (fun _ _ h => h.1.head) fun _ _ h => ⟨h.head.resolve_right And.left, h.emptied⟩

/-- What does not run out of room with levels to spare ends in the same way with these levels. -/
theorem keepsStack_of_agrees {α : Type} {x y : Run α} {m : Machine} {head : FrameId}
    (hx : (x m).KeepsStack head) (hroom : (x m).HasRoom)
    (hagrees : Agrees .lost (fun _ => True) x y) : (y m).KeepsStack head := by
  rcases hagrees m trivial with ⟨e, m', hfailed, hlost⟩ | ⟨hsame, -⟩
  · rw [hfailed] at hx hroom
    rcases hlost with rfl | ⟨stack, rfl⟩
    · exact absurd rfl (hroom m')
    · exact absurd rfl (hx.2 stack)
  · rwa [← hsame]

/-- A computation with an evaluator gives the head back if there is room for entering every function,
or if it could end with levels to spare. -/
theorem keepsStack_of_hasRoom {α : Type} {V : Store → α → Prop} {x : Evaluator → Run α}
    (hrespects : ∀ evaluate m, (unrestricted False).Evaluates evaluate →
      (unrestricted False).Respects m.store (x evaluate m) V)
    (hagrees : ∀ evaluate evaluate', Agree .lost (fun _ => True) evaluate evaluate' →
      Agrees .lost (fun _ => True) (x evaluate) (x evaluate'))
    {limits : Limits} {m : Machine}
    (hroom : limits.entry = 0 ∨ (x (evaluateSparing limits) m).HasRoom) :
    (x (evaluate limits) m).KeepsStack m.scope.head := by
  rcases hroom with hentry | hroom
  · exact keepsStack_of_respects (hrespects _ m (respects_evaluate limits (.inl hentry)))
  · have hsparing : (unrestricted False).Evaluates (evaluateSparing limits) :=
      (unrestricted False).stages.respects_evaluateAt _ [] fun _ => .inl rfl
    exact keepsStack_of_agrees (keepsStack_of_respects (hrespects _ m hsparing)) hroom
      (hagrees _ _ (agree_evaluateSparing limits))

/-- From every machine, whatever its active chain, evaluating an expression gives the head of the
active chain back, unless it ends for want of room or by closing a frame that has nothing below it.
Taking up a pattern, calling a value, matching arguments and asking whether a value is applicable
give the head back however they end.

None of them leaves another head or closes a frame that has nothing below it if there is room for
entering every function that is called, and none does that could end with as many levels to spare as
entering a function takes. -/
theorem givesBack_head (limits : Limits) (m : Machine) :
    ((∀ e, (evaluate limits e m).Ends (fun _ m' => m'.scope.head = m.scope.head)
        (fun fault m' => m'.scope.head = m.scope.head ∨ fault.LosesHead)) ∧
      (∀ p, (evaluatePattern p m).KeepsStack m.scope.head) ∧
      (∀ callee args site, (call (evaluate limits) callee args site m).GivesBack m.scope.head) ∧
      (∀ fn args, (matchArgs (evaluate limits) fn args m).GivesBack m.scope.head) ∧
      (∀ callee args, (isApplicable? (evaluate limits) callee args m).GivesBack m.scope.head)) ∧
    (∀ e, limits.entry = 0 ∨ (evaluateSparing limits e m).HasRoom →
      (evaluate limits e m).KeepsStack m.scope.head) ∧
    (∀ callee args site,
      limits.entry = 0 ∨ (call (evaluateSparing limits) callee args site m).HasRoom →
        (call (evaluate limits) callee args site m).KeepsStack m.scope.head) ∧
    (∀ fn args, limits.entry = 0 ∨ (matchArgs (evaluateSparing limits) fn args m).HasRoom →
      (matchArgs (evaluate limits) fn args m).KeepsStack m.scope.head) ∧
    (∀ callee args,
      limits.entry = 0 ∨ (isApplicable? (evaluateSparing limits) callee args m).HasRoom →
        (isApplicable? (evaluate limits) callee args m).KeepsStack m.scope.head) := by
  refine ⟨⟨?_, ?_, ?_, ?_, ?_⟩, ?_, ?_, ?_, ?_⟩
  · intro e
    have hend := (respects_evaluate (D := unrestricted True) limits).run e m ⟨trivial, trivial⟩
    exact hend.imp (fun _ _ h => h.1.head) fun _ _ h => h.head.imp_right fun lost => lost.2.1
  · intro p
    exact keepsStack_of_respects (respects_evaluatePattern p trivial)
  · intro callee args site
    exact (headFree_call (entry_evaluate limits) callee args site).givesBack m
  · intro fn args
    exact (headFree_matchArgs _ fn args).givesBack m
  · intro callee args
    exact (headFree_isApplicable? _ callee args).givesBack m
  · intro e
    exact keepsStack_of_hasRoom (x := fun evaluate => evaluate e)
      (fun _ m heval => heval.run e m ⟨trivial, trivial⟩) fun _ _ hagree => hagree.run e
  · intro callee args site
    exact keepsStack_of_hasRoom (x := fun evaluate => call evaluate callee args site)
      (fun _ _ heval => respects_call heval site trivial trivial fun _ _ => trivial)
      fun _ _ hagree => agrees_call hagree lasting_true callee args site
  · intro fn args
    exact keepsStack_of_hasRoom (x := fun evaluate => matchArgs evaluate fn args)
      (fun _ _ heval => respects_matchArgs heval trivial (fun _ _ => trivial) fun _ _ => trivial)
      fun _ _ hagree => agrees_matchArgs hagree fn args
  · intro callee args
    exact keepsStack_of_hasRoom (x := fun evaluate => isApplicable? evaluate callee args)
      (fun _ _ heval => respects_isApplicable? heval trivial trivial fun _ _ => trivial)
      fun _ _ hagree => agrees_isApplicable? hagree callee args

/-- A function that is called inside two blocks, where there is no room for entering it, leaves its
own frame as the head. One block closes that frame, and the other finds nothing to close. -/
theorem empties_stack :
    let limits := { Limits.standard with nesting := 5, nesting_pos := by decide, entry_le := by decide }
    let called : Expr := .call none (.name none "f") []
    let e : Expr :=
      .list none [.function none (some "f") [] (.null none), .block none [.block none [called]]]
    ∃ m', evaluate limits e (Machine.bare false) = .failed (.emptyStack ⟨"<globals>"⟩) m' := by
  intro limits called e
  have hfault : (evaluate limits e (Machine.bare false)).fault? =
      some (.emptyStack ⟨"<globals>"⟩) := by decide +kernel
  exact Outcome.failed_of_fault? hfault

end Run

end TreeScript
