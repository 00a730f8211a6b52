import TreeScript.Proofs.Correspondence.Evaluation
import TreeScript.Runner

/-!
# Where finished evaluations leave the machine

The machine stands at the place of the expression that was taken up last, also
after the evaluation of that expression has finished. Here evaluation is followed
with the place settled otherwise whenever an evaluation has given a value. If the
machine goes back to where it was before, then it always stands at the innermost
expression under evaluation. If it goes to a mark, then it shows whether any
evaluation has finished since it was last put somewhere else.

Wherever the machine goes, evaluation takes the same course, since no place is
ever read. Places differ only where the machine has been left by a finished
evaluation, and there it stands at the mark, if it goes to one.
-/

namespace TreeScript

/-- Where the machine stands after a finished evaluation, from where it stood before and where the
evaluation has led it. -/
def Settling := Option Loc → Option Loc → Option Loc

namespace Settling

/-- The machine stays where it is. Programs are evaluated in this way. -/
def stay : Settling := fun _ after => after

def goBack : Settling := fun before _ => before

def goTo (mark : Option Loc) : Settling := fun _ _ => mark

end Settling

namespace Run

variable {α β : Type}

/-- Settles the place once the computation has given a value. -/
def settled (settle : Settling) (x : Run α) : Run α := fun m =>
  match x m with
  | .done a m' => .done a { m' with place := settle m.place m'.place }
  | .failed e m' => .failed e m'
  | .exhausted => .exhausted

/-- Evaluation with the place settled after each finished evaluation. -/
def evaluateAtSettling (settle : Settling) (limits : Limits) : Nat → Evaluator
  | 0 => evaluateAt limits 0
  | nesting + 1 =>
    { run := fun e => settled settle <| entered do
        setPlace e.loc
        evaluateLevel (evaluateAtSettling settle limits nesting) limits.rounds e
      room := limits.room (nesting + 1) }

def evaluateSettling (settle : Settling) (limits : Limits) : Evaluator :=
  evaluateAtSettling settle limits limits.nesting

def evaluateProgramSettling (settle : Settling) (limits : Limits) (program : List Expr) : Run Ref :=
  evaluateLast (evaluateSettling settle limits) Heap.nullRef program

theorem settled_stay (x : Run α) : settled .stay x = x := by
  funext m
  unfold settled
  cases x m <;> rfl

theorem evaluateAtSettling_stay (limits : Limits) (nesting : Nat) :
    evaluateAtSettling .stay limits nesting = evaluateAt limits nesting := by
  induction nesting with
  | zero => rfl
  | succ nesting ih => simp only [evaluateAtSettling, settled_stay, ih, evaluateAt]

theorem evaluateProgramSettling_stay (limits : Limits) (program : List Expr) :
    evaluateProgramSettling .stay limits program = Runner.evaluateProgram limits program := by
  have hevaluate : evaluateSettling .stay limits = evaluate limits :=
    evaluateAtSettling_stay limits limits.nesting
  rw [evaluateProgramSettling, hevaluate, Runner.evaluateProgram]

end Run

/-! ## Marks -/

/-- The second machine is the first, at its place or at a mark, and perhaps with another trace. -/
inductive Machine.Marked (mark : Option Loc) (m : Machine) : Machine → Prop
  | mk {place : Option Loc} (traced : Array String) (hplace : place = mark ∨ place = m.place) :
    Marked mark m { m with place, traced }

/-- Two outcomes with the same value or fault, of which the second leaves the machine of the first,
perhaps at a mark. -/
inductive Outcome.Marked {α : Type} (mark : Option Loc) : Outcome α → Outcome α → Prop
  | done (a : α) {m m' : Machine} (hm : m.Marked mark m') : Marked mark (.done a m) (.done a m')
  | failed (e : Fault) {m m' : Machine} (hm : m.Marked mark m') :
    Marked mark (.failed e m) (.failed e m')
  | exhausted : Marked mark .exhausted .exhausted

namespace Run

variable {α β : Type} {mark : Option Loc}

/-- The second computation takes the course of the first, perhaps by way of a mark. -/
def Marks (mark : Option Loc) (x y : Run α) : Prop :=
  ∀ m m' : Machine, m.Marked mark m' → (x m).Marked mark (y m')

theorem Marks.bind {x y : Run α} {f g : α → Run β} (hx : Marks mark x y)
    (hf : ∀ a, Marks mark (f a) (g a)) : Marks mark (x >>= f) (y >>= g) := by
  intro m m' hm
  have hend := hx m m' hm
  rw [bind_apply, bind_apply]
  cases hxm : x m <;> cases hym : y m' <;> rw [hxm, hym] at hend <;> cases hend
  case done.done a m₁ m₂ hm₁ => exact hf a m₁ m₂ hm₁
  case failed.failed e m₁ m₂ hm₁ => exact .failed e hm₁
  case exhausted.exhausted => exact .exhausted

theorem Marks.ensuring {x y : Run α} {last last' : Run Unit} (hx : Marks mark x y)
    (hlast : Marks mark last last') : Marks mark (ensuring x last) (ensuring y last') := by
  intro m m' hm
  have hend := hx m m' hm
  rw [ensuring_apply, ensuring_apply]
  cases hxm : x m <;> cases hym : y m' <;> rw [hxm, hym] at hend <;> cases hend
  case done.done a m₁ m₂ hm₁ => exact hlast.bind (fun _ _ _ hm => .done a hm) m₁ m₂ hm₁
  case failed.failed e m₁ m₂ hm₁ => exact hlast.bind (fun _ _ _ hm => .failed e hm) m₁ m₂ hm₁
  case exhausted.exhausted => exact .exhausted

/-- What changes the machine without looking at its place or its trace. -/
theorem marks_change {f g : Machine → Machine}
    (h : ∀ m m' : Machine, m.Marked mark m' → (f m).Marked mark (g m')) :
    Marks mark (change f) (change g) :=
  fun m m' hm => .done () (h m m' hm)

theorem marks_trace (fits : Bool) (line line' : Machine → String) :
    Marks mark (trace fits line) (trace fits line') := by
  cases fits with
  | true =>
    refine marks_change fun m _ hm => ?_
    obtain ⟨traced, hplace⟩ := hm
    dsimp only
    split <;> exact ⟨_, hplace⟩
  | false => exact fun _ _ hm => .failed _ hm

theorem marks_lookDeep (f : Heap → Option α) : Marks mark (lookDeep f) (lookDeep f) := by
  rintro m _ ⟨traced, hplace⟩
  unfold lookDeep
  dsimp only
  cases f m.heap with
  | some a => exact .done a ⟨traced, hplace⟩
  | none => exact .failed _ ⟨traced, hplace⟩

theorem marks_setPlace (place : Option Loc) : Marks mark (setPlace place) (setPlace place) :=
  marks_change fun _ _ ⟨traced, _⟩ => ⟨traced, .inr rfl⟩

theorem marks_popFrame : Marks mark popFrame popFrame := by
  rintro m _ ⟨traced, hplace⟩
  unfold popFrame
  dsimp only
  cases m.scope.pop with
  | ok scope => exact .done () ⟨traced, hplace⟩
  | error stack => exact .failed _ ⟨traced, hplace⟩

theorem Marks.entered {x y : Run α} (hx : Marks mark x y) : Marks mark (entered x) (entered y) :=
  (marks_change fun _ _ ⟨traced, hplace⟩ => ⟨traced, hplace⟩).bind fun _ =>
    hx.ensuring (marks_change fun _ _ ⟨traced, hplace⟩ => ⟨traced, hplace⟩)

theorem Marks.inFrame {x y : Run α} (hx : Marks mark x y) (frame : FrameId) :
    Marks mark (inFrame frame x) (inFrame frame y) := by
  have henter (frame : FrameId) :
      Marks mark (changeScope (·.enter frame)) (changeScope (·.enter frame)) :=
    marks_change fun _ _ ⟨traced, hplace⟩ => ⟨traced, hplace⟩
  have hhead : Marks mark (lookScope (·.head)) (lookScope (·.head)) :=
    fun _ _ ⟨traced, hplace⟩ => .done _ ⟨traced, hplace⟩
  exact hhead.bind fun head => (henter frame).bind fun _ => hx.ensuring (henter head)

theorem Marks.listed {x y : Run Ref} (hx : Marks mark x y) (room : Room) (callee : Ref)
    (args : List Ref) (site : Option (Option Loc)) :
    Marks mark (listed room callee args site x) (listed room callee args site y) := by
  have hsite : Marks mark (visitSite site) (visitSite site) := by
    cases site with
    | none => exact fun _ _ hm => .done () hm
    | some place => exact marks_setPlace place
  refine Marks.entered ((marks_lookDeep _).bind fun name => (marks_trace _ _ _).bind fun _ => ?_)
  refine (marks_change fun _ _ ⟨traced, hplace⟩ => ⟨traced, hplace⟩).bind fun _ => ?_
  refine hsite.bind fun _ => hx.bind fun v => ?_
  refine (marks_change fun _ _ ⟨traced, hplace⟩ => ⟨traced, hplace⟩).bind fun _ => ?_
  exact fun _ _ hm => .done v hm

/-- Going to the mark after a finished evaluation marks it, wherever else the machine may go. -/
theorem Marks.settled {x y : Run α} (hx : Marks mark x y) (settle : Settling) :
    Marks mark (settled settle x) (settled (.goTo mark) y) := by
  intro m m' hm
  have hend := hx m m' hm
  unfold Run.settled
  cases hxm : x m <;> cases hym : y m' <;> rw [hxm, hym] at hend <;> cases hend
  case done.done a m₁ _ hm₁ =>
    -- wherever the two machines stood, the second one is at the mark now
    obtain ⟨traced, -⟩ := hm₁
    exact .done a ⟨traced, .inl rfl⟩
  case failed.failed e _ _ hm₁ => exact .failed e hm₁
  case exhausted.exhausted => exact .exhausted

/-- Evaluation of the same code, perhaps by way of a mark. -/
def marking (mark : Option Loc) : Correspondence where
  place := id
  keepsWritable := keepsWritable_id
  Rel := Marks mark
  pure a _ _ hm := .done a hm
  bind hx hf := hx.bind hf
  complain c := fun _ _ ⟨traced, hplace⟩ => .failed _ ⟨traced, hplace⟩
  fail _ _ _ hm := .failed _ hm
  exhausted _ _ _ := .exhausted
  ensuring hx hlast := hx.ensuring hlast
  look {_ _ f g t k k'} hf hk := by
    rintro m _ ⟨traced, hplace⟩
    rw [look_bind, look_bind]
    have hseen := hf m.heap
    rw [Heap.revise_moving_id] at hseen
    dsimp only
    rw [hseen]
    exact hk _ _ _ ⟨traced, hplace⟩
  lookScope f := fun _ _ ⟨traced, hplace⟩ => .done _ ⟨traced, hplace⟩
  make {f g} hf := by
    rintro m _ ⟨traced, hplace⟩
    have hmade := hf m.heap
    rw [Heap.revise_moving_id, Heap.revise_moving_id] at hmade
    unfold make
    dsimp only
    rw [hmade]
    exact .done _ ⟨traced, hplace⟩
  changeHeap _ := marks_change fun _ _ ⟨traced, hplace⟩ => ⟨traced, hplace⟩
  changeScope _ := marks_change fun _ _ ⟨traced, hplace⟩ => ⟨traced, hplace⟩
  newFrame name parent := fun _ _ ⟨traced, hplace⟩ => .done _ ⟨traced, hplace⟩
  popFrame := marks_popFrame
  emit message := marks_change fun _ _ ⟨traced, hplace⟩ => ⟨traced, hplace⟩
  choice _ _ _ _ := marks_trace _ _ _
  body frame _ _ hx :=
    (((marks_trace true _ _).bind fun _ => hx).inFrame frame).ensuring (marks_trace true _ _)
  setPlace l := marks_setPlace l
  entered hx := hx.entered
  listed room callee args site hx := by
    rw [Option.map_id]
    exact hx.listed room callee args site

/-- Code stays where it is. -/
theorem evaluates_of_marks {evaluate evaluate' : Evaluator}
    (h : ∀ e, Marks mark (evaluate e) (evaluate' e)) (hroom : evaluate'.room = evaluate.room) :
    (marking mark).Evaluates evaluate evaluate' := by
  refine ⟨fun e => ?_, hroom⟩
  have hcode : e.revise (marking mark).moved = e := Expr.revise_moving_id e
  rw [hcode]
  exact h e

theorem evaluates_evaluateAtSettling (settle : Settling) (limits : Limits) (nesting : Nat) :
    (marking mark).Evaluates (evaluateAtSettling settle limits nesting)
      (evaluateAtSettling (.goTo mark) limits nesting) := by
  induction nesting with
  | zero => exact evaluates_of_marks (fun e => Marks.entered fun _ _ hm => .failed _ hm) rfl
  | succ nesting ih =>
    refine evaluates_of_marks (fun e => ?_) rfl
    -- within the level the place is settled by the parts, and after it by the level itself
    have hlevel := Correspondence.rel_evaluateLevel ih limits.rounds e
    have hcode : e.revise (marking mark).moved = e := Expr.revise_moving_id e
    rw [hcode] at hlevel
    exact ((marks_setPlace e.loc).bind fun _ => hlevel).entered.settled settle

theorem marks_evaluateProgramSettling (settle : Settling) (limits : Limits) (program : List Expr) :
    Marks mark (evaluateProgramSettling settle limits program)
      (evaluateProgramSettling (.goTo mark) limits program) := by
  have hlast := Correspondence.rel_evaluateLast (C := marking mark)
    (evaluates_evaluateAtSettling settle limits limits.nesting) Heap.nullRef program
  have hcode : Expr.reviseAll (marking mark).moved program = program :=
    Expr.reviseAll_moving_id program
  rw [hcode] at hlast
  exact hlast

end Run

end TreeScript
