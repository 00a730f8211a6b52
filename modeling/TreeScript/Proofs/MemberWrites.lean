import TreeScript.Proofs.Agreement
import TreeScript.Proofs.FieldWrites
import TreeScript.Proofs.Records

/-!
# Member writes last

A member that has been written is read as it was written until it is written again,
whatever happens in between. To say so, evaluation is followed by one that never
looks: it remembers what the slot holds wherever the slot is read, and it has no
outcome once the slot is written again. As far as it goes it has the outcome of
evaluation itself, and it goes as far as to the next write.

Classes are the exception. They take writes like all values, but read their methods
and defaults only, so what is written to a class is never read.
-/

namespace TreeScript

namespace Run

/-! ## Remembering a slot -/

/-- Ends a computation without an outcome. -/
def stop {α : Type} : Run α := fun _ => .exhausted

variable (s : Slot) (v : Ref) (atWrite : Run Ref)

/-- One level of evaluation that remembers what a slot holds. Reading the slot gives the value without
a look at any field, and something else is done in place of writing it. -/
def rememberLevel (evaluate : Evaluator) (rounds : Nat) : Expr → Run Ref
  | .member _ target name => do
    let r ← evaluate target
    if ← look fun h => decide (h.ReadsFrom s r name) then return v
    else readMember evaluate.room r name
  | .assign _ (.member _ owner name) value => do
    let r ← evaluate owner
    let w ← evaluate value
    if ← look fun h => decide (h.WritesTo s r name) then atWrite
    else do
      changeHeap (·.setMember r name w)
      return w
  | e => evaluateLevel evaluate rounds e

/-- Evaluation that remembers what a slot holds, until the slot is written. -/
def rememberAt (limits : Limits) : Nat → Evaluator
  | 0 => evaluateAt limits 0
  | nesting + 1 =>
    { run := fun e => entered do
        setPlace e.loc
        rememberLevel s v atWrite (rememberAt limits nesting) limits.rounds e
      room := limits.room (nesting + 1) }

def remember (limits : Limits) : Evaluator := rememberAt s v atWrite limits limits.nesting

variable {s v atWrite}

theorem lasting_fills : Heap.Lasting (·.Fills s v) where
  add o hh := hh.add o
  updateClass c f hh := hh.updateClass c f

/-- What is remembered of a read is what would be read. -/
theorem agrees_rememberedRead {G : Gap} {room room' : Room} (hroom : room'.shown = room.shown)
    (r : Ref) (name : String) :
    Agrees G (·.Fills s v)
      (do
        if ← look fun h => decide (h.ReadsFrom s r name) then return v else readMember room r name)
      (readMember room' r name) := by
  intro m hm
  rw [look_bind]
  by_cases hreads : m.heap.ReadsFrom s r name
  · have hread : readMember room' r name m = .done v m := by
      unfold readMember
      rw [hm.member? hreads]
    rw [if_pos (decide_eq_true hreads), hread]
    exact .inr ⟨rfl, hm⟩
  · rw [if_neg (by simpa using hreads)]
    exact agrees_readMember lasting_fills hroom r name m hm

/-- In place of a write to the slot the computations part; any other write leaves it as it is. -/
theorem agrees_rememberedWrite {G : Gap} (hparts : ∀ m y, G.Apart (atWrite m) y) (r : Ref)
    (name : String) (w : Ref) :
    Agrees G (·.Fills s v)
      (do
        if ← look fun h => decide (h.WritesTo s r name) then atWrite
        else do
          changeHeap (·.setMember r name w)
          return w)
      (do
        changeHeap (·.setMember r name w)
        return w) := by
  intro m hm
  rw [look_bind]
  by_cases hwrites : m.heap.WritesTo s r name
  · rw [if_pos (decide_eq_true hwrites)]
    exact .inl (hparts m _)
  · rw [if_neg (by simpa using hwrites)]
    exact .inr ⟨rfl, hm.setMember hwrites w⟩

theorem agrees_rememberLevel {G : Gap} (hparts : ∀ m y, G.Apart (atWrite m) y)
    {evaluate evaluate' : Evaluator} (heval : Agree G (·.Fills s v) evaluate evaluate')
    (rounds : Nat) (e : Expr) :
    Agrees G (·.Fills s v) (rememberLevel s v atWrite evaluate rounds e)
      (evaluateLevel evaluate' rounds e) := by
  unfold rememberLevel
  split
  · exact (heval.run _).bind fun r => agrees_rememberedRead heval.room.shown r _
  · exact (heval.run _).bind fun r => (heval.run _).bind fun w => agrees_rememberedWrite hparts r _ w
  · next hassign => exact agrees_evaluateLevel heval lasting_fills rounds e hassign

/-- By induction on how deep evaluations may nest. -/
theorem agree_rememberAt {G : Gap} (hparts : ∀ m y, G.Apart (atWrite m) y) (limits : Limits)
    (nesting : Nat) :
    Agree G (·.Fills s v) (rememberAt s v atWrite limits nesting) (evaluateAt limits nesting) := by
  induction nesting with
  | zero => exact ⟨fun e => Agrees.entered (agrees_fail _), .refl _⟩
  | succ nesting ih =>
    refine ⟨fun e => Agrees.entered ((agrees_setPlace e.loc).bind fun _ => ?_), .refl _⟩
    exact agrees_rememberLevel hparts ih limits.rounds e

/-- What is done in place of a write is all that may tell two remembering evaluations apart. -/
theorem agrees_rememberLevel_rememberLevel {G : Gap} {atWrite' : Run Ref}
    (hparts : ∀ m, G.Apart (atWrite m) (atWrite' m)) {evaluate evaluate' : Evaluator}
    (heval : Agree G (·.Fills s v) evaluate evaluate') (rounds : Nat) (e : Expr) :
    Agrees G (·.Fills s v) (rememberLevel s v atWrite evaluate rounds e)
      (rememberLevel s v atWrite' evaluate' rounds e) := by
  have hwrite (r : Ref) (name : String) (w : Ref) : Agrees G (·.Fills s v)
      (do
        if ← look fun h => decide (h.WritesTo s r name) then atWrite
        else do
          changeHeap (·.setMember r name w)
          return w)
      (do
        if ← look fun h => decide (h.WritesTo s r name) then atWrite'
        else do
          changeHeap (·.setMember r name w)
          return w) := by
    intro m hm
    rw [look_bind, look_bind]
    by_cases hwrites : m.heap.WritesTo s r name
    · rw [if_pos (decide_eq_true hwrites), if_pos (decide_eq_true hwrites)]
      exact .inl (hparts m)
    · rw [if_neg (by simpa using hwrites), if_neg (by simpa using hwrites)]
      exact .inr ⟨rfl, hm.setMember hwrites w⟩
  unfold rememberLevel
  split
  · next target name =>
    refine (heval.run target).bind fun r => (agrees_look _).bind fun reads => ?_
    split
    · exact agrees_pure v
    · exact agrees_readMember lasting_fills heval.room.shown r name
  · exact (heval.run _).bind fun r => (heval.run _).bind fun w => hwrite r _ w
  · next hassign => exact agrees_evaluateLevel heval lasting_fills rounds e hassign

theorem agree_rememberAt_rememberAt {G : Gap} {atWrite' : Run Ref}
    (hparts : ∀ m, G.Apart (atWrite m) (atWrite' m)) (limits : Limits) (nesting : Nat) :
    Agree G (·.Fills s v) (rememberAt s v atWrite limits nesting)
      (rememberAt s v atWrite' limits nesting) := by
  induction nesting with
  | zero => exact ⟨fun e => Agrees.entered (agrees_fail _), .refl _⟩
  | succ nesting ih =>
    refine ⟨fun e => Agrees.entered ((agrees_setPlace e.loc).bind fun _ => ?_), .refl _⟩
    exact agrees_rememberLevel_rememberLevel hparts ih limits.rounds e

/-! ## Where the evaluations part -/

/-- Either it makes no difference what is done in place of a write, since there is none, or stopping
there leaves no outcome, and failing there a fault. -/
def PartsAtWrite {α : Type} (x : Run Ref → Run α) (y : Run α) (m : Machine) : Prop :=
  (∀ atWrite, x atWrite m = y m) ∨
    x stop m = .exhausted ∧ ∀ fault, ∃ e m', x (fail fault) m = .failed e m'

theorem partsAtWrite_of_agrees {α : Type} {I : Heap → Prop} {x : Run Ref → Run α} {y : Run α}
    (hx : ∀ (G : Gap) (atWrite atWrite' : Run Ref), (∀ m, G.Apart (atWrite m) (atWrite' m)) →
      Agrees G I (x atWrite) (x atWrite'))
    (hy : ∀ (G : Gap) (atWrite : Run Ref), (∀ m o, G.Apart (atWrite m) o) →
      Agrees G I (x atWrite) y) {m : Machine} (hm : I m.heap) : PartsAtWrite x y m := by
  by_cases hparts : x stop m = .exhausted ∧ ∀ fault, ∃ e m', x (fail fault) m = .failed e m'
  · exact .inr hparts
  · -- some stopping or failing evaluation does not part from the others, so they all end as it does
    obtain ⟨seen, hsame, hend⟩ : ∃ seen : Run Ref,
        (∀ atWrite, x seen m = x atWrite m) ∧ x seen m = y m := by
      by_cases hstop : x stop m = .exhausted
      · obtain ⟨fault, hfault⟩ := not_forall.mp fun h => hparts ⟨hstop, h⟩
        let G : Gap := .failed (fun _ => True) fun _ _ => trivial
        have hfails (m : Machine) (o : Outcome Ref) : G.Apart (fail fault m) o :=
          ⟨fault, m, rfl, trivial⟩
        have hends (o : Outcome α) : ¬ G.Apart (x (fail fault) m) o :=
          fun ⟨e, m', h, _⟩ => hfault ⟨e, m', h⟩
        have hone := fun atWrite => (hx G (fail fault) atWrite (fun m => hfails m _) m
          hm).resolve_left (hends _)
        have hother := (hy G (fail fault) hfails m hm).resolve_left (hends _)
        exact ⟨fail fault, fun atWrite => (hone atWrite).1, hother.1⟩
      · have hone := fun atWrite =>
          (hx .stopped stop atWrite (fun _ => rfl) m hm).resolve_left hstop
        have hother := (hy .stopped stop (fun _ _ => rfl) m hm).resolve_left hstop
        exact ⟨stop, fun atWrite => (hone atWrite).1, hother.1⟩
    exact .inl fun atWrite => (hsame atWrite).symm.trans hend

/-- A program that is evaluated with the slot remembered parts from evaluation only where it writes
the slot. -/
theorem partsAtWrite_evaluateProgram (limits : Limits) (program : List Expr) {m : Machine}
    (hm : m.heap.Fills s v) :
    PartsAtWrite (fun atWrite => evaluateLast (remember s v atWrite limits) Heap.nullRef program)
      (Runner.evaluateProgram limits program) m := by
  refine partsAtWrite_of_agrees (I := (·.Fills s v)) ?_ ?_ hm
  · intro G atWrite atWrite' hparts
    exact agrees_evaluateLast (agree_rememberAt_rememberAt hparts limits limits.nesting) _ program
  · intro G atWrite hparts
    exact agrees_evaluateLast (agree_rememberAt hparts limits limits.nesting) _ program

theorem partsAtWrite_call (limits : Limits) (callee : Ref) (args : List Ref)
    (site : Option (Option Loc)) {m : Machine} (hm : m.heap.Fills s v) :
    PartsAtWrite (fun atWrite => call (remember s v atWrite limits) callee args site)
      (call (evaluate limits) callee args site) m := by
  refine partsAtWrite_of_agrees (I := (·.Fills s v)) ?_ ?_ hm
  · intro G atWrite atWrite' hparts
    exact agrees_call (agree_rememberAt_rememberAt hparts limits limits.nesting) lasting_fills callee
      args site
  · intro G atWrite hparts
    exact agrees_call (agree_rememberAt hparts limits limits.nesting) lasting_fills callee args site


/-- As far as evaluation that remembers the slot goes, evaluation does the same. -/
theorem agree_remember (limits : Limits) :
    Agree .stopped (·.Fills s v) (remember s v stop limits) (evaluate limits) :=
  agree_rememberAt (fun _ _ => rfl) limits limits.nesting

end Run

namespace Machine

open Run

/-- In every state that programs pass through, writing a member fills a slot of the object that has
the fields of the value. All that share the object and are no classes read the member as it was
written, and every other read, also that of any member of a class, ends as it would without the
write. The slot stays filled, and is read so, until it is written again: as far as evaluation that
remembers the slot goes, evaluation does the same, and it parts from evaluation only at a write. -/
theorem member_writes_last {m : Machine} (hm : m.Reached) {t : Ref} (ht : m.store.Has (.object t))
    (n : String) (v : Ref) :
    let s : Slot := ⟨m.heap.holder t, n⟩
    let m' : Machine := { m with heap := m.heap.setMember t n v }
    (∀ evaluate rounds loc loc' target value m₀, Operands evaluate target value m₀ t v m →
      evaluateLevel evaluate rounds (.assign loc (.member loc' target n) value) m₀ = .done v m') ∧
    (∀ r, m.heap.holder r = m.heap.holder t → m.heap.class? r = none → m'.Reads r n v) ∧
    (∀ room r name, ¬ m.heap.ReadsFrom s r name →
      readMember room r name m' = (readMember room r name m).thenFill s v) ∧
    m'.heap.Fills s v ∧
    (∀ m₁ : Machine, m₁.heap.Fills s v → ∀ r name, m₁.heap.ReadsFrom s r name → m₁.Reads r name v) ∧
    (∀ limits program, Agrees .stopped (·.Fills s v)
      (evaluateLast (remember s v stop limits) Heap.nullRef program)
      (Runner.evaluateProgram limits program)) ∧
    (∀ limits callee args site, Agrees .stopped (·.Fills s v)
      (call (remember s v stop limits) callee args site)
      (call (evaluate limits) callee args site)) ∧
    ∀ m₁ : Machine, m₁.heap.Fills s v →
      (∀ limits program, PartsAtWrite
        (fun atWrite => evaluateLast (remember s v atWrite limits) Heap.nullRef program)
        (Runner.evaluateProgram limits program) m₁) ∧
      ∀ limits callee args site, PartsAtWrite
        (fun atWrite => call (remember s v atWrite limits) callee args site)
        (call (evaluate limits) callee args site) m₁ := by
  intro s m'
  have hsize : s.object < m.heap.objects.size := hm.holder_lt ht
  have hm' : m' = { m with heap := m.heap.setField s.object s.name v } :=
    congrArg (fun heap => { m with heap }) (m.heap.setMember_eq t n v)
  have hfills : m'.heap.Fills s v := hm' ▸ Heap.fills_setField hsize v
  have hreads {m₁ : Machine} (hm₁ : m₁.heap.Fills s v) {r : Ref} {name : String}
      (hr : m₁.heap.ReadsFrom s r name) : m₁.Reads r name v := reads_iff.mpr (hm₁.member? hr)
  refine ⟨?_, ?_, ?_, hfills, fun m₁ hm₁ r name hr => hreads hm₁ hr, ?_, ?_, fun m₁ hm₁ => ⟨?_, ?_⟩⟩
  · intro evaluate rounds loc loc' target value m₀ h
    exact evaluateLevel_assign_member rounds loc loc' n h
  · intro r hholder hclass
    refine hreads hfills ?_
    rw [hm']
    exact Heap.readsFrom_setField.mpr ⟨⟨hholder, rfl⟩, hclass⟩
  · intro room r name hr
    rw [hm']
    exact readMember_setField room hsize hr v
  · intro limits program
    exact agrees_evaluateLast (agree_remember limits) Heap.nullRef program
  · intro limits callee args site
    exact agrees_call (agree_remember limits) lasting_fills callee args site
  · intro limits program
    exact partsAtWrite_evaluateProgram limits program hm₁
  · intro limits callee args site
    exact partsAtWrite_call limits callee args site hm₁

/-- What is written through a view of an instance is read from the instance. -/
theorem member_writes_last_view :
    let h := (Heap.initial.alloc (.instance 0)).2
    let m := { Machine.bare false with heap := (h.alloc (.superView 11 0)).2 }
    m.Reached ∧ m.store.Has (.object 12) ∧
      { m with heap := m.heap.setMember 12 "x" Heap.trueRef }.Reads 11 "x" Heap.trueRef := by
  intro h m
  have hinst : Store.Reached ⟨h, (Machine.bare false).scope⟩ :=
    (Store.Reached.start false).add (by decide)
  have hm : m.Reached := ⟨hinst.add (by decide), Nat.one_pos⟩
  have hview : m.store.Has (.object 12) := by decide
  exact ⟨hm, hview, (member_writes_last hm hview "x" Heap.trueRef).2.1 11 rfl rfl⟩

/-- A program that writes a member of a class and reads it. -/
def classWrite : List Expr :=
  [.classDef none "C" none [],
    .assign none (.member none (.name none "C") "x") (.boolean none true),
    .member none (.name none "C") "x"]

/-- The write succeeds, and the member is not there. -/
theorem class_write_unread :
    ((Runner.new true false).run (classWrite.take 2)).1.isOk = true ∧
    Runner.reports ((Runner.new true false).run (classWrite.take 2)).1 = [] ∧
    Runner.reports ((Runner.new true false).run classWrite).1 =
      ["NameError: undefined member x on <class C>"] := by
  decide +kernel

end Machine

end TreeScript
