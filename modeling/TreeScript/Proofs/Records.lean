import TreeScript.Proofs.Correspondence.Evaluation
import TreeScript.Runner

/-!
# Records

A machine records what programs print and, if tracing is on, the lines of a
trace. No computation reads these records. So whatever was recorded before, and
whether tracing is on or off, a computation ends with the same value or fault and
on the same machine, and adds the same to the records: texts that were printed,
and, if they are kept, lines in which every body that begins also ends, after all
that began inside it.
-/

namespace TreeScript

/-! ## Lines of a trace -/

namespace Run

/-- The line of a trace with which a call begins. -/
def callLine (name : String) (count : Nat) : String := s!"[DBG] call {name} argc {count}"

/-- A line that neither begins nor ends a body. -/
structure IsPlainLine (line : String) : Prop where
  ne_push : ∀ name count, line ≠ pushLine name count
  ne_pop : ∀ name, line ≠ popLine name

/-- Lines in which each body ends under the name it began with, after all that began inside it. -/
inductive Nested : List String → Prop
  | nil : Nested []
  | line {line : String} {rest : List String} (hline : IsPlainLine line) (hrest : Nested rest) :
    Nested (line :: rest)
  | body (name : String) (count : Nat) {inner rest : List String} (hinner : Nested inner)
    (hrest : Nested rest) : Nested (pushLine name count :: inner ++ popLine name :: rest)

theorem Nested.append {lines more : List String} (hlines : Nested lines) (hmore : Nested more) :
    Nested (lines ++ more) := by
  induction hlines with
  | nil => exact hmore
  | line hline _ ih => exact .line hline ih
  | body name count hinner _ _ ih =>
    rw [List.append_assoc, List.cons_append]
    exact .body name count hinner ih

theorem Nested.single {line : String} (hline : IsPlainLine line) : Nested [line] :=
  .line hline .nil

theorem Nested.enclose {lines : List String} (hlines : Nested lines) (name : String) (count : Nat) :
    Nested (pushLine name count :: (lines ++ [popLine name])) :=
  .body name count hlines .nil

/-- The first letter after the mark of a trace tells plain lines from the lines of bodies. -/
theorem isPlainLine_of_letter {line : String} {c : Char} (hline : line.toList[6]? = some c)
    (hc : c ≠ 'p') : IsPlainLine line where
  ne_push name count h := by
    refine hc ?_
    rw [h] at hline
    simpa [pushLine, toString] using hline.symm
  ne_pop name h := by
    refine hc ?_
    rw [h] at hline
    simpa [popLine, toString] using hline.symm

theorem isPlainLine_callLine (name : String) (count : Nat) :
    IsPlainLine (callLine name count) := by
  have hline : callLine name count = "[DBG] call " ++ name ++ " argc " ++ toString count := rfl
  refine isPlainLine_of_letter (c := 'c') ?_ (by decide)
  rw [hline, String.toList_append, String.toList_append, String.toList_append]
  rfl

theorem isPlainLine_choiceLine (name shown : String) : IsPlainLine (choiceLine name shown) := by
  have hline : choiceLine name shown = "[DBG] dispatch " ++ name ++ " -> " ++ shown := rfl
  refine isPlainLine_of_letter (c := 'd') ?_ (by decide)
  rw [hline, String.toList_append, String.toList_append, String.toList_append]
  rfl

end Run

/-! ## Records -/

/-- A trace after more lines, if it is kept. -/
def keptLines (tracing : Bool) (traced : Array String) (lines : List String) : Array String :=
  if tracing then traced ++ lines.toArray else traced

@[simp] theorem keptLines_nil (tracing : Bool) (traced : Array String) :
    keptLines tracing traced [] = traced := by
  simp [keptLines]

/-- What a machine records, and whether that includes a trace. -/
structure Records where
  effects : Array Effect
  tracing : Bool
  traced : Array String

namespace Records

/-- Texts that a program has printed, as they are recorded. -/
def outputs (printed : List String) : Array Effect := (printed.map (⟨.stdout, ·⟩)).toArray

/-- Reports of faults, as they are recorded. -/
def notes (reports : List String) : Array Effect := (reports.map (⟨.stderr, ·⟩)).toArray

/-- The records after more texts and lines. -/
def add (r : Records) (printed lines : List String) : Records where
  effects := r.effects ++ outputs printed
  tracing := r.tracing
  traced := keptLines r.tracing r.traced lines

/-- The records after reports. -/
def note (r : Records) (reports : List String) : Records :=
  { r with effects := r.effects ++ notes reports }

@[simp] theorem outputs_append (printed more : List String) :
    outputs (printed ++ more) = outputs printed ++ outputs more := by
  simp [outputs]

@[simp] theorem add_nil (r : Records) : r.add [] [] = r := by
  simp [add, outputs]

theorem add_add (r : Records) (printed lines printed' lines' : List String) :
    (r.add printed lines).add printed' lines' = r.add (printed ++ printed') (lines ++ lines') := by
  by_cases h : r.tracing = true <;> simp [add, keptLines, h]

end Records

namespace Machine

def records (m : Machine) : Records := ⟨m.effects, m.tracing, m.traced⟩

/-- The same machine with other records. -/
def withRecords (m : Machine) (r : Records) : Machine :=
  { m with effects := r.effects, tracing := r.tracing, traced := r.traced }

@[simp] theorem withRecords_withRecords (m : Machine) (r r' : Records) :
    (m.withRecords r).withRecords r' = m.withRecords r' := rfl

@[simp] theorem withRecords_records (m : Machine) : m.withRecords m.records = m := rfl

end Machine

namespace Outcome

variable {α : Type}

/-- The same end on a machine with other records. -/
def withRecords (o : Outcome α) (r : Records) : Outcome α :=
  match o with
  | .done a m => .done a (m.withRecords r)
  | .failed e m => .failed e (m.withRecords r)
  | .exhausted => .exhausted

@[simp] theorem withRecords_withRecords (o : Outcome α) (r r' : Records) :
    (o.withRecords r).withRecords r' = o.withRecords r' := by
  cases o <;> rfl

theorem withRecords_ne {o : Outcome α} (ho : o ≠ .exhausted) (r : Records) :
    o.withRecords r ≠ .exhausted := by
  cases o with
  | exhausted => exact absurd rfl ho
  | _ => exact fun h => by cases h

end Outcome

/-! ## Adding to the records -/

namespace Run

variable {α β : Type}

/-- From a machine, whatever has been recorded, a computation adds these texts and lines. -/
def Adds (x : Run α) (m : Machine) (printed lines : List String) : Prop :=
  ∀ r : Records, x (m.withRecords r) = (x m).withRecords (r.add printed lines)

theorem trace_eq (line : String) (m : Machine) :
    trace true (fun _ => line) m = .done () (m.withRecords (m.records.add [] [line])) := by
  obtain ⟨heap, scope, effects, calls, active, place, tracing, traced⟩ := m
  cases tracing <;>
    simp [trace, change, Machine.withRecords, Machine.records, Records.add, Records.outputs, keptLines]

namespace Adds

variable {x : Run α} {m : Machine} {printed lines printed' lines' : List String}

/-- What has nothing to do with the records adds nothing. -/
theorem nothing (h : ∀ r, x (m.withRecords r) = (x m).withRecords r) : Adds x m [] [] :=
  fun r => by rw [Records.add_nil, h]

theorem trace (line : String) (m : Machine) : Adds (trace true fun _ => line) m [] [line] := by
  intro r
  rw [trace_eq, trace_eq]
  rfl

theorem withRecords (hx : Adds x m printed lines) (r : Records) :
    Adds x (m.withRecords r) printed lines := by
  intro r'
  rw [Machine.withRecords_withRecords, hx r', hx r, Outcome.withRecords_withRecords]

theorem bind {f : α → Run β} {a : α} {m' : Machine} (hx : Adds x m printed lines)
    (hxm : x m = .done a m') (hf : Adds (f a) m' printed' lines') :
    Adds (x >>= f) m (printed ++ printed') (lines ++ lines') := by
  intro r
  simp only [bind_apply, hx r, hxm, ← Records.add_add]
  exact hf _

/-- A sequence that ends with its first part adds what that part does. -/
theorem bind_of_end {f : α → Run β} (hx : Adds x m printed lines)
    (hxm : ∀ a m', x m ≠ .done a m') : Adds (x >>= f) m printed lines := by
  intro r
  simp only [bind_apply, hx r]
  cases h : x m with
  | done a m' => exact absurd h (hxm a m')
  | _ => rfl

theorem ensuring (last : Run Unit) (hx : Adds x m printed lines)
    (hlast : ∀ m', (x m).machine? = some m' → Adds last m' printed' lines') :
    Adds (ensuring x last) m (printed ++ printed') (lines ++ lines') := by
  intro r
  simp only [Run.ensuring, hx r, ← Records.add_add]
  cases hxm : x m with
  | exhausted => rfl
  | _ =>
    simp only [Outcome.withRecords, hlast _ (by rw [hxm]; rfl) _]
    cases last _ <;> rfl

end Adds

/-- What a computation adds to the records does not depend on them, and nothing else does. -/
def Appends (x : Run α) : Prop :=
  ∀ m : Machine, ∃ printed lines : List String, Nested lines ∧ Adds x m printed lines

theorem appends_of_unread {x : Run α}
    (h : ∀ m r, x (m.withRecords r) = (x m).withRecords r) : Appends x :=
  fun m => ⟨[], [], .nil, .nothing (h m)⟩

theorem appends_change {f : Machine → Machine}
    (h : ∀ m r, f (m.withRecords r) = (f m).withRecords r) : Appends (change f) :=
  appends_of_unread fun m r => congrArg (Outcome.done ()) (h m r)

theorem appends_trace (fits : Bool) {line : String} (hline : IsPlainLine line) :
    Appends (trace fits fun _ => line) := by
  cases fits with
  | true => exact fun m => ⟨[], [line], .single hline, .trace line m⟩
  | false => exact appends_of_unread fun _ _ => rfl

theorem appends_lookDeep (f : Heap → Option α) : Appends (lookDeep f) := by
  refine appends_of_unread fun m r => ?_
  unfold lookDeep
  rw [show (m.withRecords r).heap = m.heap from rfl]
  cases f m.heap <;> rfl

theorem appends_emit (message : String) : Appends (emit .stdout message) := by
  refine fun m => ⟨[message], [], .nil, fun r => ?_⟩
  simp [emit, change, Machine.withRecords, Outcome.withRecords, Records.add, Records.outputs, keptLines]

theorem Appends.bind {x : Run α} {f : α → Run β} (hx : Appends x) (hf : ∀ a, Appends (f a)) :
    Appends (x >>= f) := by
  intro m
  obtain ⟨printed, lines, hlines, hx⟩ := hx m
  cases hxm : x m with
  | done a m' =>
    obtain ⟨printed', lines', hlines', hf⟩ := hf a m'
    exact ⟨_, _, hlines.append hlines', hx.bind hxm hf⟩
  | _ => exact ⟨_, _, hlines, hx.bind_of_end fun a m' h => by rw [hxm] at h; cases h⟩

theorem Appends.ensuring {x : Run α} {last : Run Unit} (hx : Appends x) (hlast : Appends last) :
    Appends (ensuring x last) := by
  intro m
  obtain ⟨printed, lines, hlines, hx⟩ := hx m
  cases hend : (x m).machine? with
  | some m' =>
    obtain ⟨printed', lines', hlines', hlast⟩ := hlast m'
    refine ⟨printed ++ printed', lines ++ lines', hlines.append hlines', hx.ensuring _ fun m'' h => ?_⟩
    rw [hend] at h
    cases h
    exact hlast
  | none =>
    refine ⟨printed ++ [], lines ++ [], hlines.append .nil, hx.ensuring _ fun m'' h => ?_⟩
    rw [hend] at h
    cases h

theorem Appends.entered {x : Run α} (hx : Appends x) : Appends (entered x) :=
  (appends_change fun _ _ => rfl).bind fun _ => hx.ensuring (appends_change fun _ _ => rfl)

/-- What a body adds to a trace stands between the line that begins it and the line that ends it. -/
theorem Appends.bracketed {x : Run Ref} (hx : Appends x) (frame : FrameId) (name : String)
    (count : Nat) : Appends (bracketed frame name count x) := by
  intro m
  obtain ⟨printed, lines, hlines, hx⟩ := hx { m with scope := m.scope.enter frame }
  refine ⟨printed, pushLine name count :: (lines ++ [popLine name]), hlines.enclose name count, ?_⟩
  have hbody := (Adds.trace (pushLine name count) _).bind (trace_eq _ _) (f := fun _ => x)
    (hx.withRecords _)
  have hback := (hbody.ensuring (changeScope (·.enter m.scope.head)) fun m' _ =>
    .nothing fun _ => rfl).ensuring _ fun m' _ => Adds.trace (popLine name) m'
  simp only [List.nil_append, List.append_nil, List.cons_append] at hback
  exact hback

/-- What a call adds to a trace begins with the line of the call. -/
theorem Appends.listed {x : Run Ref} (hx : Appends x) (room : Room) (callee : Ref)
    (args : List Ref) (site : Option (Option Loc)) : Appends (listed room callee args site x) := by
  have hsite : Appends (visitSite site) := by
    cases site with
    | none => exact appends_of_unread fun _ _ => rfl
    | some place => exact appends_change fun _ _ => rfl
  refine Appends.entered ((appends_lookDeep _).bind fun name => ?_)
  refine (appends_trace _ (isPlainLine_callLine name args.length)).bind fun _ => ?_
  refine (appends_change fun _ _ => rfl).bind fun _ => hsite.bind fun _ => hx.bind fun v => ?_
  exact (appends_change fun _ _ => rfl).bind fun _ => appends_of_unread fun _ _ => rfl

theorem appends_popFrame : Appends popFrame := by
  refine appends_of_unread fun m r => ?_
  have hscope : (m.withRecords r).scope = m.scope := rfl
  unfold popFrame
  rw [hscope]
  cases m.scope.pop <;> rfl

/-- Adding to the records is a property of the first computation alone. -/
def recording : Correspondence where
  place := id
  keepsWritable := keepsWritable_id
  Rel x _ := Appends x
  pure _ := appends_of_unread fun _ _ => rfl
  bind hx hf := hx.bind hf
  complain _ := appends_of_unread fun _ _ => rfl
  fail _ := appends_of_unread fun _ _ => rfl
  exhausted := appends_of_unread fun _ _ => rfl
  ensuring hx hlast := hx.ensuring hlast
  look _ hk := (appends_of_unread fun _ _ => rfl).bind hk
  lookScope _ := appends_of_unread fun _ _ => rfl
  make _ := appends_of_unread fun _ _ => rfl
  changeHeap _ := appends_change fun _ _ => rfl
  changeScope _ := appends_change fun _ _ => rfl
  newFrame _ _ := appends_of_unread fun _ _ => rfl
  popFrame := appends_popFrame
  emit := appends_emit
  choice fits name shown _ := appends_trace fits (isPlainLine_choiceLine name shown)
  body frame name count hx := hx.bracketed frame name count
  setPlace _ := appends_change fun _ _ => rfl
  entered hx := hx.entered
  listed room callee args site hx := hx.listed room callee args site

/-! ## Programs -/

open Correspondence

theorem appends_evaluate (limits : Limits) (e : Expr) : Appends (evaluate limits e) :=
  (rel_evaluate (C := recording) limits).run e

theorem appends_call (limits : Limits) (callee : Ref) (args : List Ref)
    (site : Option (Option Loc)) : Appends (call (evaluate limits) callee args site) :=
  rel_call (C := recording) (rel_evaluate limits) callee args site

theorem appends_evaluateProgram (limits : Limits) (program : List Expr) :
    Appends (Runner.evaluateProgram limits program) :=
  rel_evaluateLast (C := recording) (rel_evaluate limits) Heap.nullRef program

end Run

namespace Runner

/-- The machine with which a run starts. -/
def started (m : Machine) : Machine := { m with effects := #[], calls := [] }

/-- The end of a run whose program ends so. -/
def conclude (r : Runner) : Outcome Ref → Except RunFault RunResult × Runner
  | .done v m => (.ok (.success v), { r with machine := m })
  | .failed fault m =>
    match report r.limits m fault with
    | .ok text => (.ok (.failure fault text), { r with machine := record m text })
    | .error e => (.error e, { r with machine := m })
  | .exhausted => (.error .exhausted, r)

theorem run_eq (r : Runner) (program : List Expr) :
    r.run program = r.conclude (evaluateProgram r.limits program (started r.machine)) := rfl

/-- The reports that a run has recorded: one if it has failed, and otherwise none. -/
def reports : Except RunFault RunResult → List String
  | .ok (.success _) | .error _ => []
  | .ok (.failure _ report) | .ok (.rejected _ report) => [report]

/-- The same runner with other records. -/
def withRecords (r : Runner) (rec : Records) : Runner :=
  { r with machine := r.machine.withRecords rec }

/-- What a runner has before a run is gone after it, unless the run has no end. -/
theorem conclude_of_machine (r : Runner) (m : Machine) {o : Outcome Ref} (ho : o ≠ .exhausted) :
    ({ r with machine := m } : Runner).conclude o = r.conclude o := by
  cases o with
  | exhausted => exact absurd rfl ho
  | _ => rfl

/-- A run concludes alike whatever is recorded, and its report comes behind that. -/
theorem conclude_withRecords (r : Runner) (rec : Records) {o : Outcome Ref} (ho : o ≠ .exhausted) :
    r.conclude (o.withRecords rec) =
      ((r.conclude o).1, (r.conclude o).2.withRecords (rec.note (reports (r.conclude o).1))) := by
  cases o with
  | done v m => simp [conclude, Outcome.withRecords, withRecords, reports, Records.note, Records.notes]
  | failed fault m =>
    have hreport : report r.limits (m.withRecords rec) fault = report r.limits m fault := rfl
    simp only [Outcome.withRecords, conclude, hreport]
    cases report r.limits m fault with
    | ok text => rfl
    | error e => simp [withRecords, reports, Records.note, Records.notes]
  | exhausted => exact absurd rfl ho

end Runner

end TreeScript
