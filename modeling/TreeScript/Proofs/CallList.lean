import TreeScript.Proofs.Correspondence.Evaluation

/-!
# The list of calls

A call is listed while it runs; it is taken off the list when it gives a value,
and stays there when it fails. An entry from outside, while nothing is being
evaluated, first forgets what earlier failures left. So the list is as it was on
entry after a value and has grown at its end after a fault, the count of
evaluations inside each other is always given back, and the trace of a complaint
is the list at the end.
-/

namespace TreeScript

/-- The list of calls with which an evaluation or call starts. -/
def Machine.callsOnEntry (m : Machine) : List Call := if m.active = 0 then [] else m.calls

/-- What becomes of a list of calls and of a count of evaluations under way. -/
def Outcome.KeepsCalls {α : Type} (calls : List Call) (active : Nat) (o : Outcome α) : Prop :=
  o.Ends (fun _ m => m.calls = calls ∧ m.active = active)
    (fun e m => calls <+: m.calls ∧ m.active = active ∧
      ∀ c trace, e = .complaint c trace → trace = m.trace)

namespace Run

variable {α β : Type}

/-- A computation inside an evaluation, which keeps the list of calls. -/
def Balanced (x : Run α) : Prop :=
  ∀ m : Machine, m.active ≠ 0 → (x m).KeepsCalls m.calls m.active

theorem Balanced.bind {x : Run α} {f : α → Run β} (hx : Balanced x) (hf : ∀ a, Balanced (f a)) :
    Balanced (x >>= f) := by
  intro m hm
  have hxm := hx m hm
  rw [bind_apply]
  cases h : x m with
  | done a m' =>
    rw [h] at hxm
    obtain ⟨hcalls, hactive⟩ := hxm
    have hfm := hf a m' (hactive ▸ hm)
    rw [hcalls, hactive] at hfm
    exact hfm
  | failed e m' =>
    rw [h] at hxm
    exact hxm
  | exhausted => trivial

/-- The second computation runs however the first ended, and a fault keeps its trace. -/
theorem Balanced.ensuring {x : Run α} {last : Run Unit} (hx : Balanced x) (hlast : Balanced last) :
    Balanced (ensuring x last) := by
  intro m hm
  have hxm := hx m hm
  unfold Run.ensuring
  cases h : x m with
  | done a m' =>
    rw [h] at hxm
    obtain ⟨hcalls, hactive⟩ := hxm
    have hend := hlast m' (hactive ▸ hm)
    rw [hcalls, hactive] at hend
    cases h' : last m' with
    | done _ m'' =>
      rw [h'] at hend
      simp only [h']
      exact hend
    | failed e m'' =>
      rw [h'] at hend
      simp only [h']
      exact hend
    | exhausted =>
      simp only [h']
      trivial
  | failed e m' =>
    rw [h] at hxm
    obtain ⟨hcalls, hactive, htrace⟩ := hxm
    have hend := hlast m' (hactive ▸ hm)
    rw [hactive] at hend
    cases h' : last m' with
    | done _ m'' =>
      rw [h'] at hend
      simp only [h']
      refine ⟨hend.1 ▸ hcalls, hend.2, fun c trace he => ?_⟩
      -- the trace is taken from the calls, and the last computation has left them as they were
      rw [htrace c trace he, Machine.trace, Machine.trace, hend.1]
    | failed e' m'' =>
      rw [h'] at hend
      simp only [h']
      exact ⟨hcalls.trans hend.1, hend.2⟩
    | exhausted =>
      simp only [h']
      trivial
  | exhausted => trivial

/-- A change that has nothing to do with calls. -/
theorem balanced_change {f : Machine → Machine} (hcalls : ∀ m, (f m).calls = m.calls)
    (hactive : ∀ m, (f m).active = m.active) : Balanced (change f) :=
  fun m _ => ⟨hcalls m, hactive m⟩

theorem entered_apply (x : Run α) (m : Machine) :
    entered x m = Run.ensuring x (change fun m => { m with active := m.active - 1 })
      { m with calls := m.callsOnEntry, active := m.active + 1 } := rfl

/-- From outside or from inside, an evaluation starts from the list it has on entry. -/
theorem keepsCalls_entered {x : Run α} (hx : Balanced x) (m : Machine) :
    (entered x m).KeepsCalls m.callsOnEntry m.active := by
  have hxm := hx { m with calls := m.callsOnEntry, active := m.active + 1 } (Nat.succ_ne_zero _)
  rw [entered_apply]
  unfold Run.ensuring
  cases h : x { m with calls := m.callsOnEntry, active := m.active + 1 } with
  | done a m' =>
    rw [h] at hxm
    exact ⟨hxm.1, Nat.sub_eq_of_eq_add hxm.2⟩
  | failed e m' =>
    rw [h] at hxm
    exact ⟨hxm.1, Nat.sub_eq_of_eq_add hxm.2.1, hxm.2.2⟩
  | exhausted => trivial

theorem callsOnEntry_of_active {m : Machine} (hm : m.active ≠ 0) : m.callsOnEntry = m.calls :=
  if_neg hm

theorem Balanced.entered {x : Run α} (hx : Balanced x) : Balanced (entered x) := by
  intro m hm
  have h := keepsCalls_entered hx m
  rwa [callsOnEntry_of_active hm] at h

/-- A listed call comes off the list with its value, and stays in front of what a fault leaves. -/
theorem Balanced.kept {x : Run Ref} (hx : Balanced x) (c : Call) :
    Balanced (do
      change fun m => { m with calls := m.calls ++ [c] }
      let result ← x
      change fun m => { m with calls := m.calls.dropLast }
      return result) := by
  intro m hm
  have hxm := hx { m with calls := m.calls ++ [c] } hm
  show Outcome.KeepsCalls _ _ ((x >>= _ : Run Ref) { m with calls := m.calls ++ [c] })
  rw [bind_apply]
  cases h : x { m with calls := m.calls ++ [c] } with
  | done v m' =>
    rw [h] at hxm
    refine ⟨?_, hxm.2⟩
    show m'.calls.dropLast = m.calls
    rw [hxm.1, List.dropLast_concat]
  | failed e m' =>
    rw [h] at hxm
    exact ⟨(List.prefix_append _ _).trans hxm.1, hxm.2⟩
  | exhausted => trivial

theorem balanced_pure (a : α) : Balanced (Pure.pure a : Run α) := fun _ _ => ⟨rfl, rfl⟩

theorem balanced_look (f : Heap → α) : Balanced (look f) := fun _ _ => ⟨rfl, rfl⟩

theorem balanced_setPlace (place : Option Loc) : Balanced (setPlace place) :=
  balanced_change (fun _ => rfl) fun _ => rfl

/-- No fault but a complaint has to do with calls. -/
theorem balanced_fail {e : Fault} (he : ∀ c trace, e ≠ .complaint c trace) :
    Balanced (fail e : Run α) :=
  fun _ _ => ⟨List.prefix_refl _, rfl, fun c trace h => absurd h (he c trace)⟩

theorem balanced_lookDeep (f : Heap → Option α) : Balanced (lookDeep f) := by
  rw [lookDeep_eq]
  refine (balanced_look f).bind fun found? => ?_
  cases found? with
  | some a => exact balanced_pure a
  | none => exact balanced_fail fun _ _ => Fault.noConfusion

theorem balanced_trace (fits : Bool) (line : Machine → String) : Balanced (trace fits line) := by
  cases fits with
  | true => exact balanced_change (fun m => by split <;> rfl) fun m => by split <;> rfl
  | false => exact balanced_fail fun _ _ => Fault.noConfusion

theorem Balanced.bracketed {x : Run Ref} (hx : Balanced x) (frame : FrameId) (name : String)
    (count : Nat) : Balanced (bracketed frame name count x) := by
  have henter (f : FrameId) : Balanced (changeScope (·.enter f)) :=
    balanced_change (fun _ => rfl) fun _ => rfl
  have hbody : Balanced (do trace true fun _ => pushLine name count; x) :=
    (balanced_trace true _).bind fun _ => hx
  refine Balanced.ensuring (Balanced.bind (fun _ _ => ⟨rfl, rfl⟩) fun head => ?_)
    (balanced_trace true _)
  exact (henter frame).bind fun _ => hbody.ensuring (henter head)

theorem balanced_popFrame : Balanced popFrame := by
  intro m _
  unfold popFrame
  cases m.scope.pop with
  | ok scope => exact ⟨rfl, rfl⟩
  | error e => exact ⟨List.prefix_refl _, rfl, fun _ _ => Fault.noConfusion⟩

/-- What a listed call runs, without the entry. -/
theorem balanced_listing {x : Run Ref} (hx : Balanced x) (room : Room) (callee : Ref)
    (args : List Ref) (site : Option (Option Loc)) :
    Balanced (do
      let name ← lookDeep (callName? room · callee)
      trace room.line fun _ => s!"[DBG] call {name} argc {args.length}"
      change fun m => { m with calls := m.calls ++ [⟨name, args⟩] }
      visitSite site
      let result ← x
      change fun m => { m with calls := m.calls.dropLast }
      return result) := by
  have hsite : Balanced (visitSite site) := by
    cases site with
    | none => exact balanced_pure ()
    | some place => exact balanced_setPlace place
  refine (balanced_lookDeep _).bind fun name => (balanced_trace _ _).bind fun _ => ?_
  have hkept := (hsite.bind fun _ => hx).kept ⟨name, args⟩
  simp only [bind_assoc] at hkept
  exact hkept

/-- Balance is a property of the first computation alone. -/
def balance : Correspondence where
  place := id
  keepsWritable _ := rfl
  Rel x _ := Balanced x
  pure := balanced_pure
  bind hx hf := hx.bind hf
  complain c m _ := ⟨List.prefix_refl _, rfl, fun c trace he => by cases he; rfl⟩
  fail := balanced_fail
  exhausted _ _ := trivial
  ensuring hx hlast := hx.ensuring hlast
  look _ hk := (balanced_look _).bind hk
  lookScope f _ _ := ⟨rfl, rfl⟩
  make _ _ _ := ⟨rfl, rfl⟩
  changeHeap _ := balanced_change (fun _ => rfl) fun _ => rfl
  changeScope _ := balanced_change (fun _ => rfl) fun _ => rfl
  newFrame _ _ _ _ := ⟨rfl, rfl⟩
  popFrame := balanced_popFrame
  emit _ := balanced_change (fun _ => rfl) fun _ => rfl
  choice _ _ _ _ := balanced_trace _ _
  body frame name count hx := hx.bracketed frame name count
  setPlace := balanced_setPlace
  entered hx := hx.entered
  listed room callee args site hx := (balanced_listing hx room callee args site).entered

/-! ## Entries -/

open Correspondence

/-- Evaluating an expression is an entry, and what it enters is balanced. -/
theorem evaluate_eq_entered (limits : Limits) (e : Expr) :
    ∃ x, Balanced x ∧ evaluate limits e = entered x := by
  unfold evaluate
  cases limits.nesting with
  | zero => exact ⟨_, balanced_fail fun _ _ => Fault.noConfusion, rfl⟩
  | succ nesting =>
    have hlevel : Balanced (evaluateLevel (evaluateAt limits nesting) limits.rounds e) :=
      rel_evaluateLevel (C := balance) (rel_evaluateAt limits nesting) limits.rounds e
    exact ⟨_, (balanced_setPlace e.loc).bind fun _ => hlevel, rfl⟩

theorem evaluatePattern_eq_entered (p : Pattern) :
    ∃ x, Balanced x ∧ evaluatePattern p = entered x :=
  ⟨_, (balanced_setPlace p.loc).bind fun _ => balance.complain _, rfl⟩

theorem call_eq_entered (limits : Limits) (callee : Ref) (args : List Ref)
    (site : Option (Option Loc)) :
    ∃ x, Balanced x ∧ call (evaluate limits) callee args site = entered x := by
  have happly : Balanced (apply (evaluate limits) callee args) :=
    rel_apply (C := balance) (rel_evaluate limits) callee args
  exact ⟨_, balanced_listing happly _ callee args site, rfl⟩

/-- An entry from outside takes no notice of the calls that earlier failures left. -/
theorem entered_forgets (x : Run α) {m : Machine} (hm : m.active = 0) (left : List Call) :
    entered x { m with calls := left } = entered x { m with calls := [] } := by
  simp only [entered_apply, Machine.callsOnEntry, hm, if_true]

/-- How an entry treats the list of calls: it keeps what it finds, or forgets it if it comes from
outside. -/
structure Lists (x : Run Ref) (m : Machine) : Prop where
  keeps : (x m).KeepsCalls m.callsOnEntry m.active
  forgets : m.active = 0 → ∀ left, x { m with calls := left } = x { m with calls := [] }

theorem lists_of_entered {x : Run Ref} (hx : ∃ y, Balanced y ∧ x = entered y) (m : Machine) :
    Lists x m := by
  obtain ⟨y, hy, rfl⟩ := hx
  exact ⟨keepsCalls_entered hy m, fun hm left => entered_forgets y hm left⟩

/-- Whether an expression is evaluated, a pattern taken up or a value called: after a value the list
of calls is the one from entry, after a fault that list with the calls that failed behind it, and in
both cases as many evaluations are under way as before. The trace of a complaint is the list at the
end. Entered from outside, it all goes as if earlier failures had left nothing on the list. -/
theorem lists_calls (limits : Limits) (m : Machine) :
    (∀ e, Lists (evaluate limits e) m) ∧
    (∀ p, Lists (evaluatePattern p) m) ∧
    (∀ callee args site, Lists (call (evaluate limits) callee args site) m) := by
  refine ⟨fun e => ?_, fun p => ?_, fun callee args site => ?_⟩
  · exact lists_of_entered (evaluate_eq_entered limits e) m
  · exact lists_of_entered (evaluatePattern_eq_entered p) m
  · exact lists_of_entered (call_eq_entered limits callee args site) m

end Run

end TreeScript
