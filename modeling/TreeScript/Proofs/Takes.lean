import TreeScript.Proofs.Equality

/-!
# Steps from store to store

What programs see of a machine is its store and what has been printed. A
computation takes one store to another if from every machine with the first
store it gives the same value and leaves the second one, and prints nothing.
Such steps follow one another; the list of calls, the depth, the place and the
trace that evaluations and calls keep up to date play no part in them.
-/

namespace TreeScript

namespace Run

/-- From every machine with the first store, a computation gives a value and leaves the second store. -/
def Takes {α : Type} (x : Run α) (s : Store) (a : α) (t : Store) : Prop :=
  ∀ m : Machine, m.store = s → ∃ m', x m = .done a m' ∧ m'.store = t ∧ m'.effects = m.effects

variable {α β : Type} {x : Run α} {f : α → Run β} {a : α} {b : β} {s t u : Store} {v : Ref}

theorem takes_pure (a : α) (s : Store) : Takes (Pure.pure a) s a s :=
  fun m hm => ⟨m, rfl, hm, rfl⟩

theorem Takes.bind (hx : Takes x s a t) (hf : Takes (f a) t b u) : Takes (x >>= f) s b u := by
  intro m hm
  obtain ⟨m₁, hrun, hm₁, heffects⟩ := hx m hm
  obtain ⟨m₂, hrun', hm₂, heffects'⟩ := hf m₁ hm₁
  exact ⟨m₂, (bind_done hrun f).trans hrun', hm₂, heffects'.trans heffects⟩

theorem takes_look (f : Heap → α) (s : Store) : Takes (look f) s (f s.heap) s := by
  rintro m rfl
  exact ⟨m, rfl, rfl, rfl⟩

theorem takes_lookDeep {f : Heap → Option α} (hf : f s.heap = some a) : Takes (lookDeep f) s a s := by
  rintro m rfl
  refine ⟨m, ?_, rfl, rfl⟩
  unfold lookDeep
  rw [show f m.heap = some a from hf]

theorem takes_lookScope (f : Scope Ref → α) (s : Store) : Takes (lookScope f) s (f s.scope) s := by
  rintro m rfl
  exact ⟨m, rfl, rfl, rfl⟩

theorem takes_make (f : Heap → Ref × Heap) (s : Store) :
    Takes (make f) s (f s.heap).1 { s with heap := (f s.heap).2 } := by
  rintro m rfl
  exact ⟨_, rfl, rfl, rfl⟩

/-- A change of what programs do not see. -/
theorem takes_change {f : Machine → Machine} (hstore : ∀ m, (f m).store = m.store)
    (heffects : ∀ m, (f m).effects = m.effects) : Takes (change f) s () s :=
  fun m hm => ⟨f m, rfl, (hstore m).trans hm, heffects m⟩

/-- A line of the trace, if there is room for it. -/
theorem takes_trace {fits : Bool} (hfits : fits = true) (line : Machine → String) (s : Store) :
    Takes (trace fits line) s () s := by
  rw [hfits]
  refine takes_change (fun m => ?_) fun m => ?_
  all_goals split <;> rfl

theorem Takes.ensuring (hx : Takes x s a t) {last : Run Unit} (hlast : Takes last t () u) :
    Takes (ensuring x last) s a u := by
  intro m hm
  obtain ⟨m₁, hrun, hm₁, heffects⟩ := hx m hm
  obtain ⟨m₂, hrun', hm₂, heffects'⟩ := hlast m₁ hm₁
  refine ⟨m₂, ?_, hm₂, heffects'.trans heffects⟩
  unfold Run.ensuring
  rw [hrun]
  dsimp only
  rw [hrun']

theorem Takes.entered (hx : Takes x s a t) : Takes (entered x) s a t := by
  refine Takes.bind (takes_change (fun _ => rfl) fun _ => rfl) ?_
  exact hx.ensuring (takes_change (fun _ => rfl) fun _ => rfl)

theorem takes_setPlace (place : Option Loc) (s : Store) : Takes (setPlace place) s () s := by
  unfold setPlace
  exact takes_change (fun _ => rfl) fun _ => rfl

theorem takes_visitSite (site : Option (Option Loc)) (s : Store) : Takes (visitSite site) s () s := by
  cases site with
  | none => exact takes_pure () s
  | some place => exact takes_setPlace place s

/-- There must be room for the name of the call and for its line. -/
theorem Takes.listed {x : Run Ref} (hx : Takes x s v t) {room : Room} (hroom : room.line = true)
    {callee : Ref} {name : String} (hname : callName? room s.heap callee = some name)
    (args : List Ref) (site : Option (Option Loc)) : Takes (listed room callee args site x) s v t := by
  refine Takes.entered ((takes_lookDeep hname).bind ((takes_trace hroom _ s).bind ?_))
  refine Takes.bind (takes_change (fun _ => rfl) fun _ => rfl) ?_
  refine (takes_visitSite site s).bind (hx.bind ?_)
  exact Takes.bind (takes_change (fun _ => rfl) fun _ => rfl) (takes_pure v t)

/-- An expression takes the steps of its level. -/
theorem Takes.evaluateAt {limits : Limits} {nesting : Nat} {e : Expr}
    (h : Takes (evaluateLevel (evaluateAt limits nesting) limits.rounds e) s v t) :
    Takes (evaluateAt limits (nesting + 1) e) s v t :=
  Takes.entered ((takes_setPlace e.loc s).bind h)

end Run

end TreeScript
