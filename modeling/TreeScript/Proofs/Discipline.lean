import TreeScript.Machine.CallLaws
import TreeScript.Proofs.Production

/-!
# Disciplines

A discipline says what stays true of the store while a program runs, which
places a computation may come to hold, and in which frames it may bind names.
Its laws speak of the primitive operations alone: adding a frame or a product
of the heap, binding a name, writing a field. A computation respects a
discipline if its end does, whether that is a value or a fault, if the store has
only grown, and if the head of the active chain is the one from before.

Only want of room leaves another head. A call that breaks off for it before its
body leaves the frame of its function, and what is closed on the way out is then
closed from there, until nothing is left to close. No name is bound any more in
that time, so the discipline asks of that head no more than that it is held.

Classes are defined inside each other, and while one is under definition more
may be known of the store than before and after. Stages are disciplines for the
classes that are under definition, one for each list of them; a discipline that
makes no difference between its stages is uniform.
-/

namespace TreeScript

structure Discipline where
  Inv : Store → Prop
  Holds : Store → Place → Prop
  /-- The frames in which names may be bound while they are the head. -/
  Active : Store → FrameId → Prop
  /-- Whether calls may break off before the body for want of room. -/
  Cramped : Prop := True
  holds_mono {s t : Store} {p : Place} : s.Grows t → Holds s p → Holds t p
  active_mono {s t : Store} {f : FrameId} : s.Grows t → Active s f → Active t f
  closed {s : Store} : Inv s → s.Closed (Holds s)
  holds_globals {s : Store} : Inv s → Holds s (.frame s.scope.globals)
  holds_shared {s : Store} {r : Ref} : Inv s → Heap.IsShared r → Holds s (.object r)
  holds_active {s : Store} {f : FrameId} : Inv s → Active s f → Holds s (.frame f)
  enter {s : Store} (f : FrameId) : Inv s → Inv { s with scope := s.scope.enter f }
  newFrame {s : Store} {parent : FrameId} (name : String) : Inv s → Holds s (.frame parent) →
    let t := { s with scope := (s.scope.newFrame name (some parent)).2 }
    Inv t ∧ Active t s.scope.frames.size
  /-- A name is bound in an active frame, or wherever it is bound already. -/
  bind {s : Store} {f : FrameId} {name : String} {v : Ref} : Inv s →
    (Active s f ∨ Holds s (.frame f) ∧ s.scope.bindsIn f name = true) → Holds s (.object v) →
    Inv { s with scope := s.scope.defineIn f name v }
  add {s : Store} {o : Object} : Inv s → s.heap.Produces o → (∀ p ∈ o.places, Holds s p) →
    let t := { s with heap := (s.heap.add o).2 }
    Inv t ∧ Holds t (.object s.heap.objects.size)
  setField {s : Store} {r v : Ref} (name : String) : Inv s → Holds s (.object r) →
    Holds s (.object v) → Inv { s with heap := s.heap.setField r name v }

namespace Discipline

/-! ## Classes under definition -/

/-- Disciplines for the classes that are under definition, innermost first. -/
structure Stages where
  stage : List Ref → Discipline
  Draft : Store → Ref → Prop
  draft_mono {s t : Store} {c : Ref} : s.Grows t → Draft s c → Draft t c
  /-- A definition begins with a class that has nothing but a name and a superclass. -/
  begins {s : Store} {cs : List Ref} {parent : Ref} (name : String) : (stage cs).Inv s →
    (stage cs).Holds s (.object parent) → s.heap.IsSuperclass parent →
    let c := s.heap.objects.size
    let t := { s with heap := (s.heap.alloc (.classObject { name, superclass := some parent })).2 }
    (stage (c :: cs)).Inv t ∧ Draft t c ∧ ∀ f, (stage cs).Active s f → (stage (c :: cs)).Active t f
  /-- What a class under definition refers to is held, though the class itself may not be. -/
  holds_entries {s : Store} {c : Ref} {cs : List Ref} {p : Place} : (stage (c :: cs)).Inv s →
    Draft s c → p ∈ s.places (.object c) → (stage (c :: cs)).Holds s p
  writes {s : Store} {c v : Ref} {cs : List Ref} {table : ClassTable} {name : String} :
    (stage (c :: cs)).Inv s → Draft s c → s.heap.ClassEntry c table name v →
    (stage (c :: cs)).Holds s (.object v) →
    (stage (c :: cs)).Inv { s with heap := s.heap.updateClass c (·.write table name v) }
  ends {s : Store} {c : Ref} {cs : List Ref} : (stage (c :: cs)).Inv s → Draft s c →
    (stage cs).Inv s ∧ (stage cs).Holds s (.object c)
  /-- A frame does not cease to be held when a definition ends. -/
  holds_frame {s : Store} {c : Ref} {cs : List Ref} {f : FrameId} :
    (stage (c :: cs)).Holds s (.frame f) → (stage cs).Holds s (.frame f)
  cramped {c : Ref} {cs : List Ref} : (stage (c :: cs)).Cramped → (stage cs).Cramped

/-- A discipline for all stages, in which classes under definition are held like all else. -/
structure Uniform extends Discipline where
  Draft : Store → Ref → Prop
  draft_mono {s t : Store} {c : Ref} : s.Grows t → Draft s c → Draft t c
  holds_draft {s : Store} {c : Ref} : Inv s → Draft s c → Holds s (.object c)
  draft {s : Store} {info : ClassInfo} : Inv s → (∀ p ∈ info.places, Holds s p) →
    let t := { s with heap := (s.heap.alloc (.classObject info)).2 }
    Draft t s.heap.objects.size
  writeClass {s : Store} {c v : Ref} (table : ClassTable) (name : String) : Inv s → Draft s c →
    Holds s (.object v) → Inv { s with heap := s.heap.updateClass c (·.write table name v) }

def Uniform.stages (D : Uniform) : Stages where
  stage _ := D.toDiscipline
  Draft := D.Draft
  draft_mono := D.draft_mono
  begins {s cs parent} name hs hparent hsuper := by
    have hinfo : ∀ p ∈ ({ name, superclass := some parent } : ClassInfo).places, D.Holds s p :=
      fun p hp => ClassInfo.mem_places_new hp ▸ hparent
    refine ⟨(D.add hs (.class name hsuper) ?_).1, D.draft hs hinfo, ?_⟩
    · intro p hp
      exact Object.mem_places_newClass hp ▸ hparent
    · intro f hf
      exact D.active_mono (s.grows_heap (by simp [Heap.alloc])) hf
  holds_entries {s c cs p} hs hc hp := D.closed hs (.object c) p (D.holds_draft hs hc) hp
  writes {s c v cs table name} hs hc _ hv := D.writeClass table name hs hc hv
  ends hs hc := ⟨hs, D.holds_draft hs hc⟩
  holds_frame hf := hf
  cramped h := h

/-! ## Respecting a discipline -/

variable (D : Discipline)

structure Follows (s t : Store) : Prop where
  grows : s.Grows t
  head : t.scope.head = s.scope.head
  inv : D.Inv t

/-- What a fault leaves: the head from before, unless a call broke off for want of room. -/
structure Breaks (s t : Store) (e : Fault) : Prop where
  grows : s.Grows t
  head : t.scope.head = s.scope.head ∨
    D.Cramped ∧ e.LosesHead ∧ D.Holds t (.frame t.scope.head)
  emptied : ∀ stack, e = .emptyStack stack → D.Cramped
  inv : D.Inv t

/-- The store is as the discipline wants it, and names may be bound in the head. -/
structure Ready (s : Store) : Prop where
  inv : D.Inv s
  active : D.Active s s.scope.head

/-- What an end must be like for a computation that started from a store. -/
def Respects {α : Type} (s : Store) (o : Outcome α) (V : Store → α → Prop) : Prop :=
  o.Ends (fun a m => D.Follows s m.store ∧ V m.store a)
    (fun e m => D.Breaks s m.store e)

def HoldsValue (s : Store) (v : Ref) : Prop := D.Holds s (.object v)

def HoldsAll (s : Store) (vs : List Ref) : Prop := ∀ v ∈ vs, D.HoldsValue s v

variable {D}

theorem Follows.refl {s : Store} (hs : D.Inv s) : D.Follows s s := ⟨.refl s, rfl, hs⟩

theorem Follows.trans {s t u : Store} (hst : D.Follows s t) (htu : D.Follows t u) :
    D.Follows s u :=
  ⟨hst.grows.trans htu.grows, htu.head.trans hst.head, htu.inv⟩

theorem Follows.holds {s t : Store} {p : Place} (h : D.Follows s t) (hp : D.Holds s p) :
    D.Holds t p :=
  D.holds_mono h.grows hp

theorem holdsValue_mono {s t : Store} {v : Ref} (h : s.Grows t) (hv : D.HoldsValue s v) :
    D.HoldsValue t v :=
  D.holds_mono h hv

theorem Follows.holdsAll {s t : Store} {vs : List Ref} (h : D.Follows s t)
    (hvs : D.HoldsAll s vs) : D.HoldsAll t vs :=
  fun v hv => h.holds (hvs v hv)

theorem Follows.ready {s t : Store} (h : D.Follows s t) (hs : D.Ready s) : D.Ready t :=
  ⟨h.inv, h.head ▸ D.active_mono h.grows hs.active⟩

theorem Ready.holds_head {s : Store} (h : D.Ready s) : D.Holds s (.frame s.scope.head) :=
  D.holds_active h.inv h.active

theorem Follows.breaks {s t : Store} {e : Fault} (h : D.Follows s t)
    (he : ∀ stack, e ≠ .emptyStack stack) : D.Breaks s t e :=
  ⟨h.grows, .inl h.head, fun stack h => absurd h (he stack), h.inv⟩

theorem Follows.trans_breaks {s t u : Store} {e : Fault} (hst : D.Follows s t)
    (htu : D.Breaks t u e) : D.Breaks s u e :=
  ⟨hst.grows.trans htu.grows, htu.head.imp_left fun head => head.trans hst.head, htu.emptied, htu.inv⟩

/-- The head that a fault leaves is held, if the head from before was. -/
theorem Breaks.holds_head {s t : Store} {e : Fault} (h : D.Breaks s t e)
    (hs : D.Holds s (.frame s.scope.head)) : D.Holds t (.frame t.scope.head) :=
  h.head.elim (fun head => head ▸ D.holds_mono h.grows hs) fun lost => lost.2.2

theorem Breaks.ready {s t : Store} {e : Fault} (h : D.Breaks s t e) (hs : D.Ready s)
    (hactive : ∀ {f}, D.Holds t (.frame f) → D.Active t f) : D.Ready t :=
  ⟨h.inv, hactive (h.holds_head hs.holds_head)⟩

namespace Respects

variable {α β : Type} {s t : Store} {V : Store → α → Prop} {W : Store → β → Prop}

theorem of_follows {o : Outcome α} (hst : D.Follows s t) (h : D.Respects t o V) :
    D.Respects s o V :=
  h.imp (fun _ _ h => ⟨hst.trans h.1, h.2⟩) fun _ _ h => hst.trans_breaks h

/-- Each step starts from the store that the step before left. -/
theorem bind {x : Run α} {f : α → Run β} {m : Machine} (hx : D.Respects s (x m) V)
    (hf : ∀ a m', D.Follows s m'.store → V m'.store a → D.Respects m'.store (f a m') W) :
    D.Respects s ((x >>= f) m) W := by
  rw [Run.bind_apply]
  cases hxm : x m with
  | done a m' =>
    rw [hxm] at hx
    exact (hf a m' hx.1 hx.2).of_follows hx.1
  | failed e m' =>
    rw [hxm] at hx
    exact hx
  | exhausted => trivial

end Respects

/-! ## Ends -/

section Ends

variable {α : Type} {m : Machine} {V : Store → α → Prop}

theorem respects_done {a : α} (hm : D.Inv m.store) (ha : V m.store a) :
    D.Respects m.store (.done a m) V :=
  ⟨.refl hm, ha⟩

theorem respects_fail {e : Fault} (hm : D.Inv m.store) (he : ∀ stack, e ≠ .emptyStack stack) :
    D.Respects m.store (Run.fail e m : Outcome α) V :=
  (Follows.refl hm).breaks he

theorem respects_complain (c : Complaint) (hm : D.Inv m.store) :
    D.Respects m.store (Run.complain c m : Outcome α) V :=
  (Follows.refl hm).breaks fun _ => Fault.noConfusion

/-- A value that all programs share may be returned at any time. -/
theorem respects_shared {r : Ref} (hm : D.Inv m.store) (hr : Heap.IsShared r) :
    D.Respects m.store ((pure r : Run Ref) m) D.HoldsValue :=
  respects_done hm (D.holds_shared hm hr)

end Ends

/-! ## Bookkeeping

What is not in the store may change freely. -/

section Bookkeeping

variable {α : Type} {m : Machine} {V : Store → α → Prop}

theorem respects_change {f : Machine → Machine} (hf : (f m).store = m.store)
    (hm : D.Inv m.store) : D.Respects m.store (Run.change f m) fun _ _ => True :=
  ⟨by rw [hf]; exact .refl hm, trivial⟩

theorem respects_setPlace (place : Option Loc) (hm : D.Inv m.store) :
    D.Respects m.store (Run.setPlace place m) fun _ _ => True :=
  respects_change (f := fun m => { m with place }) rfl hm

theorem store_trace (line : Machine → String) (m : Machine) :
    ∃ m', Run.trace true line m = .done () m' ∧ m'.store = m.store := by
  refine ⟨_, rfl, ?_⟩
  dsimp only
  split <;> rfl

theorem respects_trace (fits : Bool) (line : Machine → String) (hm : D.Inv m.store) :
    D.Respects m.store (Run.trace fits line m) fun _ _ => True := by
  cases fits with
  | true =>
    obtain ⟨m', hrun, hstore⟩ := store_trace line m
    rw [hrun, ← hstore]
    exact respects_done (hstore ▸ hm) trivial
  | false => exact respects_fail hm fun _ => Fault.noConfusion

/-- Looking deep finds something or has no room, and changes nothing either way. -/
theorem respects_lookDeep {β : Type} {f : Heap → Option β} {k : β → Run α} (hm : D.Inv m.store)
    (hk : ∀ b, D.Respects m.store (k b m) V) : D.Respects m.store ((Run.lookDeep f >>= k) m) V := by
  rw [Run.lookDeep_bind]
  cases f m.heap with
  | some b => exact hk b
  | none => exact respects_fail hm fun _ => Fault.noConfusion

theorem respects_lookDeep_self {f : Heap → Option α} (hm : D.Inv m.store)
    (ha : ∀ a, V m.store a) : D.Respects m.store (Run.lookDeep f m) V := by
  rw [← bind_pure (Run.lookDeep f)]
  exact respects_lookDeep hm fun a => respects_done hm (ha a)

theorem respects_ensuring {s : Store} {x : Run α} {last : Run Unit}
    (hx : D.Respects s (x m) V)
    (hlast : ∀ m, ∃ m', last m = .done () m' ∧ m'.store = m.store) :
    D.Respects s (Run.ensuring x last m) V := by
  unfold Run.ensuring
  cases hxm : x m with
  | done a m₁ =>
    obtain ⟨m₂, hrun, hstore⟩ := hlast m₁
    rw [hxm] at hx
    simp only [hrun]
    exact ⟨hstore ▸ hx.1, hstore ▸ hx.2⟩
  | failed e m₁ =>
    obtain ⟨m₂, hrun, hstore⟩ := hlast m₁
    rw [hxm] at hx
    simp only [hrun]
    show D.Breaks s m₂.store e
    exact hstore ▸ hx
  | exhausted => trivial

theorem respects_entered {x : Run α}
    (hx : ∀ m', m'.store = m.store → D.Respects m'.store (x m') V) :
    D.Respects m.store (Run.entered x m) V := by
  let m₁ := { m with calls := if m.active = 0 then [] else m.calls, active := m.active + 1 }
  have hx : D.Respects m.store (x m₁) V := hx m₁ rfl
  exact respects_ensuring hx fun m => ⟨{ m with active := m.active - 1 }, rfl, rfl⟩

end Bookkeeping

/-! ## Frames -/

section Frames

variable {α : Type} {m : Machine} {V : Store → α → Prop}

theorem respects_newFrame {parent : FrameId} (name : String) (hm : D.Inv m.store)
    (hparent : D.Holds m.store (.frame parent)) :
    D.Respects m.store (Run.newFrame name parent m) D.Active := by
  obtain ⟨hinv, hactive⟩ := D.newFrame name hm hparent
  exact ⟨⟨m.store.grows_scope (m.scope.grows_newFrame name _), rfl, hinv⟩, hactive⟩

theorem respects_defineIn {f : FrameId} {v : Ref} (name : String) (hm : D.Inv m.store)
    (hf : D.Active m.store f) (hv : D.HoldsValue m.store v) :
    D.Respects m.store (Run.defineIn f name v m) fun _ _ => True :=
  ⟨⟨m.store.grows_scope (m.scope.grows_defineIn f name v), rfl, D.bind hm (.inl hf) hv⟩, trivial⟩

theorem respects_define {v : Ref} (name : String) (hm : D.Ready m.store)
    (hv : D.HoldsValue m.store v) :
    D.Respects m.store (Run.changeScope (·.define name v) m) fun _ _ => True :=
  respects_defineIn name hm.inv hm.active hv

theorem respects_assign {v : Ref} (name : String) (hm : D.Ready m.store)
    (hv : D.HoldsValue m.store v) :
    D.Respects m.store (Run.changeScope (·.assign name v) m) fun _ _ => True := by
  have hframe : D.Active m.store ((m.scope.owner? name).getD m.scope.head) ∨
      D.Holds m.store (.frame ((m.scope.owner? name).getD m.scope.head)) ∧
        m.scope.bindsIn ((m.scope.owner? name).getD m.scope.head) name = true := by
    -- a name that is visible nowhere goes into the head, any other to where it is visible
    cases howner : m.scope.owner? name with
    | none => exact .inl hm.active
    | some f =>
      have hf := (D.closed hm.inv).owner hm.holds_head (D.holds_globals hm.inv) howner
      exact .inr ⟨hf, Scope.bindsIn_of_owner? howner⟩
  exact ⟨⟨m.store.grows_scope (m.scope.grows_defineIn _ name v), rfl, D.bind hm.inv hframe hv⟩,
    trivial⟩

/-- Running in an active frame respects a discipline without any demand on the head. -/
theorem respects_inFrame {f : FrameId} {x : Run α} (hm : D.Inv m.store)
    (hf : D.Active m.store f) (hV : ∀ {s t a}, s.Grows t → V s a → V t a)
    (hx : ∀ m', D.Ready m'.store → m.store.Grows m'.store → m'.scope.head = f →
      D.Respects m'.store (x m') V) :
    D.Respects m.store (Run.inFrame f x m) V := by
  have hgrow (s : Store) (g : FrameId) : s.Grows { s with scope := s.scope.enter g } :=
    s.grows_scope (s.scope.grows_enter g)
  -- the saved head goes into whatever scope the computation inside has left
  have back (m' : Machine) (h : Store.Grows ⟨m.heap, m.scope.enter f⟩ m'.store) :
      m.store.Grows ⟨m'.heap, m'.scope.enter m.scope.head⟩ :=
    ((hgrow _ f).trans h).trans (hgrow _ _)
  have hx := hx { m with scope := m.scope.enter f }
    ⟨D.enter f hm, D.active_mono (hgrow _ f) hf⟩ (hgrow _ f) rfl
  show D.Respects m.store
    (Run.ensuring x (Run.changeScope (·.enter m.scope.head)) { m with scope := m.scope.enter f }) V
  unfold Run.ensuring
  cases hxm : x { m with scope := m.scope.enter f } with
  | done a m' =>
    rw [hxm] at hx
    exact ⟨⟨back m' hx.1.grows, rfl, D.enter _ hx.1.inv⟩, hV (hgrow _ _) hx.2⟩
  | failed e m' =>
    rw [hxm] at hx
    exact ⟨back m' hx.grows, .inl rfl, hx.emptied, D.enter _ hx.inv⟩
  | exhausted => trivial

/-- Closing a frame after a call has broken off goes on from the frame that it left, if there is
anything below that to go on to. -/
theorem breaks_popFrame {s : Store} {e : Fault} (hgrows : s.Grows m.store) (hm : D.Inv m.store)
    (hcramped : D.Cramped) (he : e.LosesHead) (hhead : D.Holds m.store (.frame m.scope.head)) :
    (Run.popFrame m).Ends (fun _ m' => D.Breaks s m'.store e) fun e' m' => D.Breaks s m'.store e' := by
  unfold Run.popFrame
  cases hpop : m.scope.pop with
  | ok scope =>
    obtain ⟨p, hparent, rfl⟩ := Scope.parent_of_pop hpop
    have hp : D.Holds m.store (.frame p) := (D.closed hm).parent hhead hparent
    have hentered : m.store.Grows { m.store with scope := m.scope.enter p } :=
      m.store.grows_scope (m.scope.grows_enter p)
    exact ⟨hgrows.trans hentered, .inr ⟨hcramped, he, D.holds_mono hentered hp⟩,
      fun _ _ => hcramped, D.enter p hm⟩
  | error e' => exact ⟨hgrows, .inr ⟨hcramped, .inr ⟨e', rfl⟩, hhead⟩, fun _ _ => hcramped, hm⟩

/-- A new frame below the head can be closed again wherever the computation inside gives it back as
the head: it has kept its parent. -/
theorem respects_inNewFrame {x : Run α} (name : String) (hm : D.Inv m.store)
    (hhead : D.Holds m.store (.frame m.scope.head)) (hV : ∀ {s t a}, s.Grows t → V s a → V t a)
    (hx : ∀ m', D.Ready m'.store → m.store.Grows m'.store → D.Respects m'.store (x m') V) :
    D.Respects m.store (Run.inNewFrame name x m) V := by
  have hpush : m.store.Grows ⟨m.heap, m.scope.push name⟩ :=
    (m.store.grows_scope (m.scope.grows_newFrame name _)).trans
      (Store.grows_scope _ (Scope.grows_enter _ _))
  obtain ⟨hinv, hactive⟩ := D.newFrame name hm hhead
  have hx := hx { m with scope := m.scope.push name }
    ⟨D.enter _ hinv, D.active_mono (Store.grows_scope _ (Scope.grows_enter _ _)) hactive⟩ hpush
  have closes (m' : Machine) (hgrows : Store.Grows ⟨m.heap, m.scope.push name⟩ m'.store)
      (hinv : D.Inv m'.store) (hhead : m'.scope.head = (m.scope.push name).head) :
      Run.popFrame m' = .done () { m' with scope := m'.scope.enter m.scope.head } ∧
        D.Follows m.store ⟨m'.heap, m'.scope.enter m.scope.head⟩ := by
    refine ⟨?_, (hpush.trans hgrows).trans (Store.grows_scope _ (Scope.grows_enter _ _)), rfl,
      D.enter _ hinv⟩
    have hpop : m'.scope.pop = .ok (m'.scope.enter m.scope.head) :=
      Scope.pop_of_grows_push hgrows.scope hhead
    unfold Run.popFrame
    rw [hpop]
  show D.Respects m.store (Run.ensuring x Run.popFrame { m with scope := m.scope.push name }) V
  unfold Run.ensuring
  cases hxm : x { m with scope := m.scope.push name } with
  | done a m' =>
    rw [hxm] at hx
    obtain ⟨hpop, hfollows⟩ := closes m' hx.1.grows hx.1.inv hx.1.head
    simp only [hpop]
    exact ⟨hfollows, hV (Store.grows_scope _ (Scope.grows_enter _ _)) hx.2⟩
  | failed e m' =>
    rw [hxm] at hx
    rcases hx.head with hhead | ⟨hcramped, he, hhead⟩
    · obtain ⟨hpop, hfollows⟩ := closes m' hx.grows hx.inv hhead
      simp only [hpop]
      exact ⟨hfollows.grows, .inl hfollows.head, hx.emptied, hfollows.inv⟩
    · have hpop := breaks_popFrame (hpush.trans hx.grows) hx.inv hcramped he hhead
      dsimp only
      generalize Run.popFrame m' = popped at hpop ⊢
      cases popped with
      | done _ m'' => exact hpop
      | failed e' m'' => exact hpop
      | exhausted => trivial
  | exhausted => trivial

end Frames

/-! ## Objects -/

section Objects

variable {s : Store} {m : Machine}

variable (D) in
/-- What a value made on the heap, and the heap with it, must be like. -/
structure Makes (s : Store) (made : Ref × Heap) : Prop where
  follows : D.Follows s { s with heap := made.2 }
  holds : D.HoldsValue { s with heap := made.2 } made.1

theorem Makes.of_follows {h : Heap} {made : Ref × Heap} (hs : D.Follows s { s with heap := h })
    (hmade : D.Makes { s with heap := h } made) : D.Makes s made :=
  ⟨hs.trans hmade.follows, hmade.holds⟩

/-- A value that is there already need not be made. -/
theorem makes_held {r : Ref} (hs : D.Inv s) (hr : D.HoldsValue s r) : D.Makes s (r, s.heap) :=
  ⟨.refl hs, hr⟩

theorem makes_add {o : Object} (hs : D.Inv s) (hmade : s.heap.Produces o)
    (ho : ∀ p ∈ o.places, D.Holds s p) : D.Makes s (s.heap.add o) := by
  obtain ⟨hinv, hnew⟩ := D.add hs hmade ho
  exact ⟨⟨s.grows_heap (by simp), rfl, hinv⟩, hnew⟩

theorem makes_alloc {p : Payload} (hs : D.Inv s) (hmade : s.heap.Produces { payload := p })
    (hp : ∀ q ∈ p.places, D.Holds s q) : D.Makes s (s.heap.alloc p) :=
  makes_add hs hmade fun q hq =>
    hp q (by simpa [Object.places, Bindings.values, Bindings.empty] using hq)

/-- A new instance refers to its class and to the defaults of its fields. -/
theorem makes_allocInstance {cls : Ref} (hs : D.Inv s) (hclass : (s.heap.class? cls).isSome = true)
    (hcls : D.HoldsValue s cls) : D.Makes s (s.heap.allocInstance cls) := by
  apply makes_add hs (.instance hclass)
  intro p hp
  rcases List.mem_append.mp hp with hp | hp
  · exact List.mem_singleton.mp hp ▸ hcls
  · obtain ⟨v, hv, rfl⟩ := List.mem_map.mp hp
    exact (D.closed hs).startingFields hcls hv

theorem respects_make {f : Heap → Ref × Heap} (hf : D.Makes m.store (f m.heap)) :
    D.Respects m.store (Run.make f m) D.HoldsValue :=
  ⟨hf.follows, hf.holds⟩

theorem respects_alloc {p : Payload} (hm : D.Inv m.store)
    (hmade : m.heap.Produces { payload := p }) (hp : ∀ q ∈ p.places, D.Holds m.store q) :
    D.Respects m.store (Run.alloc p m) D.HoldsValue :=
  respects_make (makes_alloc hm hmade hp)

theorem respects_allocNumber (x : Float) (hm : D.Inv m.store) :
    D.Respects m.store (Run.allocNumber x m) D.HoldsValue :=
  respects_alloc hm (.number x) fun _ hq => nomatch hq

theorem respects_allocString (text : String) (hm : D.Inv m.store) :
    D.Respects m.store (Run.alloc (.string text) m) D.HoldsValue :=
  respects_alloc hm (.string text) fun _ hq => nomatch hq

theorem respects_allocList {items : List Ref} (hm : D.Inv m.store)
    (hitems : D.HoldsAll m.store items) :
    D.Respects m.store (Run.alloc (.list items) m) D.HoldsValue := by
  apply respects_alloc hm (.list items)
  intro q hq
  obtain ⟨v, hv, rfl⟩ := List.mem_map.mp hq
  exact hitems v hv

theorem holdsAll_of_payload {r : Ref} {items : List Ref} (hs : D.Inv s) (hr : D.HoldsValue s r)
    (hp : s.heap.payload r = .list items) : D.HoldsAll s items := by
  intro v hv
  apply (D.closed hs).payload hr
  rw [hp]
  exact List.mem_map_of_mem hv

theorem respects_setMember {r v : Ref} (name : String) (hm : D.Inv m.store)
    (hr : D.HoldsValue m.store r) (hv : D.HoldsValue m.store v) :
    D.Respects m.store (Run.changeHeap (·.setMember r name v) m) fun _ _ => True := by
  have wrote (r : Ref) (hr : D.HoldsValue m.store r) :
      D.Follows m.store ⟨m.heap.setField r name v, m.scope⟩ :=
    ⟨m.store.grows_heap (by simp [Machine.store]), rfl, D.setField name hm hr hv⟩
  refine ⟨?_, trivial⟩
  show D.Follows m.store ⟨m.heap.setMember r name v, m.scope⟩
  unfold Heap.setMember
  split
  · next inst start hp =>
    exact wrote inst ((D.closed hm).payload hr (by simp [Machine.store, hp, Payload.places]))
  · exact wrote r hr

end Objects

/-! ## Members -/

section Members

variable {s : Store} {m : Machine}

variable (D) in
def HoldsFunction (s : Store) (fn : Function) : Prop := ∀ p ∈ fn.places, D.Holds s p

namespace HoldsFunction

variable {fn : Function} (hfn : D.HoldsFunction s fn)

include hfn

theorem captured {f : FrameId} (hf : fn.captured = some f) : D.Holds s (.frame f) :=
  hfn _ (by simp [Function.places, hf])

theorem self {v : Ref} (hv : fn.self = some v) : D.HoldsValue s v :=
  hfn _ (by simp [Function.places, hv])

theorem super {v : Ref} (hv : fn.super = some v) : D.HoldsValue s v :=
  hfn _ (by simp [Function.places, hv])

end HoldsFunction

theorem holdsFunction_of_payload {r : Ref} {fn : Function} (hs : D.Inv s)
    (hr : D.HoldsValue s r) (hp : s.heap.payload r = .function fn) : D.HoldsFunction s fn :=
  fun _ hq => (D.closed hs).payload hr (by rwa [hp])

theorem holdsFunction_of_mem {r : Ref} {name : String} {fns : List Function} {fn : Function}
    (hs : D.Inv s) (hr : D.HoldsValue s r) (hp : s.heap.payload r = .overloads name fns)
    (hfn : fn ∈ fns) : D.HoldsFunction s fn := by
  intro q hq
  apply (D.closed hs).payload hr
  rw [hp]
  exact List.mem_flatMap.mpr ⟨fn, hfn, hq⟩

theorem Follows.holdsFunction {t : Store} {fn : Function} (h : D.Follows s t)
    (hfn : D.HoldsFunction s fn) : D.HoldsFunction t fn :=
  fun p hp => h.holds (hfn p hp)

/-- Changing the functions of a value makes a new value, if it has any that can be changed. -/
theorem makes_rebind {callee : Ref} {f : Function → Function} (hs : D.Inv s)
    (hcallee : D.HoldsValue s callee) (hbindable : s.heap.isBindable callee = true)
    (hmade : s.heap.Produces { payload := (s.heap.payload callee).mapFunctions f })
    (hf : ∀ fn, D.HoldsFunction s fn → D.HoldsFunction s (f fn)) :
    D.Makes s (s.heap.rebind callee f) := by
  rw [Heap.rebind_of_isBindable hbindable]
  apply makes_alloc hs hmade
  intro q hq
  cases hp : s.heap.payload callee with
  | function fn =>
    rw [hp] at hq
    exact hf fn (holdsFunction_of_payload hs hcallee hp) q hq
  | overloads name fns =>
    rw [hp] at hq
    obtain ⟨g, hg, hq⟩ := List.mem_flatMap.mp hq
    obtain ⟨fn, hfn, rfl⟩ := List.mem_map.mp hg
    exact hf fn (holdsFunction_of_mem hs hcallee hp hfn) q hq
  | _ =>
    rw [Heap.isBindable, hp] at hbindable
    cases hbindable

theorem holdsFunction_bindSelf {fn : Function} {v : Ref} (hfn : D.HoldsFunction s fn)
    (hv : D.HoldsValue s v) : D.HoldsFunction s (fn.bindSelf v) := by
  intro p hp
  simp only [Function.places, Function.bindSelf, Option.map_some, Option.toList_some,
    List.mem_append, List.mem_singleton] at hp
  rcases hp with (hp | rfl) | hp
  · exact hfn p (by simp [Function.places, hp])
  · exact hv
  · exact hfn p (by simp [Function.places, hp])

theorem holdsFunction_bindSuper {fn : Function} {v : Ref} (hfn : D.HoldsFunction s fn)
    (hv : D.HoldsValue s v) : D.HoldsFunction s (fn.bindSuper v) := by
  intro p hp
  simp only [Function.places, Function.bindSuper, Option.map_some, Option.toList_some,
    List.mem_append, List.mem_singleton] at hp
  rcases hp with (hp | hp) | rfl
  · exact hfn p (by simp [Function.places, hp])
  · exact hfn p (by simp [Function.places, hp])
  · exact hv

theorem makes_bindMethod {method inst owner : Ref} (hs : D.Inv s)
    (hmethod : D.HoldsValue s method) (hinst : D.HoldsValue s inst)
    (howner : D.HoldsValue s owner) (hoffers : s.heap.Offers inst owner method) :
    D.Makes s (s.heap.bindMethod method inst owner) := by
  unfold Heap.bindMethod
  split
  · next hbindable =>
    split
    · next above habove =>
      have hview : D.Makes s (s.heap.alloc (.superView inst above)) := by
        apply makes_alloc hs (.view hoffers habove)
        intro q hq
        simp only [Payload.places, List.mem_cons, List.not_mem_nil, or_false] at hq
        rcases hq with rfl | rfl
        · exact hinst
        · exact (D.closed hs).superclass howner habove
      have hplain : ∀ info, Payload.superView inst above ≠ .classObject info :=
        fun _ => Payload.noConfusion
      -- the view changes neither the method nor the classes
      have hmethod₁ : (s.heap.alloc (.superView inst above)).2.payload method =
          s.heap.payload method := by
        refine s.heap.payload_add_of_ne_null _ ?_
        intro hnull
        rw [Heap.isBindable, hnull] at hbindable
        cases hbindable
      have hinst₁ := hview.follows.holds hinst
      apply Makes.of_follows hview.follows
      have hbindable₁ : (s.heap.alloc (.superView inst above)).2.isBindable method = true := by
        rw [Heap.isBindable, hmethod₁]
        exact hbindable
      refine makes_rebind hview.follows.inv (hview.follows.holds hmethod) hbindable₁ ?_ ?_
      · refine .code (.bound (hoffers.add_of_plain hplain) ?_ (s.heap.payload_alloc_self _) hbindable₁)
        rw [show (s.heap.alloc (.superView inst above)).2.class? owner = s.heap.class? owner from
          Heap.class?_add_of_plain hplain owner]
        exact habove
      · intro fn hfn
        exact holdsFunction_bindSuper (holdsFunction_bindSelf hfn hinst₁) hview.holds
    · next hroot =>
      have hbound := Heap.Produces.code (.boundToSelf hoffers hroot hbindable)
      exact makes_rebind hs hmethod hbindable hbound fun fn hfn =>
        holdsFunction_bindSelf hfn hinst
  · exact makes_held hs hmethod

end Members

end Discipline

end TreeScript
