import Mathlib
import TreeScript.Proofs.BoundMethods
import TreeScript.Proofs.LastingValues

/-!
# Calls of super

While a method runs, `super` is a view of its instance from above the class that
the method belongs to. A method that is read from it belongs to the next class
above that one which has a method of the name, and is bound to the same instance.
So methods that call each other through `super` belong to classes further and
further up the ancestry of the instance's class: they pass through the classes
that define the name in order, each once, and there are no more of them than
there are classes.
-/

namespace TreeScript

namespace Heap

variable {h : Heap}

/-! ## Owners of a method -/

/-- The classes of an ancestry that define a method, nearest first. -/
def owners (h : Heap) (c : Ref) (name : String) : List Ref :=
  (h.ancestry c).filter fun d => (h.methodOf? d name).isSome

/-- The classes strictly above a class that define a method, nearest first. -/
def ownersAbove (h : Heap) (c : Ref) (name : String) : List Ref :=
  (h.ancestry c).tail.filter fun d => (h.methodOf? d name).isSome

theorem findMethod?_eq (c : Ref) (name : String) :
    h.findMethod? c name =
      (h.owners c name).head?.bind fun d => (h.methodOf? d name).map fun method => (d, method) := by
  unfold findMethod? owners
  induction h.ancestry c with
  | nil => rfl
  | cons d rest ih =>
    rw [List.findSome?_cons, List.filter_cons]
    cases hd : h.methodOf? d name with
    | none => simpa using ih
    | some method => simp [hd]

theorem owners_eq (c : Ref) (name : String) :
    h.owners c name =
      if (h.methodOf? c name).isSome then c :: h.ownersAbove c name else h.ownersAbove c name := by
  unfold owners ownersAbove
  rw [ancestry_eq, List.filter_cons]
  rfl

theorem methodOf?_of_mem_ownersAbove {c d : Ref} {name : String} (hd : d ∈ h.ownersAbove c name) :
    ∃ method, h.methodOf? d name = some method :=
  Option.isSome_iff_exists.mp (List.mem_filter.mp hd).2

theorem mem_ancestry_of_mem_ownersAbove {c d : Ref} {name : String}
    (hd : d ∈ h.ownersAbove c name) : d ∈ h.ancestry c :=
  List.mem_of_mem_tail (List.mem_filter.mp hd).1

theorem cons_ownersAbove_sublist (c : Ref) (name : String) :
    (c :: h.ownersAbove c name).Sublist (h.ancestry c) := by
  rw [ownersAbove, h.ancestry_eq c]
  exact List.filter_sublist.cons_cons c

namespace Classed

variable (hh : h.Classed)

include hh

theorem ownersAbove_of_superclass {c p : Ref} (hp : (h.class? c).bind (·.superclass) = some p)
    (name : String) : h.ownersAbove c name = h.owners p name := by
  rw [ownersAbove, hh.ancestry_of_superclass hp]
  rfl

/-- Above the first of the owners stand the others. -/
theorem owners_eq_cons {c owner : Ref} {name : String}
    (hfirst : (h.owners c name).head? = some owner) :
    h.owners c name = owner :: h.ownersAbove owner name := by
  -- the first owner is the class itself, or else the first one from its superclass on
  induction c using hh.descent_induction with
  | root c hroot =>
    rw [owners_eq] at hfirst ⊢
    split at hfirst
    · next hc =>
      cases hfirst
      rw [if_pos hc]
    · rw [ownersAbove, ancestry_of_root hroot] at hfirst
      cases hfirst
  | below c p hp ih =>
    rw [owners_eq] at hfirst ⊢
    split at hfirst
    · next hc =>
      cases hfirst
      rw [if_pos hc]
    · next hc =>
      rw [if_neg hc]
      rw [hh.ownersAbove_of_superclass hp] at hfirst ⊢
      exact ih hfirst

theorem ownersAbove_eq_cons {c owner : Ref} {name : String}
    (hfirst : (h.ownersAbove c name).head? = some owner) :
    h.ownersAbove c name = owner :: h.ownersAbove owner name := by
  cases hp : (h.class? c).bind (·.superclass) with
  | some p =>
    rw [hh.ownersAbove_of_superclass hp] at hfirst ⊢
    exact hh.owners_eq_cons hfirst
  | none =>
    rw [ownersAbove, ancestry_of_root hp] at hfirst
    cases hfirst

end Classed

end Heap

/-! ## Reading from super -/

/-- In the second heap a value is the method that a class has in the first, bound to an instance and
to a view of the instance from above the class. -/
structure Heap.GivesMethod (h k : Heap) (o owner : Ref) (name : String) (v : Ref) : Prop where
  bound : ∃ method view, h.methodOf? owner name = some method ∧
    k.payload v = (h.payload method).mapFunctions (fun fn => (fn.bindSelf o).bindSuper view) ∧
    k.Shows view o owner

/-- A method of a class runs on a value, or code that sees the same `super`. -/
def Machine.RunsMethod (m : Machine) (o K : Ref) : Prop :=
  ∃ view, m.scope.lookup? "super" = some view ∧ m.heap.Shows view o K

namespace Run

variable {m : Machine}

/-- The body of a function that is bound is evaluated with its frame as the head, and with `self` and
`super` bound there last; then the frame is left, which cannot fail. Without room for the line of the
trace the body is not evaluated. -/
theorem invoke_of_bound {fn : Function} {o view : Ref} (hself : fn.self = some o)
    (hsuper : fn.super = some view) (frame : FrameId) (m : Machine) :
    ∃ m' last, m'.store =
        ⟨m.heap, ((m.scope.enter frame).define "self" o).define "super" view⟩ ∧
      (∀ m₁, ∃ m₂, last m₁ = .done () m₂ ∧ m₂.store = ⟨m₁.heap, m₁.scope.enter m.scope.head⟩) ∧
      ∀ evaluate : Evaluator, invoke evaluate fn frame m =
        if evaluate.room.entry then ensuring (fun _ => evaluate fn.body m') last m
        else .failed .nestingTooDeep { m with scope := m.scope.enter frame } := by
  -- lines of the trace are written at both ends, which moves neither heap nor scope
  let name := (m.scope.frame frame).name
  let pushed : Machine → String := fun _ => pushLine name fn.params.length
  let popped : Machine → String := fun _ => popLine name
  obtain ⟨m₁, hrun, hstore⟩ := Discipline.store_trace pushed { m with scope := m.scope.enter frame }
  let m' := { m₁ with scope := (m₁.scope.defineIn frame "self" o).defineIn frame "super" view }
  let last : Run Unit := do
    changeScope (·.enter m.scope.head)
    trace true popped
  refine ⟨m', last, ?_, ?_, ?_⟩
  · obtain ⟨hheap, hscope⟩ := Store.mk.inj hstore
    show Store.mk m₁.heap ((m₁.scope.defineIn frame "self" o).defineIn frame "super" view) = _
    rw [hheap, hscope]
    rfl
  · intro m₂
    obtain ⟨m₃, hrun, hstore⟩ :=
      Discipline.store_trace popped { m₂ with scope := m₂.scope.enter m.scope.head }
    exact ⟨m₃, hrun, hstore⟩
  · intro evaluate
    cases hentry : evaluate.room.entry with
    | false =>
      rw [invoke_of_cramped hentry]
      rfl
    | true =>
      let body : Run Ref := do
        trace true pushed
        defineSome frame "self" fn.self
        defineSome frame "super" fn.super
        evaluate fn.body
      have hbody : body { m with scope := m.scope.enter frame } = evaluate fn.body m' := by
        show (trace true pushed >>= _) _ = _
        rw [bind_done hrun, hself, hsuper]
        rfl
      have hframe : inFrame frame body m =
          ensuring (fun _ => evaluate fn.body m') (changeScope (·.enter m.scope.head)) m := by
        show ensuring body (changeScope (·.enter m.scope.head))
          { m with scope := m.scope.enter frame } = _
        unfold ensuring
        rw [hbody]
      rw [invoke_of_fits hentry, if_pos rfl]
      show ensuring (inFrame frame body) (trace true popped) m = ensuring _ last m
      unfold ensuring
      rw [hframe]
      unfold ensuring
      cases evaluate fn.body m' <;> rfl

/-! ## Reading members by name -/

section Members

variable {x name : String} {r : Ref} (limits : Limits) (nesting : Nat) (loc loc' : Option Loc)

theorem evaluateAt_name (hx : m.scope.lookup? x = some r) :
    evaluateAt limits (nesting + 1) (.name loc x) m =
      .done r { m with place := loc, calls := if m.active = 0 then [] else m.calls } := by
  have hlookup (m₁ : Machine) (hm₁ : m₁.scope = m.scope) : lookup x m₁ = .done r m₁ := by
    unfold lookup
    rw [lookScope_bind, hm₁, hx]
    rfl
  let m₁ : Machine :=
    { m with place := loc, calls := if m.active = 0 then [] else m.calls, active := m.active + 1 }
  show ensuring (lookup x) (change fun m => { m with active := m.active - 1 }) m₁ = _
  unfold ensuring
  rw [hlookup m₁ rfl]
  rfl

theorem evaluateAt_member_name (hx : m.scope.lookup? x = some r) :
    evaluateAt limits (nesting + 2) (.member loc (.name loc' x) name) m =
      ensuring (readMember (evaluateAt limits (nesting + 1)).room r name)
        (change fun m => { m with active := m.active - 1 })
        { m with
          place := loc', calls := if m.active = 0 then [] else m.calls, active := m.active + 1 } := by
  let m₁ : Machine :=
    { m with place := loc, calls := if m.active = 0 then [] else m.calls, active := m.active + 1 }
  have hname : evaluateAt limits (nesting + 1) (.name loc' x) m₁ = .done r { m₁ with place := loc' } :=
    (evaluateAt_name (m := m₁) limits nesting loc' hx).trans (by simp [m₁])
  let read : Run Ref := do
    let r ← evaluateAt limits (nesting + 1) (.name loc' x)
    readMember (evaluateAt limits (nesting + 1)).room r name
  have hread : read m₁ = readMember _ r name { m₁ with place := loc' } := bind_done hname _
  show ensuring read (change fun m => { m with active := m.active - 1 }) m₁ = _
  unfold ensuring
  rw [hread]

theorem evaluateAt_member_some (hx : m.scope.lookup? x = some r) {v : Ref} {heap : Heap}
    (hmember : m.heap.member? r name = some (v, heap)) :
    ∃ m', evaluateAt limits (nesting + 2) (.member loc (.name loc' x) name) m = .done v m' ∧
      m'.store = ⟨heap, m.scope⟩ := by
  rw [evaluateAt_member_name limits nesting loc loc' hx]
  unfold ensuring readMember
  rw [hmember]
  exact ⟨_, rfl, rfl⟩

theorem evaluateAt_member_none (hx : m.scope.lookup? x = some r)
    (hmember : m.heap.member? r name = none) (hr : ∀ items, m.heap.payload r ≠ .list items) :
    ∃ trace m', evaluateAt limits (nesting + 2) (.member loc (.name loc' x) name) m =
      .failed (.complaint (.unboundMember name (m.heap.display r)) trace) m' := by
  rw [evaluateAt_member_name limits nesting loc loc' hx]
  unfold ensuring readMember display
  dsimp only
  rw [hmember]
  dsimp only
  rw [lookDeep_bind, Heap.display?_of_not_list hr]
  exact ⟨_, _, rfl⟩

/-- A member of what a name is bound to is two levels of evaluation. -/
theorem two_le_of_evaluateAt_member {v : Ref} {m' : Machine}
    (hread : evaluateAt limits nesting (.member loc (.name loc' x) name) m = .done v m') :
    ∃ n, nesting = n + 2 := by
  match nesting, hread with
  | n + 2, _ => exact ⟨n, rfl⟩

end Members

end Run

namespace Heap

variable {h : Heap}

/-- Binding a method makes the view first and then the bound function, and nothing else. -/
theorem bindMethod_of_superclass {method inst owner above : Ref}
    (hmethod : h.isBindable method = true)
    (habove : (h.class? owner).bind (·.superclass) = some above) :
    h.bindMethod method inst owner = (h.alloc (.superView inst above)).2.alloc
      ((h.payload method).mapFunctions fun fn => (fn.bindSelf inst).bindSuper h.objects.size) := by
  have hsame : (h.alloc (.superView inst above)).2.payload method = h.payload method := by
    refine h.payload_add_of_ne_null _ ?_
    intro hnull
    rw [isBindable, hnull] at hmethod
    cases hmethod
  have hbindable : (h.alloc (.superView inst above)).2.isBindable method = true := by
    rw [isBindable, hsame]
    exact hmethod
  unfold bindMethod
  rw [if_pos hmethod, habove]
  show (h.alloc (.superView inst above)).2.rebind method _ = _
  rw [rebind_of_isBindable hbindable, hsame]

end Heap

namespace Store

open Heap

variable {cs : List Ref} {s : Store}

theorem Arises.givesMethod_bindMethod (hs : s.Arises cs) {o owner method above : Ref} {name : String}
    (ho : s.Free cs (.object o)) (howner : owner ∈ s.heap.ancestry (s.heap.classOf o))
    (hmethod : s.heap.methodOf? owner name = some method)
    (habove : (s.heap.class? owner).bind (·.superclass) = some above) :
    s.heap.GivesMethod (s.heap.bindMethod method o owner).2 o owner name
      (s.heap.bindMethod method o owner).1 := by
  have hcode := (hs.methodsUnbound owner name method hmethod).1
  rw [bindMethod_of_superclass (isBindable_iff_isCode.mpr hcode) habove]
  -- the view takes the next place, and the bound function the place after it
  let viewed := (s.heap.alloc (.superView o above)).2
  let p := (s.heap.payload method).mapFunctions fun fn =>
    (fn.bindSelf o).bindSuper s.heap.objects.size
  have hsize : s.heap.objects.size < viewed.objects.size := by simp [viewed, Heap.alloc]
  have hkeep (r : Ref) (hr : s.Free cs (.object r)) : (viewed.alloc p).2.payload r = s.heap.payload r :=
    (viewed.payload_alloc_of_lt p (Nat.lt_trans hr.1 hsize)).trans
      (s.heap.payload_alloc_of_lt _ hr.1)
  obtain ⟨hmem, hclass, -⟩ := hs.defines.mem_ancestry hkeep ho howner
  refine ⟨method, s.heap.objects.size, hmethod, viewed.payload_alloc_self p, ⟨above, ?_, ?_⟩, hmem⟩
  · exact (viewed.payload_alloc_of_lt p hsize).trans (s.heap.payload_alloc_self _)
  · rw [hclass]
    exact habove

/-- Reading a member from a view gives the method of the next class above, if it is no field of the
instance, and fails if there is none. -/
theorem Arises.member?_of_shows (hs : s.Arises cs) {view o K : Ref} {name : String}
    (hview : s.Free cs (.object view)) (hshows : s.heap.Shows view o K)
    (hfield : (s.heap.fields o).get? name = none) :
    (∀ owner, (s.heap.ownersAbove K name).head? = some owner → ∃ v heap,
      s.heap.member? view name = some (v, heap) ∧ s.heap.GivesMethod heap o owner name v ∧
        Arises cs { s with heap }) ∧
    (s.heap.ownersAbove K name = [] → s.heap.member? view name = none) := by
  obtain ⟨⟨start, hpayload, hstart⟩, hK⟩ := hshows
  have hmember : s.heap.member? view name =
      (s.heap.findMethod? start name).map fun found => s.heap.bindMethod found.2 o found.1 := by
    rw [member?, hpayload]
    show s.heap.fieldOrMethod? o start name = _
    rw [fieldOrMethod?, hfield]
  -- a view searches from the superclass on, where the owners above the class are
  have howners := hs.classed.ownersAbove_of_superclass hstart name
  refine ⟨?_, ?_⟩
  · intro owner howner
    have hmem := List.mem_of_head? howner
    obtain ⟨method, hmethod⟩ := methodOf?_of_mem_ownersAbove hmem
    have hfind : s.heap.findMethod? start name = some (owner, method) := by
      rw [findMethod?_eq, ← howners, howner]
      simp [hmethod]
    rw [hfind] at hmember
    have hup : owner ∈ s.heap.ancestry (s.heap.classOf o) :=
      (s.heap.ancestry_suffix hK).subset (mem_ancestry_of_mem_ownersAbove hmem)
    obtain ⟨above, habove⟩ := Option.ne_none_iff_exists'.mp
      (hs.superclass_of_offers ⟨start, name, .view hpayload, hfind⟩)
    have ho := hs.defines.free_of_view hpayload
    refine ⟨_, _, hmember, hs.givesMethod_bindMethod ho hup hmethod habove, ?_⟩
    exact (Discipline.makes_member (D := Discipline.arising.stage cs) hs hview hmember).follows.inv
  · intro hnone
    rw [hmember, findMethod?_eq, ← howners, hnone]
    rfl

end Store

/-- The classes above a class that is there define what they defined before. -/
theorem Store.KeepsValues.ownersAbove {s t : Store} (hst : s.KeepsValues t) (hs : s.Intact) {c : Ref}
    (hc : s.Has (.object c)) (name : String) :
    t.heap.ownersAbove c name = s.heap.ownersAbove c name := by
  have hclass {d : Ref} (hd : d ∈ s.heap.ancestry c) : t.heap.class? d = s.heap.class? d := by
    rw [Heap.class?, hst.payload d (hs.closed.ancestry hc hd)]
    rfl
  unfold Heap.ownersAbove
  rw [Heap.ancestry_congr fun _ hd => hclass hd]
  refine List.filter_congr fun d hd => ?_
  rw [Heap.methodOf?, Heap.methodOf?, hclass (List.mem_of_mem_tail hd)]

namespace Machine

open Heap Store

variable {cs : List Ref} {m m' : Machine} {o K owner : Ref} {name : String}

/-- What `super` gives is a view that programs may hold. -/
theorem free_super (hm : m.Arises cs) {view : Ref} (hview : m.scope.lookup? "super" = some view) :
    m.store.Free cs (.object view) :=
  hm.inv.defines.closed.lookup hm.holds_head (free_frame m.scope.globals_lt) hview

section Reading

variable (hm : m.Arises cs) (hK : m.RunsMethod o K) (hfield : (m.heap.fields o).get? name = none)
  (limits : Limits) (nesting : Nat) (loc loc' : Option Loc)

include hm hK hfield

/-- Reading a member from `super` gives the method of the next class above. -/
theorem read_super (howner : (m.heap.ownersAbove K name).head? = some owner) :
    ∃ v m', Run.evaluateAt limits (nesting + 2) (.member loc (.name loc' "super") name) m =
      .done v m' ∧ m.heap.GivesMethod m'.heap o owner name v ∧ m'.Arises cs := by
  obtain ⟨view, hlookup, hshows⟩ := hK
  obtain ⟨v, heap, hmember, hgives, harises⟩ :=
    (hm.inv.member?_of_shows (free_super hm hlookup) hshows hfield).1 owner howner
  obtain ⟨m', hrun, hstore⟩ :=
    Run.evaluateAt_member_some limits nesting loc loc' hlookup hmember
  have hheap : m'.heap = heap := congrArg Store.heap hstore
  refine ⟨v, m', hrun, hheap ▸ hgives, ?_⟩
  rw [Machine.Arises, hstore]
  exact ⟨harises, hm.active⟩

theorem read_super_of_none (hnone : m.heap.ownersAbove K name = []) :
    ∃ view trace m', m.scope.lookup? "super" = some view ∧
      Run.evaluateAt limits (nesting + 2) (.member loc (.name loc' "super") name) m =
        .failed (.complaint (.unboundMember name (m.heap.display view)) trace) m' := by
  obtain ⟨view, hlookup, hshows⟩ := hK
  have hmember :=
    (hm.inv.member?_of_shows (free_super hm hlookup) hshows hfield).2 hnone
  obtain ⟨_, hpayload, -⟩ := hshows.above
  obtain ⟨trace, m', hrun⟩ :=
    Run.evaluateAt_member_none limits nesting loc loc' hlookup hmember (hpayload ▸ nofun)
  exact ⟨view, trace, m', hlookup, hrun⟩

end Reading

/-- The method that runs in a machine reads a member of `super`, and a function of what that gave runs
later in another machine, or code that sees the same `super`: until then values last. -/
inductive CallsSuper (name : String) (m m' : Machine) : Prop
  | run {limits : Limits} {nesting : Nat} {loc loc' : Option Loc} {v : Ref} {m₁ : Machine}
    {fn : Function}
    (hread : Run.evaluateAt limits nesting (.member loc (.name loc' "super") name) m = .done v m₁)
    (hfn : fn ∈ (m₁.heap.payload v).functions) (hlater : m₁.store.KeepsValues m'.store)
    (hsuper : m'.scope.lookup? "super" = fn.super) : CallsSuper name m m'

/-- The class of the method that is called through `super` is the next owner above, and above it are
the owners that are left. -/
theorem CallsSuper.runsMethod (hcalls : m.CallsSuper name m') (hm : m.Arises cs)
    (hK : m.RunsMethod o K) (hfield : (m.heap.fields o).get? name = none) :
    ∃ owner, m.heap.ownersAbove K name = owner :: m'.heap.ownersAbove owner name ∧
      m'.RunsMethod o owner := by
  obtain @⟨limits, nesting, loc, loc', v, m₁, fn, hread, hfn, hlater, hsuper⟩ := hcalls
  obtain ⟨nesting, rfl⟩ := Run.two_le_of_evaluateAt_member limits nesting loc loc' hread
  cases howners : m.heap.ownersAbove K name with
  | nil =>
    -- the member could not have been read
    obtain ⟨_, _, _, _, hfailed⟩ :=
      read_super_of_none hm hK hfield limits nesting loc loc' howners
    rw [hread] at hfailed
    cases hfailed
  | cons owner rest =>
    have hfirst : (m.heap.ownersAbove K name).head? = some owner := by rw [howners]; rfl
    obtain ⟨_, _, hdone, ⟨method, view, hmethod, hpayload, hshows⟩, hm₁⟩ :=
      read_super hm hK hfield limits nesting loc loc' hfirst
    rw [hread] at hdone
    cases hdone
    refine ⟨owner, ?_, view, ?_, ?_⟩
    · -- the classes above the owner are as they were when the member was read
      have hend := Run.evaluateAt_keepsValues limits (nesting + 2)
        (.member loc (.name loc' "super") name) m
      rw [hread] at hend
      have hlast : m.store.KeepsValues m'.store := hend.trans hlater
      obtain ⟨_, -, ⟨_, hview, -⟩, hup⟩ := hK
      have hmem : owner ∈ m.heap.ancestry (m.heap.classOf o) :=
        (m.heap.ancestry_suffix hup).subset
          (mem_ancestry_of_mem_ownersAbove (List.mem_of_head? hfirst))
      have hhas : m.store.Has (.object owner) :=
        (hm.inv.defines.mem_ancestry (fun _ _ => rfl) (hm.inv.defines.free_of_view hview) hmem).2.2.1
      rw [show m'.heap.ownersAbove owner name = m.heap.ownersAbove owner name from
        hlast.ownersAbove hm.inv.defines.intact hhas name, ← howners]
      exact hm.inv.classed.ownersAbove_eq_cons hfirst
    · rw [hsuper]
      rw [hpayload, Payload.functions_mapFunctions] at hfn
      obtain ⟨g, -, rfl⟩ := List.mem_map.mp hfn
      rfl
    · obtain ⟨start, hview, -⟩ := hshows.above
      have hhas : m₁.store.Has (.object view) :=
        m₁.heap.lt_of_payload_ne_null (by rw [hview]; exact Payload.noConfusion)
      exact hm₁.inv.defines.shows (fun r hr => hlater.payload r hr.1)
        (hlater.payload view hhas) (hm₁.inv.defines.free_of_view hview) hshows

/-- The classes of methods that call each other through `super` are the owners above the first, in
order and with none left out. -/
theorem owners_of_isChain {ms : List Machine} (hchain : (m :: ms).IsChain (CallsSuper name))
    (hms : ∀ m' ∈ m :: ms, (∃ cs, m'.Arises cs) ∧ (m'.heap.fields o).get? name = none)
    (hK : m.RunsMethod o K) :
    ∃ Ks, List.Forall₂ (fun m' K' => m'.RunsMethod o K') ms Ks ∧
      Ks <+: m.heap.ownersAbove K name := by
  -- a call takes the first of the owners that are left, so the calls after it have the rest
  induction ms generalizing m K with
  | nil => exact ⟨[], .nil, List.nil_prefix⟩
  | cons m' ms ih =>
    obtain ⟨hcalls, hrest⟩ := List.isChain_cons_cons.mp hchain
    obtain ⟨⟨cs, hm⟩, hfield⟩ := hms m List.mem_cons_self
    obtain ⟨owner, howners, hruns⟩ := hcalls.runsMethod hm hK hfield
    obtain ⟨Ks, hKs, hinit⟩ :=
      ih hrest (fun m'' hm'' => hms m'' (List.mem_cons_of_mem m hm'')) hruns
    refine ⟨owner :: Ks, .cons hruns hKs, ?_⟩
    rw [howners]
    exact List.cons_prefix_cons.mpr ⟨rfl, hinit⟩

/-- Where the body of a bound function starts, its method runs. -/
theorem arises_of_bound (hm : m.Arises cs) {r : Ref} {fn : Function} {view : Ref} {frame : FrameId}
    (hfn : fn ∈ (m.heap.payload r).functions) (hbound : m.heap.BoundAs fn o view K)
    (hframe : m.store.Has (.frame frame))
    (hstore : m'.store = ⟨m.heap, ((m.scope.enter frame).define "self" o).define "super" view⟩) :
    m'.Arises cs ∧ m'.RunsMethod o K := by
  have hfree := hm.inv.defines.free_of_mem_functions hfn
  have ho : m.store.Free cs (.object o) := hfree _ (by simp [Function.places, hbound.self])
  have hview : m.store.Free cs (.object view) := hfree _ (by simp [Function.places, hbound.super])
  have hself := (hm.inv.enter frame).bind "self" hframe ho
  -- binding `self` does not move the frame, so that `super` is bound in the same one
  have hsized : frame < ((m.scope.enter frame).define "self" o).frames.size := by
    rw [Scope.define, Scope.size_defineIn]
    exact hframe
  have hsuper := hself.bind "super" hsized hview
  have hlookup : (((m.scope.enter frame).define "self" o).define "super" view).lookup? "super" =
      some view := Scope.lookup?_define hsized "super" view
  obtain ⟨hheap, hscope⟩ := Store.mk.inj hstore
  have hheap : m'.heap = m.heap := hheap
  refine ⟨?_, view, hscope ▸ hlookup, hheap ▸ hbound.shows⟩
  rw [Machine.Arises, hstore]
  refine ⟨hsuper, ?_⟩
  show frame < (((m.scope.enter frame).define "self" o).defineIn frame "super" view).frames.size
  rw [Scope.size_defineIn]
  exact hsized

/-- In every state that programs pass through, every function is bound to nothing, or to a value and
to a view of it from above a class of its ancestry that has the function in its own table. When such a
function runs, its body starts where `super` is that view. There, a member of `super` that is no field
of the value is the method of the next class above, bound to the same value, if any class above has
one; and methods that call each other so belong to the classes above that have one, in order, each
once and none left out. -/
theorem superOrder (hm : m.Arises cs) :
    (∀ r, ∀ fn ∈ (m.heap.payload r).functions,
      fn.IsUnbound ∨ ∃ o view K, m.heap.BoundAs fn o view K) ∧
    (∀ r, ∀ fn ∈ (m.heap.payload r).functions, ∀ frame o view K, m.heap.BoundAs fn o view K →
      m.store.Has (.frame frame) → ∃ m' last, m'.Arises cs ∧ m'.RunsMethod o K ∧
        (∀ m₁, ∃ m₂, last m₁ = .done () m₂) ∧ ∀ evaluate : Evaluator,
          Run.invoke evaluate fn frame m =
            if evaluate.room.entry then Run.ensuring (fun _ => evaluate fn.body m') last m
            else .failed .nestingTooDeep { m with scope := m.scope.enter frame }) ∧
    (∀ o K name, m.RunsMethod o K → (m.heap.fields o).get? name = none →
      ∀ limits nesting loc loc',
        (∀ owner, (m.heap.ownersAbove K name).head? = some owner →
          m.heap.isSubclass K owner = true ∧ owner ≠ K ∧ ∃ v m',
            Run.evaluateAt limits (nesting + 2) (.member loc (.name loc' "super") name) m =
              .done v m' ∧ m.heap.GivesMethod m'.heap o owner name v) ∧
        (m.heap.ownersAbove K name = [] → ∃ view trace m', m.scope.lookup? "super" = some view ∧
          Run.evaluateAt limits (nesting + 2) (.member loc (.name loc' "super") name) m =
            .failed (.complaint (.unboundMember name (m.heap.display view)) trace) m')) ∧
    (∀ o K name ms, m.RunsMethod o K → (m :: ms).IsChain (CallsSuper name) →
      (∀ m' ∈ m :: ms, (∃ cs, m'.Arises cs) ∧ (m'.heap.fields o).get? name = none) →
      ∃ Ks, List.Forall₂ (fun m' K' => m'.RunsMethod o K') ms Ks ∧
        Ks <+: m.heap.ownersAbove K name ∧
        (K :: Ks).Sublist (m.heap.ancestry (m.heap.classOf o)) ∧ (K :: Ks).Nodup ∧
        (K :: Ks).length ≤ (m.heap.ancestry (m.heap.classOf o)).length) := by
  refine ⟨hm.inv.functionsBound, ?_, ?_, ?_⟩
  · intro r fn hfn frame o view K hbound hframe
    obtain ⟨m', last, hstore, hlast, hinvoke⟩ := Run.invoke_of_bound hbound.self hbound.super frame m
    obtain ⟨harises, hruns⟩ := arises_of_bound hm hfn hbound hframe hstore
    refine ⟨m', last, harises, hruns, ?_, hinvoke⟩
    intro m₁
    obtain ⟨m₂, hdone, -⟩ := hlast m₁
    exact ⟨m₂, hdone⟩
  · intro o K name hK hfield limits nesting loc loc'
    refine ⟨?_, read_super_of_none hm hK hfield limits nesting loc loc'⟩
    intro owner howner
    have hmem := List.mem_of_head? howner
    obtain ⟨v, m', hdone, hgives, -⟩ := read_super hm hK hfield limits nesting loc loc' howner
    refine ⟨isSubclass_iff.mpr (mem_ancestry_of_mem_ownersAbove hmem), ?_, v, m', hdone, hgives⟩
    rintro rfl
    have hnodup := (m.heap.nodup_ancestry owner).sublist (cons_ownersAbove_sublist owner name)
    exact (List.nodup_cons.mp hnodup).1 hmem
  · intro o K name ms hK hchain hms
    obtain ⟨Ks, hKs, hinit⟩ := owners_of_isChain hchain hms hK
    obtain ⟨_, -, hshows⟩ := hK
    have hsublist : (K :: Ks).Sublist (m.heap.ancestry (m.heap.classOf o)) :=
      (hinit.sublist.cons_cons K).trans
        ((cons_ownersAbove_sublist K name).trans (m.heap.ancestry_suffix hshows.mem).sublist)
    exact ⟨Ks, hKs, hinit, hsublist, (m.heap.nodup_ancestry _).sublist hsublist,
      hsublist.length_le⟩

/-- A method of a class reads the method of the same name of the class above. -/
theorem superOrder_of_two :
    let fn : Function := { name := "m", params := [], body := .null none, captured := some 0 }
    let a := (Heap.initial.alloc (.classObject { name := "A", superclass := some 0 })).2
    let a₁ := (a.alloc (.function fn)).2.updateClass 11 (·.write .methods "m" 12)
    let b := (a₁.alloc (.classObject { name := "B", superclass := some 11 })).2
    let b₁ := (b.alloc (.function fn)).2.updateClass 13 (·.write .methods "m" 14)
    let viewed := ((b₁.allocInstance 13).2.alloc (.superView 15 11)).2
    let m : Machine :=
      { heap := viewed, scope := (Scope.withGlobals "<globals>").define "super" 16 }
    m.Arises [] ∧ m.RunsMethod 15 13 ∧ ∃ v m',
      Run.evaluateAt .standard 2 (.member none (.name none "super") "m") m = .done v m' ∧
        m.heap.GivesMethod m'.heap 15 11 "m" v := by
  intro fn a a₁ b b₁ viewed m
  have hunbound : fn.IsUnbound := ⟨rfl, rfl⟩
  have hentry {h : Heap} {c v : Ref} (hv : h.payload v = .function fn) :
      h.ClassEntry c .methods "m" v := by
    refine .method hunbound (by rw [isBindable, hv]) fun g hg => .inl ?_
    rw [hv] at hg
    exact List.mem_singleton.mp hg
  let scope : Scope Ref := .withGlobals "<globals>"
  -- each class is under definition until it has its method
  have ha : Store.Arises [11] ⟨a, scope⟩ := (Arises.start false).begin "A" (by decide) (.inr rfl)
  have ha' : Store.Arises [11] ⟨(a.alloc (.function fn)).2, scope⟩ :=
    ha.add (.code (.definition none hunbound)) (by decide)
  have ha₁ : Store.Arises [] ⟨a₁, scope⟩ := (ha'.write (hentry (by cbv)) (by decide)).finish
  have hb : Store.Arises [13] ⟨b, scope⟩ := ha₁.begin "B" (by decide) (.inl (by cbv))
  have hb' : Store.Arises [13] ⟨(b.alloc (.function fn)).2, scope⟩ :=
    hb.add (.code (.definition none hunbound)) (by decide)
  have hb₁ : Store.Arises [] ⟨b₁, scope⟩ := (hb'.write (hentry (by cbv)) (by decide)).finish
  have hi : Store.Arises [] ⟨(b₁.allocInstance 13).2, scope⟩ := hb₁.allocInstance (by cbv) (by decide)
  have hfind : (b₁.allocInstance 13).2.findMethod? 13 "m" = some (13, 14) := by cbv
  have hlooks : (b₁.allocInstance 13).2.LooksFrom 15 13 := .class (by cbv)
  have hviewed : Store.Arises [] ⟨viewed, scope⟩ :=
    hi.add (.view ⟨13, "m", hlooks, hfind⟩ (by cbv)) (by decide)
  have hm : m.Arises [] :=
    ⟨hviewed.bind "super" (by decide) (by decide), Nat.one_pos⟩
  have hclass : m.heap.classOf 15 = 13 := by cbv
  have hshows : m.heap.Shows 16 15 13 :=
    ⟨⟨11, by cbv, by cbv⟩, hclass.symm ▸ m.heap.self_mem_ancestry 13⟩
  have hK : m.RunsMethod 15 13 := ⟨16, Scope.lookup?_define (by decide) "super" 16, hshows⟩
  have hfield : (m.heap.fields 15).get? "m" = none := by cbv
  have howners : (m.heap.ownersAbove 13 "m").head? = some 11 := by cbv
  obtain ⟨-, -, hread, -⟩ := superOrder hm
  obtain ⟨-, -, hgives⟩ := (hread 15 13 "m" hK hfield .standard 0 none none).1 11 howners
  exact ⟨hm, hK, hgives⟩

end Machine

end TreeScript
