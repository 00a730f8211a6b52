import TreeScript.Proofs.Extension

/-!
# Laws of scopes

Frames form a tree that many heads share, and the global frame stands behind every chain, also
behind one that does not end in it. A head sees a frame under a name if no frame that is searched
before it binds that name. Binding a name in a frame changes what the name means from the heads
that see the frame under it, and changes nothing else; closing a frame undoes all that was bound in
it. These laws hold of every scope that the operations on scopes reach, in whatever order they come.
-/

namespace TreeScript.Scope

variable {α : Type} {s t : Scope α} {f g : FrameId} {name : String} {v : α}

/-! ## What a head sees -/

/-- The frame is on the chain of the head and no nearer frame binds the name, or it is the global
frame and none on the chain does. -/
inductive Sees (s : Scope α) (g : FrameId) (name : String) (f : FrameId) : Prop
  | onChain {nearer rest : List FrameId} (hchain : s.chain g = nearer ++ f :: rest)
    (hnearer : ∀ x ∈ nearer, s.bindsIn x name = false)
  | global (hf : f = s.globals) (hchain : ∀ x ∈ s.chain g, s.bindsIn x name = false)

theorem bindsIn_eq_false_iff (s : Scope α) (f : FrameId) (name : String) :
    s.bindsIn f name = false ↔ (s.frame f).bindings.get? name = none := by
  simp [bindsIn, Bindings.contains]

theorem Sees.self (s : Scope α) (f : FrameId) (name : String) : s.Sees f name f :=
  .onChain ((s.chain_eq f).trans (List.nil_append _).symm) fun _ hx => absurd hx List.not_mem_nil

/-- The frame that holds a name is the frame that binds it and is seen under it. -/
theorem owner?_enter_eq_some_iff :
    (s.enter g).owner? name = some f ↔ s.bindsIn f name = true ∧ s.Sees g name f := by
  have hchain : (s.enter g).ownerFrom g name = (s.chain g).find? (s.bindsIn · name) := by
    rw [ownerFrom, chain_enter]
    rfl
  unfold owner?
  rw [show (s.enter g).head = g from rfl, hchain]
  cases hfind : (s.chain g).find? (s.bindsIn · name) with
  | some x =>
    obtain ⟨hx, nearer, rest, hsplit, hnearer⟩ := List.find?_eq_some_iff_append.mp hfind
    have hnearer' : ∀ y ∈ nearer, s.bindsIn y name = false := fun y hy => by
      simpa using hnearer y hy
    constructor
    · intro h
      cases h
      exact ⟨hx, .onChain hsplit hnearer'⟩
    · rintro ⟨hf, hsees | ⟨-, hnone⟩⟩
      · -- both are the first frame of the chain that binds the name
        have hfirst : (s.chain g).find? (s.bindsIn · name) = some f :=
          List.find?_eq_some_iff_append.mpr ⟨hf, _, _, hsees, fun y hy => by simp_all⟩
        exact hfind.symm.trans hfirst
      · have hmem : x ∈ s.chain g := by simp [hsplit]
        rw [hnone x hmem] at hx
        cases hx
  | none =>
    have hnone : ∀ x ∈ s.chain g, s.bindsIn x name = false := by simpa using hfind
    change (if s.bindsIn s.globals name then some s.globals else none) = some f ↔ _
    constructor
    · intro h
      split at h
      · next hglobals =>
        cases h
        exact ⟨hglobals, .global rfl hnone⟩
      · cases h
    · rintro ⟨hf, hsees | ⟨rfl, -⟩⟩
      · rw [hnone f (by simp [hsees])] at hf
        cases hf
      · rw [if_pos hf]

theorem owner?_eq_some_iff :
    s.owner? name = some f ↔ s.bindsIn f name = true ∧ s.Sees s.head name f :=
  owner?_enter_eq_some_iff (s := s) (g := s.head)

theorem owner?_eq_none_iff : s.owner? name = none ↔ s.lookup? name = none := by
  unfold lookup?
  cases howner : s.owner? name with
  | none => simp
  | some f =>
    have hbinds := (owner?_eq_some_iff.mp howner).1
    rw [bindsIn, Bindings.contains] at hbinds
    simp [Option.isSome_iff_ne_none.mp hbinds]

/-- What a frame binds a name to is what the name means where the frame is seen. -/
theorem lookup?_of_sees (hsees : s.Sees g name f)
    (hv : (s.frame f).bindings.get? name = some v) : (s.enter g).lookup? name = some v := by
  have howner : (s.enter g).owner? name = some f := by
    refine owner?_enter_eq_some_iff.mpr ⟨?_, hsees⟩
    rw [bindsIn, Bindings.contains, hv]
    rfl
  rw [lookup?, howner]
  exact hv

/-- A name means the same from a head in two scopes if the frames that the head sees under it bind
it to the same. -/
theorem lookup?_congr (hglobals : t.globals = s.globals) (hchain : t.chain g = s.chain g)
    (hframes : ∀ f, s.Sees g name f →
      (t.frame f).bindings.get? name = (s.frame f).bindings.get? name) :
    (t.enter g).lookup? name = (s.enter g).lookup? name := by
  rw [lookup?_enter, lookup?_enter, hglobals, hchain]
  -- along the chain, as long as no frame has bound the name
  have hsearch (rest nearer : List FrameId) (hsplit : s.chain g = nearer ++ rest)
      (hnearer : ∀ x ∈ nearer, s.bindsIn x name = false) :
      ((rest.map t.frame).findSome? (·.bindings.get? name)).or
          ((t.frame s.globals).bindings.get? name) =
        ((rest.map s.frame).findSome? (·.bindings.get? name)).or
          ((s.frame s.globals).bindings.get? name) := by
    induction rest generalizing nearer with
    | nil =>
      rw [List.append_nil] at hsplit
      exact hframes s.globals (.global rfl (hsplit ▸ hnearer))
    | cons x rest ih =>
      have hx := hframes x (.onChain hsplit hnearer)
      simp only [List.map_cons, List.findSome?_cons, hx]
      cases hvalue : (s.frame x).bindings.get? name with
      | some v => rfl
      | none =>
        refine ih (nearer ++ [x]) (by simpa using hsplit) fun y hy => ?_
        rcases List.mem_append.mp hy with hy | hy
        · exact hnearer y hy
        · rw [List.mem_singleton.mp hy]
          exact (s.bindsIn_eq_false_iff x name).mpr hvalue
  exact hsearch (s.chain g) [] rfl fun x hx => absurd hx List.not_mem_nil

/-! ## Binding a name in one frame -/

/-- One name is bound in one frame, and nothing else is different. The change shows from the heads
that see the frame under the name. -/
structure BindsOnly (s t : Scope α) (f : FrameId) (name : String) (v : α) : Prop where
  head : t.head = s.head
  globals : t.globals = s.globals
  size : t.frames.size = s.frames.size
  frame : ∀ g, g ≠ f → t.frame g = s.frame g
  frameName : (t.frame f).name = (s.frame f).name
  parent : (t.frame f).parent = (s.frame f).parent
  bound : (t.frame f).bindings.get? name = some v
  others : ∀ n, n ≠ name → (t.frame f).bindings.get? n = (s.frame f).bindings.get? n
  seen : ∀ g, s.Sees g name f → (t.enter g).lookup? name = some v
  unseen : ∀ g, ¬ s.Sees g name f → (t.enter g).lookup? name = (s.enter g).lookup? name
  lookup : ∀ g n, n ≠ name → (t.enter g).lookup? n = (s.enter g).lookup? n

theorem bindsIn_defineIn_of_ne (hgf : g ≠ f) :
    (s.defineIn f name v).bindsIn g name = s.bindsIn g name := by
  rw [bindsIn, bindsIn, s.frame_defineIn_of_ne name v hgf.symm]

theorem Sees.defineIn (hsees : s.Sees g name f) : (s.defineIn f name v).Sees g name f := by
  have hbefore {nearer rest : List FrameId} (hchain : s.chain g = nearer ++ f :: rest)
      (hnearer : ∀ x ∈ nearer, s.bindsIn x name = false) :
      (s.defineIn f name v).Sees g name f := by
    -- a chain meets no frame twice
    have hnodup : f ∉ nearer := fun hf =>
      (List.nodup_append.mp (hchain ▸ s.nodup_chain g)).2.2 f hf f List.mem_cons_self rfl
    refine .onChain ((s.chain_defineIn f g name v).trans hchain) fun x hx => ?_
    have hxf : x ≠ f := fun h => hnodup (h ▸ hx)
    rw [bindsIn_defineIn_of_ne hxf]
    exact hnearer x hx
  cases hsees with
  | onChain hchain hnearer => exact hbefore hchain hnearer
  | global hf hchain =>
    by_cases hmem : f ∈ s.chain g
    · obtain ⟨nearer, rest, hsplit⟩ := List.append_of_mem hmem
      exact hbefore hsplit fun x hx => hchain x (hsplit ▸ List.mem_append_left _ hx)
    · refine .global hf fun x hx => ?_
      rw [chain_defineIn] at hx
      have hxf : x ≠ f := fun h => hmem (h ▸ hx)
      rw [bindsIn_defineIn_of_ne hxf]
      exact hchain x hx

theorem bindsOnly_defineIn (hf : f < s.frames.size) (name : String) (v : α) :
    s.BindsOnly (s.defineIn f name v) f name v := by
  have hframe := s.frame_defineIn_self name v hf
  have hothers (n : String) (hn : n ≠ name) (x : FrameId) :
      ((s.defineIn f name v).frame x).bindings.get? n = (s.frame x).bindings.get? n := by
    rw [frame_defineIn]
    split
    · exact Bindings.get?_set_of_ne _ hn v
    · rfl
  have hbound : ((s.defineIn f name v).frame f).bindings.get? name = some v := by
    rw [hframe]
    exact Bindings.get?_set_self _ name v
  refine
    { head := rfl
      globals := rfl
      size := s.size_defineIn f name v
      frame := fun g hg => s.frame_defineIn_of_ne name v hg.symm
      frameName := s.name_defineIn f f name v
      parent := s.parent_defineIn f f name v
      bound := hbound
      others := fun n hn => hothers n hn f
      seen := fun g hsees => lookup?_of_sees hsees.defineIn hbound
      unseen := fun g hsees => ?_
      lookup := fun g n hn => ?_ }
  · refine lookup?_congr rfl (s.chain_defineIn f g name v) fun x hx => ?_
    have hfx : f ≠ x := fun h => hsees (h ▸ hx)
    rw [s.frame_defineIn_of_ne name v hfx]
  · exact lookup?_congr rfl (s.chain_defineIn f g name v) fun x _ => hothers n hn x

/-! ## Scopes that are reached -/

/-- Scopes that the operations reach from a first one, in which the global frame is the head. The
first scope may have any frames, each younger than its parent, and any names bound in them. -/
inductive ReachedFrom (top : FrameId) : Scope α → Prop
  | first {s : Scope α} (hglobals : s.globals = top) (hhead : s.head = top)
    (hparents : ∀ f p, (s.frame f).parent = some p → p < f) : ReachedFrom top s
  | push {s : Scope α} (name : String) (hs : ReachedFrom top s) : ReachedFrom top (s.push name)
  | pop {s t : Scope α} (hs : ReachedFrom top s) (hpop : s.pop = .ok t) : ReachedFrom top t
  | define {s : Scope α} (name : String) (v : α) (hs : ReachedFrom top s) :
    ReachedFrom top (s.define name v)
  | assign {s : Scope α} (name : String) (v : α) (hs : ReachedFrom top s) :
    ReachedFrom top (s.assign name v)
  | newFrame {s : Scope α} (name : String) {parent : Option FrameId} (hs : ReachedFrom top s)
    (hparent : ∀ p, parent = some p → p < s.frames.size) :
    ReachedFrom top (s.newFrame name parent).2
  | enter {s : Scope α} {f : FrameId} (hs : ReachedFrom top s) (hf : f < s.frames.size) :
    ReachedFrom top (s.enter f)
  | write {s : Scope α} {f : FrameId} (name : String) (v : α) (hs : ReachedFrom top s)
    (hf : f < s.frames.size) : ReachedFrom top (s.defineIn f name v)

/-- The head exists, and every frame is younger than its parent. -/
structure Ordered (top : FrameId) (s : Scope α) : Prop where
  globals : s.globals = top
  head : s.head < s.frames.size
  parents : ∀ f p, (s.frame f).parent = some p → p < f

namespace Ordered

variable {top : FrameId} (hs : s.Ordered top)

include hs

theorem defineIn (f : FrameId) (name : String) (v : α) : (s.defineIn f name v).Ordered top where
  globals := hs.globals
  head := by simpa using hs.head
  parents g p hp := hs.parents g p (by simpa using hp)

theorem newFrame (name : String) {parent : Option FrameId}
    (hparent : ∀ p, parent = some p → p < s.frames.size) :
    (s.newFrame name parent).2.Ordered top where
  globals := hs.globals
  head := by simpa using Nat.lt_succ_of_lt hs.head
  parents g p hp := by
    by_cases hg : g = s.frames.size
    · subst hg
      rw [frame_newFrame_self] at hp
      exact hparent p hp
    · rw [s.frame_newFrame_of_ne name parent hg] at hp
      exact hs.parents g p hp

theorem enter (hf : f < s.frames.size) : (s.enter f).Ordered top := ⟨hs.globals, hf, hs.parents⟩

theorem push (name : String) : (s.push name).Ordered top := by
  refine (hs.newFrame name ?_).enter (by simp)
  intro p hp
  cases hp
  exact hs.head

end Ordered

theorem ReachedFrom.ordered {top : FrameId} (hs : ReachedFrom top s) : s.Ordered top := by
  induction hs with
  | @first s hglobals hhead hparents =>
    exact ⟨hglobals, by rw [hhead, ← hglobals]; exact s.globals_lt, hparents⟩
  | push name hs ih => exact ih.push name
  | pop hs hpop ih =>
    obtain ⟨p, hparent, rfl⟩ := parent_of_pop hpop
    exact ih.enter (Nat.lt_trans (ih.parents _ p hparent) ih.head)
  | define name v hs ih => exact ih.defineIn _ name v
  | assign name v hs ih => exact ih.defineIn _ name v
  | newFrame name hs hparent ih => exact ih.newFrame name hparent
  | enter hs hf ih => exact ih.enter hf
  | write name v hs hf ih => exact ih.defineIn _ name v

/-! ## The laws -/

/-- Defines names in the head, one after the other. -/
def defineAll (s : Scope α) (entries : List (String × α)) : Scope α :=
  entries.foldl (fun s entry => s.define entry.1 entry.2) s

/-- A scope in which a block has been opened, and in which only the block's frame has been changed
since. -/
structure InBlock (s : Scope α) (name : String) (t : Scope α) : Prop where
  grows : (s.push name).Grows t
  head : t.head = s.frames.size
  extended : s.ExtendedBy t

theorem inBlock_push (s : Scope α) (name : String) : s.InBlock name (s.push name) where
  grows := .refl _
  head := rfl
  extended := ((ExtendedBy.refl s).newFrame name _).enter _

theorem InBlock.defineAll (ht : s.InBlock name t) (entries : List (String × α)) :
    s.InBlock name (t.defineAll entries) := by
  induction entries generalizing t with
  | nil => exact ht
  | cons entry entries ih =>
    refine @ih (t.define entry.1 entry.2) ?_
    exact
      { grows := ht.grows.trans (t.grows_defineIn _ _ _)
        head := ht.head
        extended := ht.extended.defineIn (Nat.le_of_eq ht.head.symm) _ _ }

/-- What holds of the operations on a scope with the given global frame. -/
structure Lawful (top : FrameId) (s : Scope α) : Prop where
  globals : s.globals = top
  /-- A chain takes every link to a parent. -/
  chain : ∀ f, s.chain f = f :: ((s.frame f).parent.map s.chain).getD []
  owner : ∀ name f, s.owner? name = some f ↔ s.bindsIn f name = true ∧ s.Sees s.head name f
  unbound : ∀ name, s.owner? name = none ↔ s.lookup? name = none
  lookup_assign : ∀ name v, (s.assign name v).lookup? name = some v
  lookup_assign_of_ne : ∀ name v n, n ≠ name → (s.assign name v).lookup? n = s.lookup? n
  assign : ∀ name v, s.BindsOnly (s.assign name v) ((s.owner? name).getD s.head) name v
  define : ∀ name v, s.BindsOnly (s.define name v) s.head name v
  /-- Closing a block takes back the head and all meanings, from every head that was there. -/
  block : ∀ name entries, ∃ t, ((s.push name).defineAll entries).pop = .ok t ∧ t.head = s.head ∧
    (∀ n, t.lookup? n = s.lookup? n) ∧ (∀ f < s.frames.size, t.frame f = s.frame f) ∧
    ∀ f < s.frames.size, ∀ n, (t.enter f).lookup? n = (s.enter f).lookup? n
  pop : ∀ p, s.head ≠ top → (s.frame s.head).parent = some p → s.pop = .ok (s.enter p)
  pop_fails : (∃ e, s.pop = .error e) ↔ s.head = top ∨ (s.frame s.head).parent = none
  globals_seen : ∀ name v, s.Sees s.head name top → (s.frame top).bindings.get? name = some v →
    s.lookup? name = some v

theorem pop_of_parent {p : FrameId} (hhead : s.head ≠ s.globals)
    (hparent : (s.frame s.head).parent = some p) : s.pop = .ok (s.enter p) := by
  simp only [pop, beq_eq_false_iff_ne.mpr hhead, hparent]

theorem pop_eq_error_iff (s : Scope α) :
    (∃ e, s.pop = .error e) ↔ s.head = s.globals ∨ (s.frame s.head).parent = none := by
  by_cases hhead : s.head = s.globals
  · refine iff_of_true ⟨⟨(s.frame s.head).name⟩, ?_⟩ (.inl hhead)
    simp only [pop, beq_iff_eq.mpr hhead]
  · cases hparent : (s.frame s.head).parent with
    | none =>
      refine iff_of_true ⟨⟨(s.frame s.head).name⟩, ?_⟩ (.inr rfl)
      simp only [pop, hparent, beq_eq_false_iff_ne.mpr hhead]
    | some p =>
      refine iff_of_false ?_ (by simp [hhead])
      rintro ⟨e, he⟩
      rw [pop_of_parent hhead hparent] at he
      cases he

theorem chain_eq_parents (hparents : ∀ f p, (s.frame f).parent = some p → p < f) (f : FrameId) :
    s.chain f = f :: ((s.frame f).parent.map s.chain).getD [] := by
  rw [chain_eq, parent?]
  cases hparent : (s.frame f).parent with
  | none => rfl
  | some p => simp [hparents f p hparent]

theorem lt_of_bindsIn (h : s.bindsIn f name = true) : f < s.frames.size := by
  refine Decidable.of_not_not fun hsize => ?_
  simp [bindsIn, frame, Array.getD, hsize, Bindings.contains] at h

/-- A block gives back the head and what every name meant, from every head that was there. -/
theorem pop_defineAll (hhead : s.head < s.frames.size) (name : String)
    (entries : List (String × α)) :
    ∃ t, ((s.push name).defineAll entries).pop = .ok t ∧ t.head = s.head ∧
      (∀ n, t.lookup? n = s.lookup? n) ∧ (∀ f < s.frames.size, t.frame f = s.frame f) ∧
      ∀ f < s.frames.size, ∀ n, (t.enter f).lookup? n = (s.enter f).lookup? n := by
  have hblock := (s.inBlock_push name).defineAll entries
  have hlookup (f : FrameId) (hf : f < s.frames.size) (n : String) := hblock.extended.lookup? hf n
  exact ⟨_, pop_of_grows_push hblock.grows hblock.head, rfl, hlookup s.head hhead,
    hblock.extended.frame, hlookup⟩

/-- In every scope that is reached, assigning a name binds it where it is visible, or else in the
head, and defining it binds it in the head; either shows from the heads that see that frame, and
nothing else is different. Closing a block gives back what was there before it. A frame can be left
unless it is the global frame or has no parent, and a failure to leave it disturbs nothing. The
global frame is the one it was at first, and what it binds is visible unless shadowed. -/
theorem binding_laws {top : FrameId} (hs : ReachedFrom top s) :
    s.Lawful top ∧ ∀ (m : Machine) (e : EmptyStack), m.scope.pop = .error e →
      Run.popFrame m = .failed (.emptyStack e) m := by
  obtain ⟨rfl, hhead, hparents⟩ := hs.ordered
  have hassign (name : String) (v : α) :
      s.BindsOnly (s.assign name v) ((s.owner? name).getD s.head) name v := by
    refine bindsOnly_defineIn ?_ name v
    cases howner : s.owner? name with
    | none => exact hhead
    | some f => exact lt_of_bindsIn (owner?_eq_some_iff.mp howner).1
  have hseen (name : String) : s.Sees s.head name ((s.owner? name).getD s.head) := by
    cases howner : s.owner? name with
    | none => exact .self s s.head name
    | some f => exact (owner?_eq_some_iff.mp howner).2
  refine ⟨?_, fun m e he => ?_⟩
  · exact
      { globals := rfl
        chain := chain_eq_parents hparents
        owner := fun name f => owner?_eq_some_iff
        unbound := fun name => owner?_eq_none_iff
        lookup_assign := fun name v => (hassign name v).seen s.head (hseen name)
        lookup_assign_of_ne := fun name v n hn => (hassign name v).lookup s.head n hn
        assign := hassign
        define := fun name v => bindsOnly_defineIn hhead name v
        block := pop_defineAll hhead
        pop := fun p hne hparent => pop_of_parent hne hparent
        pop_fails := s.pop_eq_error_iff
        globals_seen := fun name v hsees hv => lookup?_of_sees hsees hv }
  · unfold Run.popFrame
    rw [he]

/-- From a frame that does not hang below the global one, a name that only the global frame binds is
assigned there, and the frame cannot be left. -/
theorem binding_laws_detached :
    let first := (withGlobals "<globals>").define "x" "old"
    let s := (first.newFrame "far" none).2.enter 1
    ReachedFrom 0 s ∧ s.owner? "x" = some 0 ∧
      s.BindsOnly (s.assign "x" "new") 0 "x" "new" ∧
      (s.assign "x" "new").lookup? "x" = some "new" ∧ ∃ e, s.pop = .error e := by
  intro first s
  have hfirst : ReachedFrom 0 (withGlobals (α := String) "<globals>") := by
    refine .first rfl rfl fun f p hp => ?_
    cases f <;> cases hp
  have hs : ReachedFrom 0 s :=
    ((hfirst.define "x" "old").newFrame "far" (by simp)).enter (by decide)
  obtain ⟨laws, -⟩ := binding_laws hs
  have howner : s.owner? "x" = some 0 := by
    refine (laws.owner "x" 0).mpr ⟨by decide, .global rfl fun f hf => ?_⟩
    rw [laws.chain] at hf
    cases List.mem_singleton.mp hf
    decide
  have hassign := laws.assign "x" "new"
  rw [howner] at hassign
  exact ⟨hs, howner, hassign, laws.lookup_assign "x" "new", laws.pop_fails.mpr (.inr rfl)⟩

end TreeScript.Scope
