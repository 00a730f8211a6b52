import Mathlib.Order.WellFounded
import TreeScript.Proofs.Reached

/-!
# Walks come to an end

Values and frames refer to each other in cycles: an instance holds itself in a
field, a closure sits in the frame it captures, a bound method points back to
its instance. Programs walk along two kinds of links only, from a frame to its
parent, and from a value to its parts, the items of a list and the instance of a
view. Both go to what was there before, in every store that programs reach, and
a frame without a parent is the global frame. So looking up a name, displaying
a value, comparing values and turning them into data end; the walks take every
link that is there, and none is cut short.
-/

namespace TreeScript

namespace Scope

variable {α : Type}

/-- Every frame but the global one hangs below a frame that is older. -/
structure Rooted (s : Scope α) : Prop where
  top : (s.frame s.globals).parent = none
  below : ∀ f < s.frames.size, f ≠ s.globals → ∃ p < f, (s.frame f).parent = some p

namespace Rooted

variable {s : Scope α} (hs : s.Rooted)

include hs

/-- Links to parents go to older frames, so the walk outwards takes every one of them. -/
theorem parent? {f p : FrameId} (hf : (s.frame f).parent = some p) :
    ∃ hp : p < f, s.parent? f = some ⟨p, hp⟩ := by
  have hp : p < f := by
    by_cases hsize : f < s.frames.size
    · by_cases htop : f = s.globals
      · rw [htop, hs.top] at hf
        cases hf
      · obtain ⟨q, hq, hparent⟩ := hs.below f hsize htop
        rw [hf] at hparent
        cases hparent
        exact hq
    · simp [frame, Array.getD, hsize] at hf
  refine ⟨hp, ?_⟩
  unfold Scope.parent?
  rw [hf]
  exact dif_pos hp

theorem chain_eq_parent (f : FrameId) :
    s.chain f = f :: (((s.frame f).parent.map s.chain).getD []) := by
  rw [chain_eq]
  cases hf : (s.frame f).parent with
  | none => simp [Scope.parent?, hf]
  | some p =>
    obtain ⟨hp, hparent⟩ := hs.parent? hf
    simp [hparent]

/-- The owner of a name is looked for in the frame itself and then from its parent on. -/
theorem ownerFrom_eq (f : FrameId) (name : String) :
    s.ownerFrom f name =
      if s.bindsIn f name then some f
      else (s.frame f).parent.bind fun p => s.ownerFrom p name := by
  unfold ownerFrom
  rw [hs.chain_eq_parent f, List.find?_cons]
  cases s.bindsIn f name with
  | true => rfl
  | false => cases (s.frame f).parent <;> rfl

theorem isChain_chain (f : FrameId) :
    (s.chain f).IsChain fun g p => (s.frame g).parent = some p := by
  induction f using Nat.strongRecOn with
  | ind f ih =>
    rw [hs.chain_eq_parent f]
    cases hf : (s.frame f).parent with
    | none => exact .singleton f
    | some p =>
      obtain ⟨hp, -⟩ := hs.parent? hf
      have hrest : s.chain p = p :: ((s.frame p).parent.map s.chain).getD [] := hs.chain_eq_parent p
      have htail := ih p hp
      rw [hrest] at htail
      simp only [Option.map_some, Option.getD_some, hrest]
      exact List.isChain_cons_cons.mpr ⟨hf, htail⟩

theorem getLast?_chain {f : FrameId} (hf : f < s.frames.size) :
    (s.chain f).getLast? = some s.globals := by
  induction f using Nat.strongRecOn with
  | ind f ih =>
    rw [hs.chain_eq_parent f]
    by_cases htop : f = s.globals
    · subst htop
      rw [hs.top]
      rfl
    · obtain ⟨p, hp, hparent⟩ := hs.below f hf htop
      have hrest := ih p hp (Nat.lt_trans hp hf)
      rw [hparent, Option.map_some, Option.getD_some, List.getLast?_cons, hrest]
      rfl

theorem wellFounded_parent : WellFounded fun p f => (s.frame f).parent = some p :=
  Subrelation.wf (fun hf => (hs.parent? hf).1) Nat.lt_wfRel.wf

end Rooted

end Scope

namespace Heap

/-- The parts of a value: the items of a list, and the instance of a view. -/
inductive IsPart (h : Heap) (i r : Ref) : Prop
  | item {items : List Ref} (hr : h.payload r = .list items) (hi : i ∈ items)
  | viewed {start : Ref} (hr : h.payload r = .superView i start)

/-- A view is younger than the instance it shows. -/
def ViewsOrdered (h : Heap) : Prop :=
  ∀ r inst start, h.payload r = .superView inst start → inst < r

variable {h : Heap}

theorem lt_of_isPart (hlists : h.ListsOrdered) (hviews : h.ViewsOrdered) {i r : Ref}
    (hir : h.IsPart i r) : i < r := by
  cases hir with
  | item hr hi => exact hlists r _ hr i hi
  | viewed hr => exact hviews r i _ hr

theorem display_superView (hviews : h.ViewsOrdered) {r inst start : Ref}
    (hr : h.payload r = .superView inst start) :
    h.display r = s!"<super {h.className start} of {h.display inst}>" := by
  rw [display, hr]
  simp only [hviews r inst start hr, dite_true]

end Heap

namespace Store

/-- Walks through a store come to an end: the links they follow are those of a well-founded
relation, and they follow them all. -/
structure WalksEnd (s : Store) : Prop where
  /-- Links to parents. -/
  parents : WellFounded fun p f => (s.scope.frame f).parent = some p
  chain_head : ∀ f, (s.scope.chain f).head? = some f
  chain_links : ∀ f, (s.scope.chain f).IsChain fun g p => (s.scope.frame g).parent = some p
  chain_nodup : ∀ f, (s.scope.chain f).Nodup
  chain_last : ∀ f, s.Has (.frame f) → (s.scope.chain f).getLast? = some s.scope.globals
  globals_last : (s.scope.frame s.scope.globals).parent = none
  /-- The walk of a lookup, of an assignment and of a template. -/
  chain_eq : ∀ f, s.scope.chain f = f :: ((s.scope.frame f).parent.map s.scope.chain).getD []
  ownerFrom_eq : ∀ f name, s.scope.ownerFrom f name =
    if s.scope.bindsIn f name then some f
    else (s.scope.frame f).parent.bind fun p => s.scope.ownerFrom p name
  /-- Links to parts. -/
  parts : WellFounded s.heap.IsPart
  part_acyclic : ∀ r, ¬ Relation.TransGen s.heap.IsPart r r
  display_list : ∀ r items, s.heap.payload r = .list items →
    s.heap.display r = "[" ++ String.intercalate ", " (items.map s.heap.display) ++ "]"
  display_view : ∀ r inst start, s.heap.payload r = .superView inst start →
    s.heap.display r = s!"<super {s.heap.className start} of {s.heap.display inst}>"
  toData_list : ∀ r items, s.heap.payload r = .list items →
    s.heap.toData r = .list (items.map s.heap.toData)
  same_list : ∀ a b as bs, s.heap.payload a = .list as → s.heap.payload b = .list bs →
    (s.heap.same a b = true ↔ List.Forall₂ (fun i j => s.heap.same i j = true) as bs)

namespace Reached

variable {s : Store}

theorem rooted (hs : s.Reached) : s.scope.Rooted := by
  induction hs with
  | start tracing =>
    refine ⟨rfl, ?_⟩
    intro f hf htop
    exact absurd (Nat.lt_one_iff.mp hf) htop
  | enter f hs ih => exact ⟨ih.top, ih.below⟩
  | @newFrame s parent name hs hparent ih =>
    refine ⟨?_, ?_⟩
    · rw [Scope.globals_newFrame, s.scope.frame_newFrame_of_lt name _ s.scope.globals_lt]
      exact ih.top
    · intro f hf htop
      rcases Nat.lt_succ_iff_lt_or_eq.mp (by simpa using hf) with hold | rfl
      · rw [s.scope.frame_newFrame_of_lt name _ hold]
        exact ih.below f hold htop
      · rw [s.scope.frame_newFrame_self]
        exact ⟨parent, hparent, rfl⟩
  | @bind s f v name hs hf hv ih =>
    refine ⟨?_, ?_⟩
    · simpa using ih.top
    · intro g hg htop
      simpa using ih.below g (by simpa using hg) htop
  | add hs ho ih => exact ih
  | setField name hs hr hv ih => exact ih
  | writeClass table name hs hc hv ih => exact ih

/-- A view is made of an instance that is there already. -/
theorem viewsOrdered (hs : s.Reached) : s.heap.ViewsOrdered := by
  intro r inst start hr
  apply hs.lt_of_mem_payload
  · rw [Heap.class?, hr]
  · rw [hr]
    exact List.mem_cons_self

/-- In every store that programs reach, whatever the fields of its values have been set to, the walks
along parents and along parts end and follow every link. -/
theorem walksEnd (hs : s.Reached) : s.WalksEnd := by
  have hlt {i r : Ref} (hir : s.heap.IsPart i r) : i < r :=
    Heap.lt_of_isPart hs.listsOrdered hs.viewsOrdered hir
  have hparts : WellFounded s.heap.IsPart := Subrelation.wf hlt Nat.lt_wfRel.wf
  have hrooted := hs.rooted
  refine
    { parents := hrooted.wellFounded_parent
      chain_head := ?_
      chain_links := hrooted.isChain_chain
      chain_nodup := s.scope.nodup_chain
      chain_last := fun f hf => hrooted.getLast?_chain hf
      globals_last := hrooted.top
      chain_eq := hrooted.chain_eq_parent
      ownerFrom_eq := hrooted.ownerFrom_eq
      parts := hparts
      part_acyclic := ?_
      display_list := fun r items hr => Heap.display_list hs.listsOrdered hr
      display_view := fun r inst start hr => Heap.display_superView hs.viewsOrdered hr
      toData_list := fun r items hr => Heap.toData_list hs.listsOrdered hr
      same_list := fun a b as bs ha hb => Heap.same_list hs.listsOrdered ha hb }
  · intro f
    rw [Scope.chain_eq]
    rfl
  · intro r hr
    exact hparts.transGen.irrefl.irrefl r hr

/-- Walks end also where an instance holds a list of a view of itself. -/
theorem walksEnd_of_cycle :
    let viewed := ((Heap.initial.alloc (.instance 0)).2.alloc (.superView 11 0)).2
    let looped := (viewed.alloc (.list [11, 12])).2.setField 11 "all" 13
    let s : Store := { (Machine.bare false).store with heap := looped }
    s.Reached ∧ (s.heap.fields 11).get? "all" = some 13 ∧ s.heap.IsPart 12 13 ∧
      s.heap.IsPart 11 12 ∧ s.WalksEnd := by
  intro viewed looped s
  have hinstance := (start false).add (o := { payload := .instance 0 }) (by decide)
  have hview := hinstance.add (o := { payload := .superView 11 0 }) (by decide)
  have hlist := hview.add (o := { payload := .list [11, 12] }) (by decide)
  have hs : s.Reached := hlist.setField (r := 11) (v := 13) "all" (by decide) (by decide)
  have hitems : s.heap.payload 13 = .list [11, 12] := rfl
  exact ⟨hs, by decide, .item hitems (by decide), .viewed rfl, walksEnd hs⟩

end Reached

end Store

end TreeScript
