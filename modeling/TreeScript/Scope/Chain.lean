import TreeScript.Scope

/-!
# Chains of frames

A chain starts at its frame and goes from younger to older frames, so it ends
and meets no frame twice. Binding names changes no chain, and neither do frames
that are made later.
-/

namespace TreeScript.Scope

variable {α : Type}

/-! ## The shape of a chain -/

theorem chain_eq (s : Scope α) (f : FrameId) :
    s.chain f = f :: ((s.parent? f).map fun p => s.chain p.1).getD [] := by
  rw [chain]
  cases h : s.parent? f with
  | none => simp
  | some p => obtain ⟨p, hp⟩ := p; simp

theorem parent_of_parent? {s : Scope α} {f : FrameId} {p : { p : FrameId // p < f }}
    (h : s.parent? f = some p) : (s.frame f).parent = some p.1 := by
  unfold parent? at h
  split at h
  · split at h <;> cases h
    assumption
  · cases h

theorem le_of_mem_chain (s : Scope α) {f g : FrameId} (h : g ∈ s.chain f) : g ≤ f := by
  induction f using Nat.strongRecOn with
  | ind f ih =>
    rw [chain] at h
    split at h
    · next p hp _ =>
      rcases List.mem_cons.mp h with rfl | h
      · exact Nat.le_refl _
      · exact Nat.le_of_lt (Nat.lt_of_le_of_lt (ih p hp h) hp)
    · exact Nat.le_of_eq (List.mem_singleton.mp h)

/-- Along a chain every frame is younger than all that follow. -/
theorem chain_pairwise (s : Scope α) (f : FrameId) : (s.chain f).Pairwise (· > ·) := by
  induction f using Nat.strongRecOn with
  | ind f ih =>
    rw [chain]
    split
    · next p hp _ =>
      refine List.pairwise_cons.mpr ⟨fun g hg => ?_, ih p hp⟩
      exact Nat.lt_of_le_of_lt (s.le_of_mem_chain hg) hp
    · exact List.pairwise_singleton _ _

theorem nodup_chain (s : Scope α) (f : FrameId) : (s.chain f).Nodup :=
  (s.chain_pairwise f).imp fun h => Nat.ne_of_gt h

/-! ## Binding a name -/

variable (s : Scope α) (f g : FrameId) (name : String) (value : α)

@[simp] theorem head_defineIn : (s.defineIn f name value).head = s.head := rfl

@[simp] theorem globals_defineIn : (s.defineIn f name value).globals = s.globals := rfl

@[simp] theorem size_defineIn : (s.defineIn f name value).frames.size = s.frames.size := by
  simp [defineIn]

theorem frame_defineIn :
    (s.defineIn f name value).frame g =
      if f = g ∧ g < s.frames.size then
        { s.frame g with bindings := (s.frame g).bindings.set name value }
      else s.frame g := by
  by_cases hg : g < s.frames.size
  · by_cases hf : f = g
    · subst hf; simp [defineIn, frame, Array.getD, hg, Array.getElem_modify]
    · simp [defineIn, frame, Array.getD, hg, hf, Array.getElem_modify]
  · simp [defineIn, frame, Array.getD, hg]

variable {f g} in
theorem frame_defineIn_of_ne (h : f ≠ g) : (s.defineIn f name value).frame g = s.frame g := by
  simp [frame_defineIn, h]

variable {f} in
theorem frame_defineIn_self (h : f < s.frames.size) :
    (s.defineIn f name value).frame f =
      { s.frame f with bindings := (s.frame f).bindings.set name value } := by
  simp [frame_defineIn, h]

@[simp] theorem parent_defineIn :
    ((s.defineIn f name value).frame g).parent = (s.frame g).parent := by
  rw [frame_defineIn]; split <;> rfl

@[simp] theorem name_defineIn : ((s.defineIn f name value).frame g).name = (s.frame g).name := by
  rw [frame_defineIn]; split <;> rfl

@[simp] theorem parent?_defineIn : (s.defineIn f name value).parent? g = s.parent? g := by
  simp only [parent?, parent_defineIn]

@[simp] theorem chain_defineIn : (s.defineIn f name value).chain g = s.chain g := by
  induction g using Nat.strongRecOn with
  | ind g ih =>
    rw [chain_eq, chain_eq, parent?_defineIn]
    cases s.parent? g with
    | none => rfl
    | some p => simp [ih p.1 p.2]

/-! ## Making a frame -/

variable (parent : Option FrameId)

@[simp] theorem head_newFrame : (s.newFrame name parent).2.head = s.head := rfl

@[simp] theorem globals_newFrame : (s.newFrame name parent).2.globals = s.globals := rfl

@[simp] theorem fst_newFrame : (s.newFrame name parent).1 = s.frames.size := rfl

theorem frame_newFrame_self :
    (s.newFrame name parent).2.frame s.frames.size = { name, parent } := by
  simp [newFrame, frame, Array.getD]

variable {g} in
theorem frame_newFrame_of_lt (h : g < s.frames.size) :
    (s.newFrame name parent).2.frame g = s.frame g := by
  simp [newFrame, frame, Array.getD, h, Nat.lt_succ_of_lt h, Array.getElem_push_lt]

/-! ## Opening and closing -/

@[simp] theorem head_push : (s.push name).head = s.frames.size := rfl

@[simp] theorem globals_push : (s.push name).globals = s.globals := rfl

/-- Closing the frame that was opened last gives the old head back. -/
theorem pop_push : (s.push name).pop = .ok { s.push name with head := s.head } := by
  have hne : ((s.push name).head == (s.push name).globals) = false :=
    beq_eq_false_iff_ne.mpr (Nat.ne_of_gt s.globals_lt)
  have hframe : (s.push name).frame (s.push name).head = { name, parent := some s.head } :=
    s.frame_newFrame_self name (some s.head)
  simp only [pop, hne, hframe]
  rfl

theorem parent_of_pop {s t : Scope α} (h : s.pop = .ok t) :
    ∃ p, (s.frame s.head).parent = some p ∧ t = s.enter p := by
  unfold pop at h
  split at h
  · next p _ hparent =>
    cases h
    exact ⟨p, hparent, rfl⟩
  · cases h

/-! ## Names of the head -/

/-- What the head binds is what a lookup finds. -/
theorem lookup?_of_head {s : Scope α} {name : String} {v : α}
    (h : (s.frame s.head).bindings.get? name = some v) : s.lookup? name = some v := by
  have hbinds : s.bindsIn s.head name = true := by rw [bindsIn, Bindings.contains, h]; rfl
  have howner : s.owner? name = some s.head := by
    rw [owner?, ownerFrom, chain_eq, List.find?_cons, hbinds]
  rw [lookup?, howner]
  exact h

theorem lookup?_define {s : Scope α} (hhead : s.head < s.frames.size) (name : String) (v : α) :
    (s.define name v).lookup? name = some v := by
  refine lookup?_of_head ?_
  rw [define, head_defineIn, frame_defineIn_self s name v hhead]
  exact Bindings.get?_set_self _ _ _

end TreeScript.Scope
