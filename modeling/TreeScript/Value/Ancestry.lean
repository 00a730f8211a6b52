import TreeScript.Value.Heap

/-!
# Ancestry

A class is followed by its superclasses, each older than the one before, so the
ancestry ends and names no class twice. The ancestry of an ancestor is the rest
of the list from there on.
-/

namespace TreeScript.Heap

variable (h : Heap)

theorem ancestry_eq (c : Ref) :
    h.ancestry c = c :: ((h.superclass? c).map fun s => h.ancestry s.1).getD [] := by
  rw [ancestry]
  cases hs : h.superclass? c with
  | none => simp
  | some s => obtain ⟨s, hs⟩ := s; simp

variable {h} in
theorem payload_of_class? {c : Ref} {info : ClassInfo} (hinfo : h.class? c = some info) :
    h.payload c = .classObject info := by
  unfold class? at hinfo
  split at hinfo <;> cases hinfo
  assumption

variable {h} in
theorem superclass_of_superclass? {c : Ref} {s : { s : Ref // s < c }}
    (hs : h.superclass? c = some s) : (h.class? c).bind (·.superclass) = some s.1 := by
  unfold superclass? at hs
  split at hs
  · split at hs <;> cases hs
    assumption
  · cases hs

theorem self_mem_ancestry (c : Ref) : c ∈ h.ancestry c := by
  rw [ancestry_eq]; exact List.mem_cons_self

theorem le_of_mem_ancestry {c d : Ref} (hd : d ∈ h.ancestry c) : d ≤ c := by
  induction c using Nat.strongRecOn with
  | ind c ih =>
    rw [ancestry] at hd
    split at hd
    · next s hs _ =>
      rcases List.mem_cons.mp hd with rfl | hd
      · exact Nat.le_refl _
      · exact Nat.le_of_lt (Nat.lt_of_le_of_lt (ih s hs hd) hs)
    · exact Nat.le_of_eq (List.mem_singleton.mp hd)

/-- Every class is younger than all its superclasses. -/
theorem ancestry_pairwise (c : Ref) : (h.ancestry c).Pairwise (· > ·) := by
  induction c using Nat.strongRecOn with
  | ind c ih =>
    rw [ancestry]
    split
    · next s hs _ =>
      refine List.pairwise_cons.mpr ⟨fun d hd => ?_, ih s hs⟩
      exact Nat.lt_of_le_of_lt (h.le_of_mem_ancestry hd) hs
    · exact List.pairwise_singleton _ _

theorem nodup_ancestry (c : Ref) : (h.ancestry c).Nodup :=
  (h.ancestry_pairwise c).imp fun hd => Nat.ne_of_gt hd

theorem ancestry_suffix {c d : Ref} (hd : d ∈ h.ancestry c) : h.ancestry d <:+ h.ancestry c := by
  induction c using Nat.strongRecOn with
  | ind c ih =>
    rw [ancestry] at hd
    split at hd
    · next s hs hsup =>
      rcases List.mem_cons.mp hd with rfl | hd
      · exact List.suffix_refl _
      · have hc : h.ancestry c = c :: h.ancestry s := by simp [ancestry_eq h c, hsup]
        exact hc ▸ (ih s hs hd).trans (List.suffix_cons c _)
    · exact List.mem_singleton.mp hd ▸ List.suffix_refl _

variable {h} in
/-- Ancestries are the same where classes are. -/
theorem ancestry_congr {k : Heap} {c : Ref}
    (hk : ∀ d ∈ h.ancestry c, k.class? d = h.class? d) : k.ancestry c = h.ancestry c := by
  induction c using Nat.strongRecOn with
  | ind c ih =>
    have hsuper : k.superclass? c = h.superclass? c := by
      simp only [superclass?, hk c (h.self_mem_ancestry c)]
    rw [ancestry_eq k, ancestry_eq h, hsuper]
    cases hs : h.superclass? c with
    | none => rfl
    | some s =>
      have hrest : h.ancestry c = c :: h.ancestry s.1 := by simp [ancestry_eq h c, hs]
      have hsup := ih s.1 s.2 fun d hd => hk d (hrest ▸ List.mem_cons_of_mem c hd)
      simp [hsup]

end TreeScript.Heap
