import TreeScript.Proofs.Discipline.Evaluation

/-!
# Names appear in the head alone

Assignments, definitions and the matching of parameters bind names. A frame that
exists before an evaluation and is not the head never gains a name, not even one
that a closure has captured and whose call ended long ago: what is visible in it
may be rebound, and all else is bound in the head or in a frame made on the way.
Blocks and calls bind in frames of their own, so under them the head gains no
name either.
-/

namespace TreeScript

/-- No frame loses a name, and only the given ones gain any. -/
structure Scope.GainsNamesIn {α : Type} (gains : FrameId → Prop) (s t : Scope α) : Prop where
  kept : ∀ f < s.frames.size, s.namesIn f <+: t.namesIn f
  same : ∀ f < s.frames.size, ¬ gains f → t.namesIn f = s.namesIn f

namespace Discipline

/-- Names appear in the given frames of a store, and in frames made later. -/
def naming (s₀ : Store) (gains : FrameId → Prop) : Uniform where
  Inv s := s₀.Grows s ∧ s₀.scope.GainsNamesIn gains s.scope
  Holds _ _ := True
  Active _ f := gains f ∨ s₀.scope.frames.size ≤ f
  Draft _ _ := True
  holds_mono _ _ := trivial
  active_mono _ hf := hf
  draft_mono _ _ := trivial
  closed _ _ _ _ _ := trivial
  holds_globals _ := trivial
  holds_shared _ _ := trivial
  holds_active _ _ := trivial
  holds_draft _ _ := trivial
  enter {s} f h :=
    ⟨h.1.trans (s.grows_scope (s.scope.grows_enter f)), ⟨h.2.kept, h.2.same⟩⟩
  newFrame {s parent} name h _ := by
    have hgrows := s.scope.grows_newFrame name (some parent)
    refine ⟨⟨h.1.trans (s.grows_scope hgrows), ?_, ?_⟩, .inr h.1.scope.size⟩
    · exact (h.1.scope.trans hgrows).names
    · intro f hf hgains
      rw [s.scope.namesIn_newFrame_of_lt name _ (Nat.lt_of_lt_of_le hf h.1.scope.size)]
      exact h.2.same f hf hgains
  bind {s f name v} h hf _ := by
    have hgrows := s.scope.grows_defineIn f name v
    refine ⟨h.1.trans (s.grows_scope hgrows), (h.1.scope.trans hgrows).names, ?_⟩
    intro g hg hgains
    refine Eq.trans ?_ (h.2.same g hg hgains)
    rcases hf with hf | ⟨-, hbound⟩
    · -- an active frame gains names or is new, and the old frame in question is neither
      refine s.scope.namesIn_defineIn_of_ne f name v ?_
      intro hfg
      exact (hfg ▸ hf).elim hgains fun hnew => Nat.not_lt_of_ge hnew hg
    · exact s.scope.namesIn_defineIn_of_bindsIn g v hbound
  add {s o} h _ _ := ⟨⟨h.1.trans (s.grows_heap (by simp)), h.2⟩, trivial⟩
  draft _ _ := trivial
  setField {s r v} name h _ _ := ⟨h.1.trans (s.grows_heap (by simp)), h.2⟩
  writeClass {s c v} table name h _ _ := ⟨h.1.trans (s.grows_heap (by simp)), h.2⟩

theorem inv_naming (s : Store) (gains : FrameId → Prop) : (naming s gains).Inv s :=
  ⟨.refl s, fun _ _ => List.prefix_refl _, fun _ _ _ => rfl⟩

end Discipline

/-- However a computation ends, no frame from before has lost a name, and only the given ones have
gained any. -/
def Outcome.GainsNamesIn {α : Type} (gains : FrameId → Prop) (s : Scope Ref) (o : Outcome α) :
    Prop :=
  o.Ends (fun _ m => s.GainsNamesIn gains m.scope) (fun _ m => s.GainsNamesIn gains m.scope)

namespace Run

open Discipline

theorem gainsNames_of_respects {α : Type} {m : Machine} {gains : FrameId → Prop} {o : Outcome α}
    {V : Store → α → Prop} (h : (naming m.store gains).Respects m.store o V) :
    o.GainsNamesIn gains m.scope :=
  h.imp (fun _ _ h => h.1.inv.2) fun _ _ h => h.inv.2

/-- Evaluating an expression, however it ends, adds names to no old frame but the head. Evaluating
a block or a pattern, calling a value and asking whether a value is applicable add names to no old
frame at all. None of them takes a name from a frame. -/
theorem gainsNames_in_head (limits : Limits) (m : Machine) :
    (∀ e, (evaluate limits e m).GainsNamesIn (· = m.scope.head) m.scope) ∧
    (∀ loc body, (evaluate limits (.block loc body) m).GainsNamesIn (fun _ => False) m.scope) ∧
    (∀ p, (evaluatePattern p m).GainsNamesIn (fun _ => False) m.scope) ∧
    (∀ callee args site,
      (call (evaluate limits) callee args site m).GainsNamesIn (fun _ => False) m.scope) ∧
    (∀ callee args,
      (isApplicable? (evaluate limits) callee args m).GainsNamesIn (fun _ => False) m.scope) := by
  have hinv := inv_naming m.store fun _ => False
  have heval : (naming m.store fun _ => False).Evaluates (evaluate limits) :=
    respects_evaluate limits
  refine ⟨?_, ?_, ?_, ?_, ?_⟩
  · intro e
    have hhead := inv_naming m.store (· = m.scope.head)
    exact gainsNames_of_respects ((respects_evaluate limits).run e m ⟨hhead, .inl rfl⟩)
  · intro loc body
    exact gainsNames_of_respects (respects_evaluate_block limits loc body hinv trivial)
  · intro p
    exact gainsNames_of_respects (respects_evaluatePattern p hinv)
  · intro callee args site
    exact gainsNames_of_respects (respects_call heval site hinv trivial fun _ _ => trivial)
  · intro callee args
    exact gainsNames_of_respects (respects_isApplicable? heval hinv trivial fun _ _ => trivial)

end Run

end TreeScript
