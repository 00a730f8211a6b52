import TreeScript.Proofs.Drafts

/-!
# Values last

Programs write fields and bind names, and that is all that becomes different of
what there was: a list keeps its items, a function its code and what it is bound
to, an overload set its functions, a class its superclass and its tables. To
bind a method or to define a function again is to make new values.

A class is the one value that is made in steps. Until its whole body has been
evaluated it is hidden, whatever code runs in the body, and a class whose body
fails stays hidden for good.
-/

namespace TreeScript

namespace Store

/-- All that was there is there still, and every value is what it was. Fields and bindings may
differ. -/
structure KeepsValues (s t : Store) : Prop where
  grows : s.Grows t
  payload : ∀ r, s.Has (.object r) → t.heap.payload r = s.heap.payload r

namespace KeepsValues

variable {s t u : Store}

theorem refl (s : Store) : s.KeepsValues s := ⟨.refl s, fun _ _ => rfl⟩

theorem trans (hst : s.KeepsValues t) (htu : t.KeepsValues u) : s.KeepsValues u where
  grows := hst.grows.trans htu.grows
  payload r hr := (htu.payload r (hr.of_grows hst.grows)).trans (hst.payload r hr)

/-- Changes of the scope leave the values alone. -/
theorem scope (h : s.KeepsValues t) {scope : Scope Ref} (hscope : t.scope.Grows scope) :
    s.KeepsValues { t with scope } :=
  h.trans ⟨t.grows_scope hscope, fun _ _ => rfl⟩

theorem add (h : s.KeepsValues t) (o : Object) :
    s.KeepsValues { t with heap := (t.heap.add o).2 } := by
  exact h.trans ⟨t.grows_heap (by simp), fun r hr => t.heap.payload_add_of_lt o hr⟩

theorem setField (h : s.KeepsValues t) (r : Ref) (name : String) (v : Ref) :
    s.KeepsValues { t with heap := t.heap.setField r name v } :=
  h.trans ⟨t.grows_heap (by simp), fun u _ => t.heap.payload_setField r u name v⟩

/-- A class that was not there at first may still change. -/
theorem updateClass (h : s.KeepsValues t) {c : Ref} (hc : ¬ s.Has (.object c))
    (f : ClassInfo → ClassInfo) : s.KeepsValues { t with heap := t.heap.updateClass c f } where
  grows := h.grows.trans (t.grows_heap (by simp))
  payload r hr := by
    have hne : c ≠ r := fun hcr => hc (hcr ▸ hr)
    refine Eq.trans ?_ (h.payload r hr)
    exact t.heap.payload_updateClass_of_ne f hne

end KeepsValues

end Store

open Store

namespace Discipline

/-- The values of a store last, and only classes that are made later are defined. -/
def keeping (s₀ : Store) : Uniform where
  Inv := s₀.KeepsValues
  Holds _ _ := True
  Active _ _ := True
  Draft _ c := ¬ s₀.Has (.object c)
  holds_mono _ _ := trivial
  active_mono _ _ := trivial
  draft_mono _ hc := hc
  closed _ _ _ _ _ := trivial
  holds_globals _ := trivial
  holds_shared _ _ := trivial
  holds_active _ _ := trivial
  holds_draft _ _ := trivial
  enter {s} f h := h.scope (s.scope.grows_enter f)
  newFrame {s parent} name h _ := ⟨h.scope (s.scope.grows_newFrame name (some parent)), trivial⟩
  bind {s f name v} h _ _ := h.scope (s.scope.grows_defineIn f name v)
  add {_ o} h _ _ := ⟨h.add o, trivial⟩
  draft h _ := Nat.not_lt_of_ge h.grows.objects
  setField {_ r v} name h _ _ := h.setField r name v
  writeClass _ _ h hc _ := h.updateClass hc _

/-- Programs hold what is free, and the classes under definition are hidden. -/
def drafting : Stages := Defines.drafting.stages

end Discipline

/-- However a computation ends, every value that there was is what it was. -/
def Outcome.KeepsValues {α : Type} (s : Store) (o : Outcome α) : Prop :=
  o.Ends (fun _ m => s.KeepsValues m.store) (fun _ m => s.KeepsValues m.store)

/-- However a computation ends, the object is hidden. -/
def Outcome.Hides {α : Type} (c : Ref) (o : Outcome α) : Prop :=
  o.Ends (fun _ m => m.store.Hides c) (fun _ m => m.store.Hides c)

/-- The machine with a class that has a name and a superclass, and nothing else so far. -/
def Machine.withClass (m : Machine) (name : String) (parent : Ref) : Machine :=
  { m with heap := (m.heap.alloc (.classObject { name, superclass := some parent })).2 }

namespace Run

open Discipline

theorem keepsValues_of_respects {α : Type} {m : Machine} {o : Outcome α} {V : Store → α → Prop}
    (h : (keeping m.store).Respects m.store o V) : o.KeepsValues m.store :=
  h.imp (fun _ _ h => h.1.inv) fun _ _ h => h.inv

theorem evaluateAt_keepsValues (limits : Limits) (nesting : Nat) (e : Expr) (m : Machine) :
    (evaluateAt limits nesting e m).KeepsValues m.store :=
  keepsValues_of_respects
    (((keeping m.store).stages.respects_evaluateAt nesting []).run e m ⟨.refl m.store, trivial⟩)

section Classes

variable {m : Machine}

theorem ready_drafting {cs : List Ref} (hm : m.store.Defines cs)
    (hhead : m.store.Has (.frame m.scope.head)) : (drafting.stage cs).Ready m.store :=
  ⟨hm, hhead⟩

/-- What is hidden stays hidden, and is never the value of an expression. -/
theorem hides_evaluate (limits : Limits) (hm : m.store.Intact)
    (hhead : m.store.Has (.frame m.scope.head)) {c : Ref} (hhas : m.store.Has (.object c))
    (hshared : ¬ Heap.IsShared c) (hc : m.store.Hides c) (e : Expr) :
    (evaluate limits e m).Ends (fun v m' => v ≠ c ∧ m'.store.Hides c)
      (fun _ m' => m'.store.Hides c) := by
  have hready := ready_drafting (hm.defines hhas hshared hc) hhead
  refine ((drafting.respects_evaluate limits [c]).run e m hready).imp ?_ ?_
  · rintro v m' ⟨hfollows, hv⟩
    refine ⟨?_, hfollows.inv.hides List.mem_cons_self⟩
    rintro rfl
    exact hv.2 v List.mem_cons_self rfl
  · intro e m' h
    exact h.inv.hides List.mem_cons_self

variable {evaluate : Evaluator} (heval : ∀ cs, (drafting.stage cs).Evaluates evaluate)
  {m₁ : Machine} {parent : Ref} {superclass : Option Expr}

include heval

/-- The members of a class are evaluated, however many there are, while the class is hidden. -/
theorem hides_classBody (name : String) (members : List Expr)
    (hm : (drafting.stage []).Ready m.store)
    (hsuper : evaluateSuperclass evaluate superclass m = .done parent m₁) :
    (inNewFrame name (defineMembers evaluate m₁.heap.objects.size members)
      (m₁.withClass name parent)).Hides m₁.heap.objects.size := by
  have hend := respects_evaluateSuperclass (heval []) superclass hm
  rw [hsuper] at hend
  obtain ⟨hfollows, hparent, hclass⟩ := hend
  obtain ⟨hinv, hdraft, hactive⟩ := drafting.begins name hfollows.inv hparent hclass
  have hm₂ : (drafting.stage [m₁.heap.objects.size]).Ready (m₁.withClass name parent).store :=
    ⟨hinv, hactive _ (hfollows.ready hm).active⟩
  refine (drafting.respects_classBody heval name members hm₂ hdraft).imp ?_ ?_
  · exact fun _ _ h => h.1.inv.hides List.mem_cons_self
  · exact fun _ _ h => h.inv.hides List.mem_cons_self

/-- A class is bound to its name, and given back, after its whole body. -/
theorem hides_evaluateClass (name : String) (body : List Expr)
    (hm : (drafting.stage []).Ready m.store)
    (hsuper : evaluateSuperclass evaluate superclass m = .done parent m₁) :
    (evaluateClass evaluate name superclass body m).Ends
      (fun v m' => v = m₁.heap.objects.size ∧ ∃ m₂,
        inNewFrame name (defineMembers evaluate v body) (m₁.withClass name parent) = .done () m₂ ∧
        m₂.store.Hides v ∧ m' = { m₂ with scope := m₂.scope.define name v })
      (fun _ m' => m'.store.Hides m₁.heap.objects.size) := by
  have hbody := hides_classBody heval name body hm hsuper
  -- once the superclass is known, the class is the next object to be made
  have hdefinition : evaluateClass evaluate name superclass body m =
      (inNewFrame name (defineMembers evaluate m₁.heap.objects.size body) >>= fun _ => do
        changeScope (·.define name m₁.heap.objects.size)
        return m₁.heap.objects.size : Run Ref) (m₁.withClass name parent) :=
    bind_done hsuper _
  rw [hdefinition]
  cases hrun : inNewFrame name (defineMembers evaluate m₁.heap.objects.size body)
      (m₁.withClass name parent) with
  | done u m₂ =>
    rw [hrun] at hbody
    rw [bind_done hrun]
    exact ⟨rfl, m₂, hrun, hbody, rfl⟩
  | failed e m₂ =>
    rw [hrun] at hbody
    rw [bind_failed hrun]
    exact hbody
  | exhausted =>
    rw [bind_exhausted hrun]
    trivial

end Classes

/-- However the evaluation of an expression ends, or that of a pattern, or a call, or the question
whether a value is applicable, every value that there was is what it was. In an intact store, what is
hidden stays hidden and is never a value; a class is hidden in its body, member after member; it is
the value of its definition, and bound, after the whole body has been evaluated, and is hidden if the
body fails. -/
theorem keepsValues_evaluate (limits : Limits) (m : Machine) :
    (∀ e, (evaluate limits e m).KeepsValues m.store) ∧
    (∀ p, (evaluatePattern p m).KeepsValues m.store) ∧
    (∀ callee args site,
      (call (evaluate limits) callee args site m).KeepsValues m.store) ∧
    (∀ callee args,
      (isApplicable? (evaluate limits) callee args m).KeepsValues m.store) ∧
    (m.store.Intact → m.store.Has (.frame m.scope.head) →
      (∀ c, m.store.Has (.object c) → ¬ Heap.IsShared c → m.store.Hides c → ∀ e,
        (evaluate limits e m).Ends (fun v m' => v ≠ c ∧ m'.store.Hides c)
          (fun _ m' => m'.store.Hides c)) ∧
      ∀ name superclass body parent m₁,
        evaluateSuperclass (evaluate limits) superclass m = .done parent m₁ →
        (∀ members, members <+: body →
          (inNewFrame name (defineMembers (evaluate limits) m₁.heap.objects.size members)
            (m₁.withClass name parent)).Hides m₁.heap.objects.size) ∧
        (evaluateClass (evaluate limits) name superclass body m).Ends
          (fun v m' => v = m₁.heap.objects.size ∧ ∃ m₂,
            inNewFrame name (defineMembers (evaluate limits) v body) (m₁.withClass name parent) =
              .done () m₂ ∧
            m₂.store.Hides v ∧ m' = { m₂ with scope := m₂.scope.define name v })
          (fun _ m' => m'.store.Hides m₁.heap.objects.size)) := by
  have hinv : (keeping m.store).Inv m.store := .refl m.store
  have heval : (keeping m.store).Evaluates (evaluate limits) := respects_evaluate limits
  refine ⟨?_, ?_, ?_, ?_, ?_⟩
  · intro e
    exact evaluateAt_keepsValues limits limits.nesting e m
  · intro p
    exact keepsValues_of_respects (respects_evaluatePattern p hinv)
  · intro callee args site
    exact keepsValues_of_respects (respects_call heval site hinv trivial fun _ _ => trivial)
  · intro callee args
    exact keepsValues_of_respects
      (respects_isApplicable? heval hinv trivial fun _ _ => trivial)
  · intro hm hhead
    have hready := ready_drafting hm.defines_nil hhead
    have hdrafting := drafting.respects_evaluate limits
    refine ⟨?_, ?_⟩
    · intro c hhas hshared hc e
      exact hides_evaluate limits hm hhead hhas hshared hc e
    · intro name superclass body parent m₁ hsuper
      refine ⟨?_, hides_evaluateClass hdrafting name body hready hsuper⟩
      intro members _
      exact hides_classBody hdrafting name members hready hsuper

/-- A class whose second member fails is hidden afterwards, though it has the default that its first
member gave it. -/
theorem hides_failedClass :
    let body : List Expr :=
      [.assign none (.name none "a") (.null none), .assign none (.null none) (.null none)]
    let o := evaluateClass (evaluate .standard) "C" none body (Machine.bare false)
    ∃ m', o = .failed (.complaint .invalidTarget []) m' ∧
      m'.heap.defaultOf? 11 "a" = some Heap.nullRef ∧ m'.store.Hides 11 := by
  intro body o
  have hclass := (((keepsValues_evaluate .standard (Machine.bare false)).2.2.2.2 (intact_bare false)
    (by decide)).2 "C" none body BuiltinClass.object.ref (Machine.bare false) rfl).2
  refine ⟨_, rfl, rfl, hclass⟩

end Run

end TreeScript
