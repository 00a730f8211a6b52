import TreeScript.Proofs.Extension
import TreeScript.Proofs.NestedLists
import TreeScript.Proofs.StoredCode

/-!
# Equality as programs see it

In every state that a program passes through, a comparison tells the truth about two values, unless
both of them are nested too deep. Equality is an equivalence; it takes no notice of where
code was written, in which frame a function was made and what it is bound to;
and equal values have the same class, the same displayed form and the same data.

Lists are compared on the stack of the host. So there are equal values, nested one list in another,
that a program can make but not compare.
-/

namespace TreeScript

namespace Run

/-- The operands of an operation have been evaluated, one after the other. -/
def Operands (evaluate : Evaluator) (left right : Expr) (m : Machine) (a b : Ref)
    (m' : Machine) : Prop :=
  ∃ m₁, evaluate left m = .done a m₁ ∧ evaluate right m₁ = .done b m'

variable {evaluate : Evaluator} {left right : Expr} {m m' : Machine} {a b : Ref}

/-- A comparison tells what it finds of its operands, and changes nothing. -/
theorem evaluateLevel_equal (rounds : Nat) (loc : Option Loc)
    (h : Operands evaluate left right m a b m') :
    evaluateLevel evaluate rounds (.operator loc "==" left right) m =
      match m'.heap.same? evaluate.room.compared a b with
      | some same => .done (Heap.ofBool same) m'
      | none => .failed .nestingTooDeep m' := by
  obtain ⟨m₁, hl, hr⟩ := h
  refine (bind_done hl _).trans ((bind_done hr _).trans ?_)
  rw [lookDeep_bind]
  cases m'.heap.same? evaluate.room.compared a b <;> rfl

/-- Joined to a text, a value shows its displayed form, if there is room for it. -/
theorem evaluateLevel_add_string (rounds : Nat) (loc : Option Loc) {text : String}
    (h : Operands evaluate left right m a b m')
    (htext : m'.heap.payload a = .string text ∨ m'.heap.payload b = .string text) :
    evaluateLevel evaluate rounds (.operator loc "+" left right) m =
      match m'.heap.display? evaluate.room.shown a, m'.heap.display? evaluate.room.shown b with
      | some shown, some shown' => alloc (.string (shown ++ shown')) m'
      | _, _ => .failed .nestingTooDeep m' := by
  obtain ⟨m₁, hl, hr⟩ := h
  have hshow : evaluateLevel evaluate rounds (.operator loc "+" left right) m =
      (do alloc (.string ((← display evaluate.room a) ++ (← display evaluate.room b)))) m' := by
    refine (bind_done hl _).trans ((bind_done hr _).trans ?_)
    rw [look_bind]
    rcases htext with ha | hb
    · rw [ha]
    · rw [hb]
      cases m'.heap.payload a <;> rfl
  rw [hshow, display, lookDeep_bind]
  cases m'.heap.display? evaluate.room.shown a with
  | none => rfl
  | some shown =>
    dsimp only
    rw [display, lookDeep_bind]
    cases m'.heap.display? evaluate.room.shown b <;> rfl

end Run

/-- What is equal to a text is that text. -/
theorem Heap.payload_of_same_string {h : Heap} {a b : Ref} {text : String}
    (hab : h.same a b = true) (ha : h.payload a = .string text) : h.payload b = .string text := by
  rw [Heap.same, ha] at hab
  split at hab <;> simp_all

namespace Machine

variable {m : Machine} (hm : m.store.Reached)

/-- Nothing that a program can make of the class, of the displayed form or of the data of a value
tells the two values apart, and where there is room for one there is room for the other. -/
structure ShowsAlike (m : Machine) (a b : Ref) : Prop where
  classOf : m.heap.classOf a = m.heap.classOf b
  display : ∀ room, m.heap.display? room a = m.heap.display? room b
  toData : ∀ room, m.heap.toData? room a = m.heap.toData? room b
  str : ∀ room name, Run.applyIntrinsic room name .str [a] m = Run.applyIntrinsic room name .str [b] m
  print : ∀ room name,
    Run.applyIntrinsic room name .print [a] m = Run.applyIntrinsic room name .print [b] m

include hm

theorem showsAlike_of_same {a b : Ref} (hab : m.heap.same a b = true) : m.ShowsAlike a b := by
  have hshown := Heap.display?_of_same hm.listsOrdered hab
  have hdisplay (room : Room) : Run.display room a m = Run.display room b m :=
    congrArg (fun shown => (Run.lookDeep fun _ => shown) m) (hshown room.shown)
  refine ⟨Heap.classOf_of_same hm.listsOrdered hab, hshown,
    Heap.toData?_of_same hm.listsOrdered hab, fun room name => ?_, fun room name => ?_⟩
  · simp only [Run.applyIntrinsic, Run.bind_apply, hdisplay room]
  · simp only [Run.applyIntrinsic, Run.bind_apply, hdisplay room]

/-- Joined to texts, equal values give the same text. -/
theorem add_of_same {a a' b b' : Ref} {text : String} (ha : m.heap.same a a' = true)
    (hb : m.heap.same b b' = true)
    (htext : m.heap.payload a = .string text ∨ m.heap.payload b = .string text)
    {evaluate : Evaluator} {left right left' right' : Expr} {m₁ m₂ : Machine}
    (h : Run.Operands evaluate left right m₁ a b m)
    (h' : Run.Operands evaluate left' right' m₂ a' b' m) (rounds : Nat) (loc : Option Loc) :
    Run.evaluateLevel evaluate rounds (.operator loc "+" left right) m₁ =
      Run.evaluateLevel evaluate rounds (.operator loc "+" left' right') m₂ := by
  have htext' := htext.imp (Heap.payload_of_same_string ha) (Heap.payload_of_same_string hb)
  rw [Run.evaluateLevel_add_string rounds loc h htext,
    Run.evaluateLevel_add_string rounds loc h' htext', (showsAlike_of_same hm ha).display,
    (showsAlike_of_same hm hb).display]

/-- In every state reached, `==` tells whether two values are equal, and fails only if both of them
are nested deeper than the host can compare. Being equal is an equivalence, which goes by the kinds
of the values and takes no notice of the places of code, of captured frames and of bound values; and
equal values have the same class, the same displayed form, also when they are joined to texts, and
the same data. -/
theorem equality_laws :
    (∀ (evaluate : Evaluator) rounds loc left right m₀ a b,
      Run.Operands evaluate left right m₀ a b m →
      Run.evaluateLevel evaluate rounds (.operator loc "==" left right) m₀ =
          .done (Heap.ofBool (m.heap.same a b)) m ∨
        Run.evaluateLevel evaluate rounds (.operator loc "==" left right) m₀ =
            .failed .nestingTooDeep m ∧
          evaluate.room.compared < m.heap.reach a ∧ evaluate.room.compared < m.heap.reach b) ∧
    (Equivalence fun a b => m.heap.same a b = true) ∧
    (∀ a b, m.heap.same a b = true ↔ m.heap.Agrees a b) ∧
    (∀ (place : Option Loc → Option Loc) (captured : Function → Option FrameId)
        (self super : Function → Option Ref) (a b : Ref),
      (m.heap.mapFunctions fun fn =>
        { fn.revise (.moving place) with
          captured := captured fn, self := self fn, super := super fn }).same a b =
        m.heap.same a b) ∧
    (∀ a b, m.heap.same a b = true → m.ShowsAlike a b) ∧
    (∀ a a' b b' text, m.heap.same a a' = true → m.heap.same b b' = true →
      (m.heap.payload a = .string text ∨ m.heap.payload b = .string text) →
      ∀ evaluate left right left' right' m₁ m₂ rounds loc,
        Run.Operands evaluate left right m₁ a b m →
        Run.Operands evaluate left' right' m₂ a' b' m →
        Run.evaluateLevel evaluate rounds (.operator loc "+" left right) m₁ =
          Run.evaluateLevel evaluate rounds (.operator loc "+" left' right') m₂) := by
  refine ⟨?_, Heap.same_equivalence hm.listsOrdered, Heap.same_iff_agrees hm.listsOrdered, ?_, ?_, ?_⟩
  · intro evaluate rounds loc left right m₀ a b h
    have hsettles : m.heap.Settles evaluate.room.compared a b :=
      (hm.listsOrdered.ordered a).settles (hm.listsOrdered.ordered b) _
    rw [Run.evaluateLevel_equal rounds loc h]
    rcases hsettles with hsome | ⟨hnone, hdeep⟩
    · exact .inl (by rw [hsome])
    · exact .inr ⟨by rw [hnone], hdeep⟩
  · intro place captured self super a b
    exact Heap.same_mapFunctions _
      (fun fn => fn.bare_of_moving place (captured fn) (self fn) (super fn)) a b
  · intro a b hab
    exact showsAlike_of_same hm hab
  · intro a a' b b' text ha hb htext evaluate left right left' right' m₁ m₂ rounds loc h h'
    exact add_of_same hm ha hb htext h h' rounds loc

omit hm in
/-- The two zeros are equal values and have the same data. -/
theorem toData_of_zeros :
    let zeros := ((Heap.initial.alloc (.number 0.0)).2.alloc (.number (-0.0))).2
    let m := { Machine.bare false with heap := zeros }
    m.store.Reached ∧ m.heap.same 11 12 = true ∧
      ∀ room, m.heap.toData? room 11 = m.heap.toData? room 12 := by
  intro zeros m
  have hplaces (s : Store) (x : Float) (p : Place)
      (hp : p ∈ Object.places { payload := .number x }) : s.Has p := nomatch hp
  have hm : m.store.Reached := ((Store.Reached.start false).add (hplaces _ 0.0)).add (hplaces _ (-0.0))
  have hsame : m.heap.same 11 12 = true :=
    ((equality_laws hm).2.2.1 11 12).mpr (.number rfl rfl (.inr ⟨⟨rfl, rfl⟩, ⟨rfl, rfl⟩⟩))
  exact ⟨hm, hsame, ((equality_laws hm).2.2.2.2.1 11 12 hsame).toData⟩

end Machine

/-! ## Values that are too deep to compare -/

/-- Two empty lists, each enclosed in so many more lists. -/
inductive Heap.Twins (h : Heap) : Nat → Ref → Ref → Prop
  | empty {a b : Ref} (ha : h.payload a = .list []) (hb : h.payload b = .list []) (hne : a ≠ b) :
    Twins h 0 a b
  | enclose {n : Nat} {a b i j : Ref} (ha : h.payload a = .list [i]) (hb : h.payload b = .list [j])
    (hne : a ≠ b) (hitems : Twins h n i j) : Twins h (n + 1) a b

namespace Heap

namespace Twins

variable {h : Heap} {n : Nat} {a b : Ref}

theorem ne (hab : h.Twins n a b) : a ≠ b := by
  cases hab <;> assumption

/-- The twins are equal, but a comparison takes more room than there are lists around them. -/
theorem same? (hab : h.Twins n a b) (room : Nat) :
    h.same? room a b = if room ≤ n then none else some true := by
  induction hab generalizing room with
  | empty ha hb hne => cases room <;> simp [Heap.same?, ha, hb, Heap.sameItems?]
  | @enclose n _ _ _ _ ha hb hne hitems ih =>
    cases room with
    | zero => simp [Heap.same?, ha, hb]
    | succ room =>
      rw [Heap.same?, ha, hb]
      simp only [List.length_singleton, if_true, Heap.sameItems?, if_neg hitems.ne, ih room,
        Nat.add_le_add_iff_right]
      by_cases hroom : room ≤ n <;> simp [hroom]

theorem same (hab : h.Twins n a b) (hh : h.ListsOrdered) : h.same a b = true := by
  have hsame : h.same? (n + 1) a b = some true := by simp [hab.same?]
  rcases (hh.ordered a).settles (hh.ordered b) (n + 1) with hsome | ⟨hnone, -⟩
  · exact Option.some.inj (hsome.symm.trans hsame)
  · cases hnone.symm.trans hsame

end Twins

/-- Two lists that are made one after the other, with as many lists in them. -/
theorem twins_nest (h : Heap) (n : Nat) :
    ((h.nest n).nest n).Twins n (h.objects.size + n) ((h.nest n).objects.size + n) := by
  have hold {k : Nat} (hk : k ≤ n) : h.objects.size + k < (h.nest n).objects.size := by
    rw [size_nest]
    exact Nat.lt_succ_of_le (Nat.add_le_add_left hk _)
  have hne (k : Nat) : h.objects.size + k ≠ (h.nest n).objects.size + k := by
    rw [size_nest]
    omega
  have hlevel (k : Nat) (hk : k ≤ n) :
      ((h.nest n).nest n).Twins k (h.objects.size + k) ((h.nest n).objects.size + k) := by
    induction k with
    | zero =>
      refine .empty ?_ (payload_nest_innermost n) (hne 0)
      exact (payload_nest_of_lt n (hold hk)).trans (payload_nest_innermost n)
    | succ k ih =>
      refine .enclose ?_ (payload_nest_enclosing hk) (hne _) (ih (Nat.le_of_succ_le hk))
      exact (payload_nest_of_lt n (hold hk)).trans (payload_nest_enclosing hk)
  exact hlevel n (Nat.le_refl n)

end Heap

/-- However much room there is for comparisons, in some state that programs reach two values are
equal, and `==` fails on them. -/
theorem Machine.equal_too_deep (evaluate : Evaluator) :
    ∃ (m : Machine) (a b : Ref), m.store.Reached ∧ m.heap.same a b = true ∧
      ∀ rounds loc left right m₀, Run.Operands evaluate left right m₀ a b m →
        Run.evaluateLevel evaluate rounds (.operator loc "==" left right) m₀ =
          .failed .nestingTooDeep m := by
  let n := evaluate.room.compared
  let m := { Machine.bare false with heap := (Heap.initial.nest n).nest n }
  have hm : m.store.Reached := ((Store.Reached.start false).nest n).nest n
  have htwins := Heap.twins_nest Heap.initial n
  refine ⟨m, _, _, hm, htwins.same hm.listsOrdered, ?_⟩
  intro rounds loc left right m₀ h
  rw [Run.evaluateLevel_equal rounds loc h, htwins.same?, if_pos (Nat.le_refl _)]

end TreeScript
