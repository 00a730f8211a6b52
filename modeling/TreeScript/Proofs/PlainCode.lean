import TreeScript.Proofs.Extension

/-!
# Plain code

Literals, names and lists of such are plain code. To evaluate it is to look up the names and to make
the literals and lists anew: nothing that was there becomes different, and the only fault is a name
that is not bound. So whether a value equals that of plain code, or belongs to the class it names,
can be read off the heap before anything is evaluated.
-/

namespace TreeScript

/-- Values of different kinds are not the same value. -/
theorem Heap.beq_eq_false_of_payload {h : Heap} {a b : Ref} {p q : Payload} (ha : h.payload a = p)
    (hb : h.payload b = q) (hpq : p ≠ q) : (a == b) = false := by
  refine beq_eq_false_iff_ne.mpr ?_
  rintro rfl
  exact hpq (ha.symm.trans hb)

namespace Expr

mutual

/-- Literals, names, and lists of plain code. -/
def isPlain : Expr → Bool
  | .number _ _ | .string _ _ | .boolean _ _ | .null _ | .name _ _ => true
  | .list _ items => arePlain items
  | _ => false

def arePlain : List Expr → Bool
  | [] => true
  | e :: es => e.isPlain && arePlain es

end

mutual

/-- How many evaluations of plain code are inside each other. -/
def levels : Expr → Nat
  | .list _ items => levelsAll items + 1
  | _ => 1

def levelsAll : List Expr → Nat
  | [] => 0
  | e :: es => max e.levels (levelsAll es)

end

theorem levels_pos (e : Expr) : 0 < e.levels := by
  cases e with
  | list l items => exact Nat.succ_pos _
  | _ => exact Nat.one_pos

theorem levels_le_levelsAll {e : Expr} : ∀ {es : List Expr}, e ∈ es → e.levels ≤ levelsAll es
  | d :: es, he => by
    rcases List.mem_cons.mp he with rfl | he
    · exact Nat.le_max_left _ _
    · exact Nat.le_trans (levels_le_levelsAll he) (Nat.le_max_right _ _)

theorem arePlain_iff {es : List Expr} : arePlain es = true ↔ ∀ e ∈ es, e.isPlain = true := by
  induction es with
  | nil => simp [arePlain]
  | cons e es ih => simp [arePlain, ih]

section Values

variable (h : Heap) (see : String → Option Ref)

mutual

/-- Whether all names in plain code are bound. -/
def isBound : Expr → Bool
  | .name _ n => (see n).isSome
  | .list _ items => areBound items
  | _ => true

def areBound : List Expr → Bool
  | [] => true
  | e :: es => e.isBound && areBound es

end

mutual

/-- What a value of plain code is like, where names are seen as given. -/
def Denotes : Expr → Ref → Prop
  | .number _ literal, r => h.payload r = .number literal.value
  | .string _ s, r => h.payload r = .string s
  | .boolean _ b, r => h.payload r = .boolean b
  | .null _, r => r < h.objects.size ∧ h.payload r = .null
  | .name _ n, r => see n = some r
  | .list _ es, r => ∃ items, h.payload r = .list items ∧ (∀ i ∈ items, i < r) ∧ DenoteAll es items
  | _, _ => False

def DenoteAll : List Expr → List Ref → Prop
  | [], [] => True
  | e :: es, r :: rs => e.Denotes r ∧ DenoteAll es rs
  | _, _ => False

end

/-- Numbers, texts, truth values and null. -/
def isAtom : Expr → Bool
  | .number _ _ | .string _ _ | .boolean _ _ | .null _ => true
  | _ => false

mutual

/-- Whether the value of plain code equals a value. -/
def equals : Expr → Ref → Bool
  | .number _ literal, v =>
    match h.payload v with
    | .number x => sameNumber literal.value x
    | _ => false
  | .string _ s, v =>
    match h.payload v with
    | .string t => s == t
    | _ => false
  | .boolean _ b, v =>
    match h.payload v with
    | .boolean c => b == c
    | _ => false
  | .null _, v =>
    match h.payload v with
    | .null => true
    | _ => false
  | .name _ n, v => (see n).any (h.same · v)
  | .list _ es, v =>
    match h.payload v with
    | .list items => equalAll es items
    | _ => false
  | _, _ => false

def equalAll : List Expr → List Ref → Bool
  | [], [] => true
  | e :: es, v :: vs => e.equals v && equalAll es vs
  | _, _ => false

end

/-- Whether plain code names a class that a value belongs to. -/
def admits : Expr → Ref → Bool
  | .name _ n, v =>
    (see n).any fun c => (h.class? c).isSome && h.isSubclass (h.classOf v) c
  | _, _ => false

end Values

variable {h k : Heap} {see : String → Option Ref}

/-! ## What there is -/

/-- The value of plain code is there if all that is seen under names is. -/
theorem Denotes.lt_size (hsee : ∀ n v, see n = some v → v < h.objects.size) {e : Expr} {r : Ref}
    (hr : e.Denotes h see r) : r < h.objects.size := by
  have made {p : Payload} (hp : h.payload r = p) (hne : p ≠ .null) : r < h.objects.size :=
    h.lt_of_payload_ne_null (hp ▸ hne)
  cases e with
  | number l literal => exact made hr (by simp)
  | string l s => exact made hr (by simp)
  | boolean l b => exact made hr (by simp)
  | null l => exact hr.1
  | name l n => exact hsee n r hr
  | list l es =>
    obtain ⟨items, hitems, -⟩ := hr
    exact made hitems (by simp)
  | _ => exact hr.elim

theorem DenoteAll.lt_size (hsee : ∀ n v, see n = some v → v < h.objects.size) :
    ∀ {es : List Expr} {rs : List Ref}, DenoteAll h see es rs → ∀ r ∈ rs, r < h.objects.size
  | [], [], _, _, hr => absurd hr List.not_mem_nil
  | _ :: _, _ :: _, hrs, r, hr => by
    rcases List.mem_cons.mp hr with rfl | hr
    · exact hrs.1.lt_size hsee
    · exact hrs.2.lt_size hsee r hr

mutual

/-- New values make no difference to the values of plain code. -/
theorem Denotes.mono (hk : h.ExtendedBy k) (hsee : ∀ n v, see n = some v → v < h.objects.size) :
    ∀ {e : Expr} {r : Ref}, e.Denotes h see r → e.Denotes k see r
  | .list l es, r, hr => by
    have hlt := Denotes.lt_size hsee hr
    obtain ⟨items, hitems, hbefore, hall⟩ := hr
    exact ⟨items, (hk.payload hlt).trans hitems, hbefore, hall.mono hk hsee⟩
  | .name _ _, r, hr => hr
  | .null l, r, hr => ⟨Nat.lt_of_lt_of_le hr.1 hk.size, (hk.payload hr.1).trans hr.2⟩
  | .number l literal, r, hr => (hk.payload (Denotes.lt_size hsee hr)).trans hr
  | .string l s, r, hr => (hk.payload (Denotes.lt_size hsee hr)).trans hr
  | .boolean l b, r, hr => (hk.payload (Denotes.lt_size hsee hr)).trans hr

theorem DenoteAll.mono (hk : h.ExtendedBy k) (hsee : ∀ n v, see n = some v → v < h.objects.size) :
    ∀ {es : List Expr} {rs : List Ref}, DenoteAll h see es rs → DenoteAll k see es rs
  | [], [], _ => trivial
  | _ :: _, _ :: _, hrs => ⟨hrs.1.mono hk hsee, hrs.2.mono hk hsee⟩

end

/-- The value of a number, text, truth value or null is nested in no way. -/
theorem Denotes.reach_of_isAtom {e : Expr} {r : Ref} (hr : e.Denotes h see r)
    (he : e.isAtom = true) : h.reach r = 0 := by
  cases e with
  | number l literal => rw [Heap.reach, show h.payload r = _ from hr, Heap.codeDepth, hr]
  | string l s => rw [Heap.reach, show h.payload r = _ from hr, Heap.codeDepth, hr]
  | boolean l b => rw [Heap.reach, show h.payload r = _ from hr, Heap.codeDepth, hr]
  | null l => rw [Heap.reach, hr.2, Heap.codeDepth, hr.2]
  | _ => contradiction

mutual

/-- Lists in the value of plain code are younger than their items. -/
theorem Denotes.ordered (hsee : ∀ n v, see n = some v → h.Ordered v) :
    ∀ {e : Expr} {r : Ref}, e.Denotes h see r → h.Ordered r
  | .list _ _, r, hr => by
    obtain ⟨items, hitems, hbefore, hall⟩ := hr
    refine .intro (fun items' hitems' i hi => ?_) fun items' hitems' i hi => ?_
    · cases hitems.symm.trans hitems'
      exact hbefore i hi
    · cases hitems.symm.trans hitems'
      exact hall.ordered hsee i hi
  | .name _ n, r, hr => hsee n r hr
  | .number _ _, r, hr => .of_payload hr (by simp)
  | .string _ _, r, hr => .of_payload hr (by simp)
  | .boolean _ _, r, hr => .of_payload hr (by simp)
  | .null _, r, hr => .of_payload hr.2 (by simp)

theorem DenoteAll.ordered (hsee : ∀ n v, see n = some v → h.Ordered v) :
    ∀ {es : List Expr} {rs : List Ref}, DenoteAll h see es rs → ∀ r ∈ rs, h.Ordered r
  | [], [], _, _, hr => absurd hr List.not_mem_nil
  | _ :: _, _ :: _, hrs, r, hr => by
    rcases List.mem_cons.mp hr with rfl | hr
    · exact hrs.1.ordered hsee
    · exact hrs.2.ordered hsee r hr

end

/-! ## Comparing -/

mutual

/-- Comparing a value with that of plain code needs no more than the code. -/
theorem Denotes.same : ∀ {e : Expr} {r : Ref}, e.Denotes h see r → ∀ v,
    h.same r v = e.equals h see v
  | .number l literal, r, hr, v => by
    have hpayload : h.payload r = .number literal.value := hr
    rw [Heap.same, hpayload, equals]
    cases hv : h.payload v with
    | number x => rfl
    | _ => exact Heap.beq_eq_false_of_payload hpayload hv (by simp)
  | .string l s, r, hr, v => by
    have hpayload : h.payload r = .string s := hr
    rw [Heap.same, hpayload, equals]
    cases hv : h.payload v with
    | string t => rfl
    | _ => exact Heap.beq_eq_false_of_payload hpayload hv (by simp)
  | .boolean l b, r, hr, v => by
    have hpayload : h.payload r = .boolean b := hr
    rw [Heap.same, hpayload, equals]
    cases hv : h.payload v with
    | boolean c => rfl
    | _ => exact Heap.beq_eq_false_of_payload hpayload hv (by simp)
  | .null l, r, hr, v => by
    rw [Heap.same, hr.2, equals]
    cases hv : h.payload v with
    | null => rfl
    | _ => exact Heap.beq_eq_false_of_payload hr.2 hv (by simp)
  | .name l n, r, hr, v => by
    have hsee : see n = some r := hr
    rw [equals, hsee, Option.any_some]
  | .list l es, r, hr, v => by
    obtain ⟨items, hitems, hbefore, hall⟩ := hr
    rw [Heap.same, hitems, equals]
    cases hv : h.payload v with
    | list vs => exact hall.same r hbefore vs
    | _ => exact Heap.beq_eq_false_of_payload hitems hv (by simp)

/-- Items are compared one by one. -/
theorem DenoteAll.same : ∀ {es : List Expr} {rs : List Ref}, DenoteAll h see es rs → ∀ (b : Ref),
    (∀ r ∈ rs, r < b) → ∀ vs : List Ref,
      (rs.length == vs.length && (rs.zip vs).all fun p =>
        if _h : p.1 < b then h.same p.1 p.2 else false) = equalAll h see es vs
  | [], [], _, _, _, vs => by cases vs <;> rfl
  | _ :: _, _ :: _, _, _, _, [] => rfl
  | e :: es, r :: rs, hrs, b, hb, v :: vs => by
    have hrest := hrs.2.same b (fun r hr => hb r (List.mem_cons_of_mem _ hr)) vs
    rw [equalAll, ← hrest, ← hrs.1.same v, List.zip_cons_cons, List.all_cons, List.length_cons,
      List.length_cons, dif_pos (hb r List.mem_cons_self), Bool.and_left_comm]
    simp

end

/-- Whether plain code names a class of a value needs no more than the code. -/
theorem Denotes.admits {e : Expr} {r : Ref} (hr : e.Denotes h see r) (v : Ref) :
    ((h.class? r).isSome && h.isSubclass (h.classOf v) r) = e.admits h see v := by
  cases e with
  | name l n =>
    have hsee : see n = some r := hr
    rw [Expr.admits, hsee, Option.any_some]
  | number l literal => rw [Heap.class?, show h.payload r = _ from hr]; rfl
  | string l s => rw [Heap.class?, show h.payload r = _ from hr]; rfl
  | boolean l b => rw [Heap.class?, show h.payload r = _ from hr]; rfl
  | null l => rw [Heap.class?, hr.2]; rfl
  | list l es =>
    obtain ⟨items, hitems, -⟩ := hr
    rw [Heap.class?, hitems]
    rfl
  | _ => exact hr.elim

/-! ## Stores that have gained -/

section Extended

variable {s t : Store}

mutual

theorem equals_extended (hst : s.ExtendedBy t) (hs : s.WellFormed)
    (hsee : ∀ n v, see n = some v → s.Has (.object v)) (e : Expr) {v : Ref}
    (hv : s.Has (.object v)) : e.equals t.heap see v = e.equals s.heap see v := by
  cases e with
  | list l es =>
    rw [equals, equals, hst.heap.payload hv]
    cases hitems : s.heap.payload v with
    | list items =>
      refine equalAll_extended hst hs hsee es fun i hi => hs.closed.payload hv ?_
      rw [hitems]
      exact List.mem_map_of_mem hi
    | _ => rfl
  | name l n =>
    rw [equals, equals]
    cases hn : see n with
    | none => rfl
    | some r => exact hst.same hs (hsee n r hn) hv
  | number l literal => rw [equals, equals, hst.heap.payload hv]
  | string l s => rw [equals, equals, hst.heap.payload hv]
  | boolean l b => rw [equals, equals, hst.heap.payload hv]
  | null l => rw [equals, equals, hst.heap.payload hv]
  | _ => rfl

theorem equalAll_extended (hst : s.ExtendedBy t) (hs : s.WellFormed)
    (hsee : ∀ n v, see n = some v → s.Has (.object v)) (es : List Expr) {vs : List Ref}
    (hvs : ∀ v ∈ vs, s.Has (.object v)) :
    equalAll t.heap see es vs = equalAll s.heap see es vs := by
  cases es with
  | nil => cases vs <;> rfl
  | cons e es =>
    cases vs with
    | nil => rfl
    | cons v vs =>
      rw [equalAll, equalAll, equals_extended hst hs hsee e (hvs v List.mem_cons_self),
        equalAll_extended hst hs hsee es fun v hv => hvs v (List.mem_cons_of_mem _ hv)]

end

theorem admits_extended (hst : s.ExtendedBy t) (hs : s.WellFormed)
    (hsee : ∀ n v, see n = some v → s.Has (.object v)) (e : Expr) {v : Ref}
    (hv : s.Has (.object v)) : e.admits t.heap see v = e.admits s.heap see v := by
  cases e with
  | name l n =>
    rw [Expr.admits, Expr.admits]
    cases hn : see n with
    | none => rfl
    | some c =>
      simp only [Option.any_some, hst.heap.class? (hsee n c hn), hst.isSubclass_classOf hs hv]
  | _ => rfl

end Extended

end Expr

/-! ## Evaluating -/

/-- A computation ends with a value as described if the names that it needs are bound, and else
because one of them is not. -/
def Outcome.EndsIfBound {α : Type} (o : Outcome α) (bound : Bool) (Q : α → Machine → Prop) : Prop :=
  if bound then ∃ a m, o = .done a m ∧ Q a m
  else ∃ n t m, o = .failed (.complaint (.unboundVariable n) t) m

theorem Outcome.EndsIfBound.imp {α : Type} {o : Outcome α} {bound : Bool}
    {Q R : α → Machine → Prop} (h : o.EndsIfBound bound Q) (hQR : ∀ a m, Q a m → R a m) :
    o.EndsIfBound bound R := by
  cases bound with
  | true =>
    obtain ⟨a, m, ho, ha⟩ := h
    exact ⟨a, m, ho, hQR a m ha⟩
  | false => exact h

/-- New values are all that it takes to come by a value as described. -/
def Machine.Gains {α : Type} (m : Machine) (P : Heap → α → Prop) (a : α) (m' : Machine) : Prop :=
  m.ExtendedBy m' ∧ m'.scope = m.scope ∧ P m'.heap a

namespace Run

variable {α β : Type} {m : Machine}

theorem endsIfBound_bind {x : Run α} {f : α → Run β} {b c : Bool} {Q : α → Machine → Prop}
    {R : β → Machine → Prop} (hx : (x m).EndsIfBound b Q)
    (hf : ∀ a m', Q a m' → (f a m').EndsIfBound c R) : ((x >>= f) m).EndsIfBound (b && c) R := by
  cases b with
  | true =>
    obtain ⟨a, m', hdone, ha⟩ := hx
    rw [bind_done hdone, Bool.true_and]
    exact hf a m' ha
  | false =>
    obtain ⟨n, trace, m', hfailed⟩ := hx
    exact ⟨n, trace, m', bind_failed hfailed f⟩

theorem endsIfBound_bind_done {x : Run α} {f : α → Run β} {b : Bool} {Q : α → Machine → Prop}
    {R : β → Machine → Prop} (hx : (x m).EndsIfBound b Q)
    (hf : ∀ a m', Q a m' → ∃ c m'', f a m' = .done c m'' ∧ R c m'') :
    ((x >>= f) m).EndsIfBound b R := by
  have hbind := endsIfBound_bind (c := true) hx hf
  rwa [Bool.and_true] at hbind

theorem evaluateAt_succ (limits : Limits) (nesting : Nat) (e : Expr) (m : Machine) :
    evaluateAt limits (nesting + 1) e m =
      ensuring (evaluateLevel (evaluateAt limits nesting) limits.rounds e)
        (change fun m => { m with active := m.active - 1 })
        { m with calls := m.callsOnEntry, active := m.active + 1, place := e.loc } := rfl

/-- What taking up an expression adds is undone, or is forgotten. -/
theorem endsIfBound_evaluateAt {limits : Limits} {nesting : Nat} {e : Expr} {b : Bool}
    {P : Heap → Ref → Prop}
    (hlevel : ∀ m', m'.store = m.store →
      (evaluateLevel (evaluateAt limits nesting) limits.rounds e m').EndsIfBound b (m'.Gains P)) :
    (evaluateAt limits (nesting + 1) e m).EndsIfBound b (m.Gains P) := by
  have hend := hlevel
    { m with calls := m.callsOnEntry, active := m.active + 1, place := e.loc } rfl
  rw [evaluateAt_succ, ensuring_apply]
  cases b with
  | true =>
    obtain ⟨r, m', hdone, hm', hscope, hr⟩ := hend
    rw [hdone]
    refine ⟨r, _, rfl, ?_, hscope, hr⟩
    exact
      { store := hm'.store
        effects := hm'.effects
        active := Nat.sub_eq_of_eq_add hm'.active
        tracing := hm'.tracing
        traced := hm'.traced
        calls := .inr (hm'.calls.elim id id) }
  | false =>
    obtain ⟨n, trace, m', hfailed⟩ := hend
    rw [hfailed]
    exact ⟨n, trace, _, rfl⟩

/-- How plain code is evaluated where names are seen as given. -/
def EvaluatesPlainly (s : Store) (see : String → Option Ref) (evaluate : Evaluator)
    (e : Expr) : Prop :=
  ∀ m : Machine, m.scope.lookup? = see → s.ExtendedBy m.store →
    (evaluate e m).EndsIfBound (e.isBound see) (m.Gains fun h r => e.Denotes h see r)

section Plain

variable {s : Store} {see : String → Option Ref} (hsee : ∀ n v, see n = some v → s.Has (.object v))

include hsee

theorem endsIfBound_evaluateAll {evaluate : Evaluator} {es : List Expr}
    (heval : ∀ e ∈ es, EvaluatesPlainly s see evaluate e) {m : Machine}
    (hm : m.scope.lookup? = see) (hs : s.ExtendedBy m.store) :
    (evaluateAll evaluate es m).EndsIfBound (Expr.areBound see es)
      (m.Gains fun h rs => Expr.DenoteAll h see es rs) := by
  induction es generalizing m with
  | nil => exact ⟨[], m, rfl, .refl m, rfl, trivial⟩
  | cons e es ih =>
    refine endsIfBound_bind (heval e List.mem_cons_self m hm hs) ?_
    rintro r m₁ ⟨hext₁, hscope₁, hr⟩
    have hs₁ : s.ExtendedBy m₁.store := hs.trans hext₁.store
    have hrest := ih (fun e he => heval e (List.mem_cons_of_mem _ he)) (m := m₁)
      (hscope₁ ▸ hm) hs₁
    refine endsIfBound_bind_done hrest ?_
    rintro rs m₂ ⟨hext₂, hscope₂, hrs⟩
    refine ⟨_, _, rfl, hext₁.trans hext₂, hscope₂.trans hscope₁, ?_, hrs⟩
    exact hr.mono hext₂.store.heap fun n v hv => hs₁.has (hsee n v hv)

/-- Plain code has a value as described if its names are bound; else it fails at one that is not. -/
theorem evaluatesPlainly_evaluateAt (hs : s.WellFormed) (limits : Limits) {nesting : Nat} {e : Expr}
    (hplain : e.isPlain = true) (hlevels : e.levels ≤ nesting) :
    EvaluatesPlainly s see (evaluateAt limits nesting) e := by
  induction nesting generalizing e with
  | zero => exact absurd hlevels (Nat.not_le_of_gt e.levels_pos)
  | succ nesting ih =>
    intro m₀ hm₀ hext₀
    refine endsIfBound_evaluateAt fun m hstore => ?_
    have hext : s.ExtendedBy m.store := hstore ▸ hext₀
    have hm : m.scope.lookup? = see := (congrArg (·.scope.lookup?) hstore).trans hm₀
    cases e with
    | number l literal =>
      exact ⟨_, _, rfl, .alloc m _, rfl, m.heap.payload_alloc_self _⟩
    | string l text => exact ⟨_, _, rfl, .alloc m _, rfl, m.heap.payload_alloc_self _⟩
    | boolean l b => exact ⟨_, m, rfl, .refl m, rfl, hext.truth hs b⟩
    | null l =>
      refine ⟨_, m, rfl, .refl m, rfl, ?_, hext.null hs⟩
      exact Nat.lt_of_lt_of_le Heap.isShared_nullRef (Nat.le_trans hs.shared hext.heap.size)
    | name l n =>
      have hn : m.scope.lookup? n = see n := congrFun hm n
      rw [evaluateLevel, lookup, lookScope_bind, hn, Expr.isBound]
      cases hv : see n with
      | none => exact ⟨n, _, m, rfl⟩
      | some v => exact ⟨v, m, rfl, .refl m, rfl, hv⟩
    | list l es =>
      have heval : ∀ e ∈ es, EvaluatesPlainly s see (evaluateAt limits nesting) e := by
        intro e he
        refine ih (Expr.arePlain_iff.mp hplain e he) ?_
        exact Nat.le_trans (Expr.levels_le_levelsAll he) (Nat.le_of_succ_le_succ hlevels)
      have hitems := endsIfBound_evaluateAll hsee heval hm hext
      refine endsIfBound_bind_done hitems ?_
      rintro rs m₁ ⟨hext₁, hscope₁, hrs⟩
      have hlt := hrs.lt_size fun n v hv => (hext.trans hext₁.store).has (hsee n v hv)
      refine ⟨_, _, rfl, hext₁.trans (.alloc m₁ _), hscope₁, rs, m₁.heap.payload_alloc_self _, hlt,
        ?_⟩
      exact hrs.mono ((Heap.ExtendedBy.refl m₁.heap).add _)
        fun n v hv => (hext.trans hext₁.store).has (hsee n v hv)
    | _ => contradiction

end Plain

end Run

end TreeScript
