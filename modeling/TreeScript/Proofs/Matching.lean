import TreeScript.Proofs.PlainCode

/-!
# Matching plain patterns

A pattern is plain if all the code in it is. Whether plain patterns accept arguments, and under
which names, can be worked out from the heap and the scope as they are before: to match on the
machine is to come to that verdict, and makes nothing but a frame and new values. An argument that
is rejected late, when names have been bound already, leaves no more behind than one that is
rejected at once.
-/

namespace TreeScript

/-- How arguments are matched: they are accepted and bound to names, or rejected, or a name that the
code of a pattern needs is not bound. -/
inductive Verdict where
  | accepted (bindings : Bindings Ref)
  | rejected
  | unbound

/-- What comes after is matched only if this is accepted. -/
def Verdict.andThen (verdict : Verdict) (next : Bindings Ref → Verdict) : Verdict :=
  match verdict with
  | .accepted b => next b
  | .rejected => .rejected
  | .unbound => .unbound

/-- What code sees in a frame with these bindings, given what is seen from around it. -/
def Bindings.over (b : Bindings Ref) (outer : String → Option Ref) (name : String) : Option Ref :=
  (b.get? name).or (outer name)

theorem Verdict.accepted_of_andThen {verdict : Verdict} {next : Bindings Ref → Verdict}
    {b : Bindings Ref} (h : verdict.andThen next = .accepted b) :
    ∃ b₁, verdict = .accepted b₁ ∧ next b₁ = .accepted b := by
  cases verdict with
  | accepted b₁ => exact ⟨b₁, rfl, h⟩
  | rejected => contradiction
  | unbound => contradiction

theorem Bindings.merge_append {α : Type} (b : Bindings α) (xs ys : List (String × α)) :
    b.merge ⟨xs ++ ys⟩ = (b.merge ⟨xs⟩).merge ⟨ys⟩ :=
  List.foldl_append

/-- Of several entries under a name the last one counts. -/
theorem Bindings.get?_merge {α : Type} (b : Bindings α) (entries : List (String × α))
    (name : String) :
    (b.merge ⟨entries⟩).get? name = (entries.reverse.lookup name).or (b.get? name) := by
  induction entries generalizing b with
  | nil => rfl
  | cons entry rest ih =>
    refine (ih (b.set entry.1 entry.2)).trans ?_
    rw [List.reverse_cons, List.lookup_append, Bindings.get?_set, List.lookup_cons]
    cases rest.reverse.lookup name with
    | some v => rfl
    | none => by_cases h : name = entry.1 <;> simp [h, beq_eq_false_iff_ne.mpr]

theorem Bindings.get?_empty_merge {α : Type} (entries : List (String × α)) (name : String) :
    (Bindings.empty.merge ⟨entries⟩).get? name = entries.reverse.lookup name := by
  rw [get?_merge, get?_empty, Option.or_none]

theorem Bindings.contains_empty_merge {α : Type} (entries : List (String × α)) (name : String) :
    (Bindings.empty.merge ⟨entries⟩).contains name = true ↔ name ∈ entries.map Prod.fst := by
  rw [contains, get?_empty_merge, List.lookup_isSome_iff, List.mem_map]
  refine exists_congr fun entry => and_congr List.mem_reverse ?_
  rw [beq_iff_eq, eq_comm]

namespace Pattern

mutual

/-- Plain patterns hold plain code. -/
def isPlain : Pattern → Bool
  | .wildcard _ | .name _ _ => true
  | .literal _ e => e.isPlain
  | .typed _ _ c => c.isPlain
  | .list _ ps => arePlain ps

def arePlain : List Pattern → Bool
  | [] => true
  | p :: ps => p.isPlain && arePlain ps

end

mutual

/-- How many evaluations are inside each other when a plain pattern is matched. -/
def levels : Pattern → Nat
  | .wildcard _ | .name _ _ => 0
  | .literal _ e => e.levels
  | .typed _ _ c => c.levels
  | .list _ ps => levelsAll ps

def levelsAll : List Pattern → Nat
  | [] => 0
  | p :: ps => max p.levels (levelsAll ps)

end

mutual

/-- What a pattern compares with a value of code is not nested deeper than there is room for, unless
the code is a number, a text, a truth value or null. -/
def Comparable (h : Heap) (room : Nat) : Pattern → Ref → Prop
  | .literal _ e, v => e.isAtom = true ∨ h.reach v ≤ room
  | .list _ ps, v =>
    match h.payload v with
    | .list items => ComparableAll h room ps items
    | _ => True
  | _, _ => True

def ComparableAll (h : Heap) (room : Nat) : List Pattern → List Ref → Prop
  | p :: ps, v :: vs => p.Comparable h room v ∧ ComparableAll h room ps vs
  | _, _ => True

end

section Verdicts

variable (h : Heap) (outer : String → Option Ref)

mutual

/-- How a pattern matches a value in a frame with some bindings. -/
def verdict : Pattern → Ref → Bindings Ref → Verdict
  | .wildcard _, _, b => .accepted b
  | .name _ n, v, b => .accepted (b.set n v)
  | .literal _ e, v, b =>
    if e.isBound (b.over outer) then
      if e.equals h (b.over outer) v then .accepted b else .rejected
    else .unbound
  | .typed _ n c, v, b =>
    if c.isBound (b.over outer) then
      if c.admits h (b.over outer) v then .accepted (b.set n v) else .rejected
    else .unbound
  | .list _ ps, v, b =>
    match h.payload v with
    | .list items => if items.length = ps.length then verdictAll ps items b else .rejected
    | _ => .rejected

/-- How patterns match values one by one. -/
def verdictAll : List Pattern → List Ref → Bindings Ref → Verdict
  | p :: ps, v :: vs, b => (p.verdict v b).andThen (verdictAll ps vs)
  | _, _, b => .accepted b

end

mutual

/-- The names in a pattern, from left to right, each with the part of a value at its position. -/
def parts : Pattern → Ref → List (String × Ref)
  | .wildcard _, _ | .literal _ _, _ => []
  | .name _ n, v | .typed _ n _, v => [(n, v)]
  | .list _ ps, v =>
    match h.payload v with
    | .list items => partsAll ps items
    | _ => []

def partsAll : List Pattern → List Ref → List (String × Ref)
  | p :: ps, v :: vs => p.parts v ++ partsAll ps vs
  | _, _ => []

end

end Verdicts

variable {h : Heap} {outer : String → Option Ref}

mutual

/-- What is bound in the end are the parts of the arguments, over what was bound before. -/
theorem bindings_of_verdict : ∀ (p : Pattern) {v : Ref} {b b' : Bindings Ref},
    p.verdict h outer v b = .accepted b' → b' = b.merge ⟨p.parts h v⟩
  | .wildcard _, _, _, _, hb => (Verdict.accepted.inj hb).symm
  | .name _ n, _, _, _, hb => (Verdict.accepted.inj hb).symm
  | .literal _ e, v, b, b', hb => by
    rw [verdict] at hb
    split at hb
    · split at hb
      · exact (Verdict.accepted.inj hb).symm
      · contradiction
    · contradiction
  | .typed _ n c, v, b, b', hb => by
    rw [verdict] at hb
    split at hb
    · split at hb
      · exact (Verdict.accepted.inj hb).symm
      · contradiction
    · contradiction
  | .list _ ps, v, b, b', hb => by
    rw [verdict] at hb
    rw [parts]
    cases hv : h.payload v with
    | list items =>
      rw [hv] at hb
      dsimp only at hb
      split at hb
      · exact bindings_of_verdictAll ps hb
      · contradiction
    | _ =>
      rw [hv] at hb
      contradiction

theorem bindings_of_verdictAll : ∀ (ps : List Pattern) {vs : List Ref} {b b' : Bindings Ref},
    verdictAll h outer ps vs b = .accepted b' → b' = b.merge ⟨partsAll h ps vs⟩
  | [], _, _, _, hb => (Verdict.accepted.inj hb).symm
  | _ :: _, [], _, _, hb => (Verdict.accepted.inj hb).symm
  | p :: ps, v :: vs, b, b', hb => by
    obtain ⟨b₁, hfirst, hrest⟩ := Verdict.accepted_of_andThen hb
    rw [bindings_of_verdictAll ps hrest, bindings_of_verdict p hfirst, partsAll,
      Bindings.merge_append]

end

end Pattern

/-! ## In the middle of a match -/

/-- A new frame is at the head and binds some names; apart from it, only new frames and values are
different. -/
structure Machine.Matching (m : Machine) (f : FrameId) (name : String) (parent : FrameId)
    (b : Bindings Ref) (m' : Machine) : Prop where
  extended : m.ExtendedBy m'
  new : m.scope.frames.size ≤ f
  made : f < m'.scope.frames.size
  head : m'.scope.head = f
  frame : m'.scope.frame f = { name, parent := some parent, bindings := b }
  held : ∀ n v, b.get? n = some v → m.store.Has (.object v)

namespace Machine.Matching

variable {m m' m'' : Machine} {f parent : FrameId} {name : String} {b : Bindings Ref}

theorem lookup? (h : m.Matching f name parent b m') (hparent : m.store.Has (.frame parent)) :
    m'.scope.lookup? = b.over (m.scope.enter parent).lookup? := by
  funext n
  have hbelow : (m'.scope.frame m'.scope.head).parent = some parent := by rw [h.head, h.frame]
  have hlt : parent < m'.scope.head := h.head ▸ Nat.lt_of_lt_of_le hparent h.new
  refine (Scope.lookup?_of_parent hbelow hlt n).trans ?_
  rw [h.head, h.frame]
  exact congrArg (b.get? n).or (h.extended.store.scope.lookup? hparent n)

theorem gain {α : Type} {P : Heap → α → Prop} {a : α} (h : m.Matching f name parent b m')
    (hgain : m'.Gains P a m'') : m.Matching f name parent b m'' where
  extended := h.extended.trans hgain.1
  new := h.new
  made := hgain.2.1 ▸ h.made
  head := hgain.2.1 ▸ h.head
  frame := hgain.2.1 ▸ h.frame
  held := h.held

/-- A name is bound to what was there before. -/
theorem bind (h : m.Matching f name parent b m') (n : String) {v : Ref}
    (hv : m.store.Has (.object v)) : m.Matching f name parent (b.set n v)
      { m' with scope := m'.scope.defineIn f n v } where
  extended := h.extended.withScope (h.extended.store.scope.defineIn h.new n v)
  new := h.new
  made := by simpa using h.made
  head := h.head
  frame := by rw [Scope.frame_defineIn_self _ _ _ h.made, h.frame]
  held n' v' hv' := by
    rw [Bindings.get?_set] at hv'
    split at hv'
    · exact Option.some.inj hv' ▸ hv
    · exact h.held n' v' hv'

end Machine.Matching

/-- A match on the machine comes to a verdict. -/
def Outcome.Shows (o : Outcome Bool) (R : Bindings Ref → Machine → Prop) : Verdict → Prop
  | .accepted b => ∃ m, o = .done true m ∧ R b m
  | .rejected => ∃ b m, o = .done false m ∧ R b m
  | .unbound => ∃ n t m, o = .failed (.complaint (.unboundVariable n) t) m

namespace Run

theorem shows_bind_ifBound {α : Type} {x : Run α} {k : α → Run Bool} {m : Machine} {bound : Bool}
    {Q : α → Machine → Prop} {R : Bindings Ref → Machine → Prop} {verdict : Verdict}
    (hx : (x m).EndsIfBound bound Q) (hk : ∀ a m', Q a m' → (k a m').Shows R verdict) :
    ((x >>= k) m).Shows R (if bound then verdict else .unbound) := by
  cases bound with
  | true =>
    obtain ⟨a, m', hdone, ha⟩ := hx
    rw [bind_done hdone, if_pos rfl]
    exact hk a m' ha
  | false =>
    obtain ⟨n, trace, m', hfailed⟩ := hx
    exact ⟨n, trace, m', bind_failed hfailed k⟩

/-- After a rejection nothing more is matched. -/
theorem shows_bind_andThen {x rest : Run Bool} {m : Machine} {R : Bindings Ref → Machine → Prop}
    {verdict : Verdict} {next : Bindings Ref → Verdict} (hx : (x m).Shows R verdict)
    (hrest : ∀ b m', R b m' → (rest m').Shows R (next b)) :
    ((do if ← x then rest else return false) m).Shows R (verdict.andThen next) := by
  cases verdict with
  | accepted b =>
    obtain ⟨m', hdone, hb⟩ := hx
    rw [bind_done hdone]
    exact hrest b m' hb
  | rejected =>
    obtain ⟨b, m', hdone, hb⟩ := hx
    rw [bind_done hdone]
    exact ⟨b, m', rfl, hb⟩
  | unbound =>
    obtain ⟨n, trace, m', hfailed⟩ := hx
    exact ⟨n, trace, m', bind_failed hfailed _⟩

section Accepting

variable {limits : Limits} {m : Machine} {f parent : FrameId} {name : String}

/-- What is seen in the middle of a match was there before. -/
theorem has_of_seen (hs : m.store.WellFormed) (hparent : m.store.Has (.frame parent))
    {b : Bindings Ref} {m' : Machine} (hm' : m.Matching f name parent b m') (n : String) (v : Ref)
    (hv : b.over (m.scope.enter parent).lookup? n = some v) :
    m.store.Has (.object v) := by
  rcases Option.or_eq_some_iff.mp hv with hv | ⟨-, hv⟩
  · exact hm'.held n v hv
  · have hclosed : Store.Closed ⟨m.heap, m.scope.enter parent⟩ m.store.Has := hs.closed
    exact hclosed.lookup hparent m.scope.globals_lt hv

/-- The code of a plain pattern is evaluated in the middle of a match, and its value is compared
with what was there before. -/
theorem endsIfBound_matching (hs : m.store.WellFormed) (hparent : m.store.Has (.frame parent))
    {e : Expr} (hplain : e.isPlain = true) (hlevels : e.levels ≤ limits.nesting)
    {b : Bindings Ref} {m' : Machine} (hm' : m.Matching f name parent b m') {v : Ref}
    (hv : m.store.Has (.object v)) :
    (evaluate limits e m').EndsIfBound (e.isBound (b.over (m.scope.enter parent).lookup?))
      fun r m'' => m.Matching f name parent b m'' ∧
        (e.isAtom = true ∨ m.heap.reach v ≤ (evaluate limits).room.compared →
          m''.heap.same? (evaluate limits).room.compared r v =
            some (e.equals m.heap (b.over (m.scope.enter parent).lookup?) v)) ∧
        ((m''.heap.class? r).isSome && m''.heap.isSubclass (m''.heap.classOf v) r) =
          e.admits m.heap (b.over (m.scope.enter parent).lookup?) v := by
  have hsee := has_of_seen hs hparent hm'
  have hend := evaluatesPlainly_evaluateAt hsee hs limits hplain hlevels m'
    (hm'.lookup? hparent) hm'.extended.store
  refine hend.imp fun r m'' hgain => ?_
  have hm'' := hm'.gain hgain
  refine ⟨hm'', fun hroom => ?_, ?_⟩
  · have hshallow : m''.heap.reach r ≤ (evaluate limits).room.compared ∨
        m''.heap.reach v ≤ (evaluate limits).room.compared := by
      rcases hroom with hatom | hreach
      · exact .inl (hgain.2.2.reach_of_isAtom hatom ▸ Nat.zero_le _)
      · exact .inr ((hm''.extended.store.reach hs hv).symm ▸ hreach)
    have hseen (n : String) (w : Ref) (hw : b.over (m.scope.enter parent).lookup? n = some w) :
        m''.heap.Ordered w := hm''.extended.store.ordered hs (hsee n w hw)
    rw [(hgain.2.2.ordered hseen).same?_of_reach (hm''.extended.store.ordered hs hv) hshallow]
    exact congrArg some
      ((hgain.2.2.same v).trans (Expr.equals_extended hm''.extended.store hs hsee e hv))
  · exact (hgain.2.2.admits v).trans (Expr.admits_extended hm''.extended.store hs hsee e hv)

mutual

theorem shows_accepts (hs : m.store.WellFormed) (hparent : m.store.Has (.frame parent)) {v : Ref}
    {b : Bindings Ref} {m' : Machine} (p : Pattern) (hplain : p.isPlain = true)
    (hlevels : p.levels ≤ limits.nesting)
    (hroom : p.Comparable m.heap (evaluate limits).room.compared v) (hv : m.store.Has (.object v))
    (hm' : m.Matching f name parent b m') :
    (accepts (evaluate limits) f p v m').Shows (m.Matching f name parent)
      (p.verdict m.heap (m.scope.enter parent).lookup? v b) := by
  cases p with
  | wildcard l => exact ⟨m', rfl, hm'⟩
  | name l n => exact ⟨_, rfl, hm'.bind n hv⟩
  | literal l e =>
    refine shows_bind_ifBound (endsIfBound_matching hs hparent hplain hlevels hm' hv) ?_
    rintro r m'' ⟨hm'', hsame, -⟩
    rw [lookDeep, hsame hroom]
    dsimp only
    split
    · next hequal => exact ⟨m'', by rw [hequal], hm''⟩
    · next hequal => exact ⟨b, m'', by rw [Bool.eq_false_iff.mpr hequal], hm''⟩
  | typed l n c =>
    refine shows_bind_ifBound (endsIfBound_matching hs hparent hplain hlevels hm' hv) ?_
    rintro r m'' ⟨hm'', -, hadmits⟩
    rw [look_bind, hadmits]
    split
    · exact ⟨_, rfl, hm''.bind n hv⟩
    · exact ⟨b, m'', rfl, hm''⟩
  | list l ps =>
    rw [accepts, Pattern.verdict, look_bind, hm'.extended.payload hv]
    cases hitems : m.heap.payload v with
    | list items =>
      dsimp only
      split
      · rw [Pattern.Comparable, hitems] at hroom
        have hhas : ∀ i ∈ items, m.store.Has (.object i) := by
          intro i hi
          apply hs.closed.payload hv
          rw [show m.store.heap.payload v = .list items from hitems]
          exact List.mem_map_of_mem hi
        exact shows_acceptsAll hs hparent ps hplain hlevels hroom hhas hm'
      · exact ⟨b, m', rfl, hm'⟩
    | _ => exact ⟨b, m', rfl, hm'⟩

theorem shows_acceptsAll (hs : m.store.WellFormed) (hparent : m.store.Has (.frame parent))
    {vs : List Ref} {b : Bindings Ref} {m' : Machine} (ps : List Pattern)
    (hplain : Pattern.arePlain ps = true) (hlevels : Pattern.levelsAll ps ≤ limits.nesting)
    (hroom : Pattern.ComparableAll m.heap (evaluate limits).room.compared ps vs)
    (hvs : ∀ v ∈ vs, m.store.Has (.object v)) (hm' : m.Matching f name parent b m') :
    (acceptsAll (evaluate limits) f ps vs m').Shows (m.Matching f name parent)
      (Pattern.verdictAll m.heap (m.scope.enter parent).lookup? ps vs b) := by
  cases ps with
  | nil => exact ⟨m', rfl, hm'⟩
  | cons p ps =>
    cases vs with
    | nil => exact ⟨m', rfl, hm'⟩
    | cons v vs =>
      obtain ⟨hfirst, hrest⟩ := Bool.and_eq_true_iff.mp hplain
      have hp := shows_accepts hs hparent p hfirst (Nat.le_trans (Nat.le_max_left _ _) hlevels)
        hroom.1 (hvs v List.mem_cons_self) hm'
      refine shows_bind_andThen hp fun b₁ m₁ hm₁ => ?_
      exact shows_acceptsAll hs hparent ps hrest (Nat.le_trans (Nat.le_max_right _ _) hlevels)
        hroom.2 (fun v hv => hvs v (List.mem_cons_of_mem _ hv)) hm₁

end

end Accepting

end Run

/-! ## Functions -/

/-- The frame below which calls of a function open theirs. -/
def Function.outer (fn : Function) (s : Scope Ref) : FrameId := fn.captured.getD s.globals

theorem Function.has_outer (fn : Function) {s : Store} (hfn : ∀ p ∈ fn.places, s.Has p) :
    s.Has (.frame (fn.outer s.scope)) := by
  unfold Function.outer
  cases h : fn.captured with
  | none => exact s.scope.globals_lt
  | some f => exact hfn _ (by simp [Function.places, h])

/-- How the parameters of a function match arguments. -/
def Function.verdict (fn : Function) (s : Store) (args : List Ref) : Verdict :=
  if args.length = fn.params.length then
    Pattern.verdictAll s.heap (s.scope.enter (fn.outer s.scope)).lookup? fn.params args .empty
  else .rejected

/-- The arguments that a function accepts are as many as its parameters, and bound by parts. -/
theorem Function.bindings_of_verdict {fn : Function} {s : Store} {args : List Ref}
    {b : Bindings Ref} (hb : fn.verdict s args = .accepted b) :
    args.length = fn.params.length ∧
      b = Bindings.empty.merge ⟨Pattern.partsAll s.heap fn.params args⟩ := by
  rw [Function.verdict] at hb
  split at hb
  · next hlength => exact ⟨hlength, Pattern.bindings_of_verdictAll fn.params hb⟩
  · contradiction

/-- A new frame binds the arguments of a function, and nothing that was there is different. -/
structure Machine.OpensFrame (m : Machine) (fn : Function) (b : Bindings Ref) (f : FrameId)
    (m' : Machine) : Prop extends m.Undisturbed m' where
  new : m.scope.frames.size ≤ f
  made : f < m'.scope.frames.size
  frame : m'.scope.frame f =
    { name := fn.frameName m.heap, parent := some (fn.outer m.scope), bindings := b }

/-- A match begins in a new frame, which binds nothing. -/
theorem Machine.Undisturbed.beginMatching {m m₁ : Machine} (hm₁ : m.Undisturbed m₁)
    (hs : m.store.WellFormed) {fn : Function} (hfn : ∀ p ∈ fn.places, m.store.Has p) :
    m.Matching m₁.scope.frames.size (fn.frameName m.heap) (fn.outer m.scope) .empty
      { m₁ with scope := (m₁.scope.newFrame (fn.frameName m₁.heap)
          (some (fn.outer m₁.scope))).2.enter m₁.scope.frames.size } where
  extended := hm₁.withScope ((hm₁.store.scope.newFrame _ _).enter _)
  new := hm₁.store.scope.size
  made := by simp [Scope.enter]
  head := rfl
  frame := by
    have hname : fn.frameName m₁.heap = fn.frameName m.heap := hm₁.store.frameName hs hfn
    have houter : fn.outer m₁.scope = fn.outer m.scope :=
      congrArg fn.captured.getD hm₁.store.scope.globals
    rw [hname, houter]
    exact m₁.scope.frame_newFrame_self _ _
  held n v hv := by cases hv

/-- A function's arguments are matched with a verdict. -/
def Outcome.Matches (o : Outcome (Option FrameId)) (m : Machine) (fn : Function) : Verdict → Prop
  | .accepted b => ∃ f m', o = .done (some f) m' ∧ m.OpensFrame fn b f m'
  | .rejected => ∃ m', o = .done none m' ∧ m.Undisturbed m'
  | .unbound => ∃ n t m', o = .failed (.complaint (.unboundVariable n) t) m'

namespace Run

variable {limits : Limits} {m m₁ : Machine} {fn : Function} {args : List Ref}

theorem inFrame_apply {α : Type} (f : FrameId) (x : Run α) (m : Machine) :
    inFrame f x m = ensuring x (changeScope (·.enter m.scope.head))
      { m with scope := m.scope.enter f } := rfl

theorem inFrame_done {α : Type} {f : FrameId} {x : Run α} {m m' : Machine} {a : α}
    (h : x { m with scope := m.scope.enter f } = .done a m') :
    inFrame f x m = .done a { m' with scope := m'.scope.enter m.scope.head } := by
  rw [inFrame_apply, ensuring_apply, h]
  rfl

theorem inFrame_failed {α : Type} {f : FrameId} {x : Run α} {m m' : Machine} {fault : Fault}
    (h : x { m with scope := m.scope.enter f } = .failed fault m') :
    inFrame f x m = .failed fault { m' with scope := m'.scope.enter m.scope.head } := by
  rw [inFrame_apply, ensuring_apply, h]
  rfl

theorem matchArgs_apply (evaluate : Evaluator) (hlength : args.length = fn.params.length) :
    matchArgs evaluate fn args m₁ =
      (do
        let accepted ← inFrame m₁.scope.frames.size
          (acceptsAll evaluate m₁.scope.frames.size fn.params args)
        return if accepted then some m₁.scope.frames.size else none : Run (Option FrameId))
        { m₁ with
          scope := (m₁.scope.newFrame (fn.frameName m₁.heap) (some (fn.outer m₁.scope))).2 } := by
  rw [matchArgs, if_pos hlength]
  rfl

/-- To match arguments is to come to the verdict that the store has on them, and does not disturb
what was there, whatever was matched before. -/
theorem matches_matchArgs (hs : m.store.WellFormed) (hfn : ∀ p ∈ fn.places, m.store.Has p)
    (hplain : Pattern.arePlain fn.params = true)
    (hlevels : Pattern.levelsAll fn.params ≤ limits.nesting)
    (hroom : Pattern.ComparableAll m.heap (evaluate limits).room.compared fn.params args)
    (hargs : ∀ v ∈ args, m.store.Has (.object v)) (hm₁ : m.Undisturbed m₁) :
    (matchArgs (evaluate limits) fn args m₁).Matches m fn (fn.verdict m.store args) := by
  by_cases hlength : args.length = fn.params.length
  · have hparent : m.store.Has (.frame (fn.outer m.scope)) := fn.has_outer hfn
    have hm₂ := hm₁.beginMatching hs hfn
    have hshows := shows_acceptsAll hs hparent fn.params hplain hlevels hroom hargs hm₂
    have hverdict : fn.verdict m.store args = Pattern.verdictAll m.heap
        (m.scope.enter (fn.outer m.scope)).lookup? fn.params args .empty := if_pos hlength
    rw [hverdict, matchArgs_apply _ hlength]
    -- after the match the head is given back, and the frame is as the match left it
    have hback {b : Bindings Ref} {m' : Machine} (hm' : m.Matching m₁.scope.frames.size
        (fn.frameName m.heap) (fn.outer m.scope) b m') :
        m.OpensFrame fn b m₁.scope.frames.size
          { m' with scope := m'.scope.enter m₁.scope.head } :=
      { toExtendedBy := hm'.extended.withScope (hm'.extended.store.scope.enter _)
        head := hm₁.head
        new := hm'.new
        made := hm'.made
        frame := hm'.frame }
    generalize Pattern.verdictAll _ _ fn.params args .empty = verdict at hshows ⊢
    cases verdict with
    | accepted b =>
      obtain ⟨m', hdone, hm'⟩ := hshows
      rw [bind_done (inFrame_done hdone)]
      exact ⟨_, _, rfl, hback hm'⟩
    | rejected =>
      obtain ⟨b, m', hdone, hm'⟩ := hshows
      rw [bind_done (inFrame_done hdone)]
      exact ⟨_, rfl, (hback hm').toUndisturbed⟩
    | unbound =>
      obtain ⟨n, trace, m', hfailed⟩ := hshows
      exact ⟨n, trace, _, bind_failed (inFrame_failed hfailed) _⟩
  · rw [Function.verdict, if_neg hlength, matchArgs, if_neg hlength]
    exact ⟨m₁, rfl, hm₁⟩

end Run

end TreeScript
