import Mathlib.Data.List.Induction
import TreeScript.Proofs.Equality
import TreeScript.Proofs.Matching
import TreeScript.Proofs.PlainTemplates

/-!
# Templates and names

A template is filled from a table that is flattened from the active chain, the outermost frame
first; a name in code is looked up along the chain, the innermost frame first. Both find the same
value under every name. So a plain template becomes the text that its pieces give when they are
joined one after the other, the names evaluated as code; and if one of the names is not bound, both
complain of the first such name.
-/

namespace TreeScript

/-! ## Tables and chains -/

namespace Bindings

variable {α : Type}

/-- Under distinct keys there is one entry to find, from either side. -/
theorem lookup_reverse {entries : List (String × α)} (h : (entries.map (·.1)).Nodup)
    (name : String) : entries.reverse.lookup name = entries.lookup name := by
  induction entries with
  | nil => rfl
  | cons entry entries ih =>
    obtain ⟨key, value⟩ := entry
    rw [List.map_cons, List.nodup_cons] at h
    rw [List.reverse_cons, List.lookup_append, ih h.2, List.lookup_cons]
    by_cases hkey : name = key
    · -- no other entry has the key, so it does not matter from which end the list is searched
      subst hkey
      have hnone : entries.lookup name = none := by
        rw [List.lookup_eq_none_iff]
        intro entry hentry
        have hmem : entry.1 ∈ entries.map (·.1) := List.mem_map_of_mem hentry
        have hne : name ≠ entry.1 := fun heq => h.1 (heq ▸ hmem)
        simpa using hne
      simp [hnone]
    · simp [List.lookup_cons, beq_eq_false_iff_ne.mpr hkey]

theorem nodup_keys_set {b : Bindings α} (h : b.keys.Nodup) (name : String) (v : α) :
    (b.set name v).keys.Nodup := by
  unfold keys set at *
  rw [keys_write]
  split
  · exact h
  · next hnone =>
    refine List.nodup_append.mpr ⟨h, List.pairwise_singleton _ _, ?_⟩
    intro key hkey other hother heq
    rw [List.mem_singleton.mp hother] at heq
    refine hnone (List.lookup_isSome_iff.mpr ?_)
    obtain ⟨entry, hentry, rfl⟩ := List.mem_map.mp hkey
    exact ⟨entry, hentry, by simpa using heq.symm⟩

end Bindings

namespace Scope

variable {α : Type} {s : Scope α}

/-- No frame binds a name twice. -/
def Distinct (s : Scope α) : Prop := ∀ f, (s.frame f).bindings.keys.Nodup

namespace Distinct

theorem defineIn (hs : s.Distinct) (f : FrameId) (name : String) (v : α) :
    (s.defineIn f name v).Distinct := by
  intro g
  rw [frame_defineIn]
  split
  · exact Bindings.nodup_keys_set (hs g) name v
  · exact hs g

theorem newFrame (hs : s.Distinct) (name : String) (parent : Option FrameId) :
    (s.newFrame name parent).2.Distinct := by
  intro g
  by_cases hg : g = s.frames.size
  · rw [hg, frame_newFrame_self]
    exact List.nodup_nil
  · rw [frame_newFrame_of_ne _ _ _ hg]
    exact hs g

end Distinct

/-- Later frames go over earlier ones. -/
theorem get?_foldl_merge (hs : s.Distinct) (fs : List FrameId) (b : Bindings α) (name : String) :
    (fs.foldl (fun acc f => acc.merge (s.frame f).bindings) b).get? name =
      (fs.reverse.findSome? fun f => (s.frame f).bindings.get? name).or (b.get? name) := by
  induction fs generalizing b with
  | nil => rfl
  | cons f fs ih =>
    have hmerge : (b.merge (s.frame f).bindings).get? name =
        ((s.frame f).bindings.get? name).or (b.get? name) := by
      rw [show b.merge (s.frame f).bindings = b.merge ⟨(s.frame f).bindings.entries⟩ from rfl,
        Bindings.get?_merge, Bindings.lookup_reverse (hs f)]
      rfl
    rw [List.foldl_cons, ih, hmerge, List.reverse_cons, List.findSome?_append]
    simp [Option.or_assoc]

/-- What a template sees under a name is what a lookup finds, on any chain. -/
theorem get?_flatten (hs : s.Distinct) (name : String) :
    s.flatten.get? name = s.lookup? name := by
  have hsearch (fs : List FrameId) :
      (fs.findSome? fun f => (s.frame f).bindings.get? name) =
        (fs.map s.frame).findSome? (·.bindings.get? name) := by
    rw [List.findSome?_map]
    rfl
  rw [flatten, get?_foldl_merge hs, List.reverse_reverse, hsearch, lookup?_eq,
    Bindings.get?_empty, Option.or_none]
  unfold visibleFrames
  dsimp only
  split
  · next hglobals =>
    -- the global frame is on the chain, where it has been searched before
    cases hfound : ((s.chain s.head).map s.frame).findSome? (·.bindings.get? name) with
    | some v => rfl
    | none =>
      have hmem : s.globals ∈ s.chain s.head := by simpa using hglobals
      rw [List.findSome?_eq_none_iff] at hfound
      simp [hfound _ (List.mem_map_of_mem hmem)]
  · rw [List.map_append, List.findSome?_append]
    simp

/-- What a lookup finds is bound in a frame that templates see. -/
theorem mem_boundValues_of_lookup? {name : String} {v : α} (hv : s.lookup? name = some v) :
    v ∈ s.boundValues := by
  obtain ⟨f, hf, hv⟩ := Option.bind_eq_some_iff.mp hv
  have hvisible : f ∈ s.visibleFrames := by
    unfold owner? at hf
    unfold visibleFrames
    dsimp only
    split at hf
    · next hg =>
      cases hf
      have hmem : f ∈ s.chain s.head := List.mem_of_find?_eq_some hg
      split
      · exact hmem
      · exact List.mem_append_left _ hmem
    · split at hf
      · cases hf
        split
        · next hglobals => simpa using hglobals
        · simp
      · cases hf
  exact List.mem_flatMap.mpr ⟨f, hvisible, Bindings.mem_values_of_get? hv⟩

end Scope

/-- No program binds a name twice in a frame. -/
theorem Store.Reached.distinct {s : Store} (hs : s.Reached) : s.scope.Distinct := by
  induction hs with
  | start tracing =>
    intro f
    cases f <;> exact List.nodup_nil
  | enter f hs ih => exact ih
  | newFrame name hs hparent ih => exact ih.newFrame name _
  | bind name hs hf hv ih => exact ih.defineIn _ name _
  | add hs ho ih => exact ih
  | setField name hs hr hv ih => exact ih
  | writeClass table name hs hc hv ih => exact ih

/-! ## Displayed forms -/

/-- What was there is displayed as before. -/
theorem Store.ExtendedBy.display {s t : Store} (h : s.ExtendedBy t) (hs : s.Closed s.Has) {r : Ref}
    (hr : s.Has (.object r)) : t.heap.display r = s.heap.display r := by
  have hclass {c : Ref} (hc : s.Has (.object c)) : t.heap.className c = s.heap.className c := by
    rw [Heap.className, Heap.className, h.heap.class? hc]
  induction r using Nat.strongRecOn with
  | ind r ih =>
    have held {q : Place} (hq : q ∈ (s.heap.payload r).places) : s.Has q := hs.payload hr hq
    rw [Heap.display, Heap.display, h.heap.payload hr]
    cases hp : s.heap.payload r with
    | «instance» c =>
      rw [hp] at held
      dsimp only
      rw [hclass (held List.mem_cons_self)]
    | list items =>
      rw [hp] at held
      have hitems : (items.map fun i => if _h : i < r then t.heap.display i else "") =
          items.map fun i => if _h : i < r then s.heap.display i else "" := by
        refine List.map_congr_left fun i hi => ?_
        by_cases hir : i < r
        · rw [dif_pos hir, dif_pos hir, ih i hir (held (List.mem_map_of_mem hi))]
        · rw [dif_neg hir, dif_neg hir]
      dsimp only
      rw [hitems]
    | superView inst start =>
      rw [hp] at held
      have hinst : (if _h : inst < r then t.heap.display inst else "") =
          if _h : inst < r then s.heap.display inst else "" := by
        by_cases hir : inst < r
        · rw [dif_pos hir, dif_pos hir, ih inst hir (held List.mem_cons_self)]
        · rw [dif_neg hir, dif_neg hir]
      dsimp only
      rw [hclass (held (by simp [Payload.places])), hinst]
    | _ => rfl

theorem Store.ExtendedBy.depth {s t : Store} (h : s.ExtendedBy t) (hs : s.Closed s.Has) {r : Ref}
    (hr : s.Has (.object r)) : t.heap.depth r = s.heap.depth r := by
  induction r using Nat.strongRecOn with
  | ind r ih =>
    rw [Heap.depth, Heap.depth, h.heap.payload hr]
    cases hp : s.heap.payload r with
    | list items =>
      have hitems : (items.map fun i => if _h : i < r then t.heap.depth i else 0) =
          items.map fun i => if _h : i < r then s.heap.depth i else 0 := by
        refine List.map_congr_left fun i hi => ?_
        have hheld : s.Has (.object i) := hs.payload hr (hp ▸ List.mem_map_of_mem hi)
        by_cases hir : i < r
        · rw [dif_pos hir, dif_pos hir, ih i hir hheld]
        · rw [dif_neg hir, dif_neg hir]
      dsimp only
      rw [hitems]
    | _ => rfl

theorem Heap.display_of_string {h : Heap} {r : Ref} {text : String}
    (hr : h.payload r = .string text) : h.display r = text := by
  rw [Heap.display, hr]

namespace Machine

/-- The head exists, nothing refers to what is not there, and no frame binds a name twice. -/
structure WellScoped (m : Machine) : Prop where
  closed : m.store.Closed m.store.Has
  head : m.store.Has (.frame m.scope.head)
  distinct : m.scope.Distinct

theorem ExtendedBy.callsOnEntry {m m' : Machine} (h : m.ExtendedBy m') :
    m'.callsOnEntry = m.callsOnEntry := by
  rw [Machine.callsOnEntry, Machine.callsOnEntry, h.active]
  split
  · rfl
  · next hactive => simpa [Machine.callsOnEntry, hactive] using h.calls

/-- The displayed form of what a name means. -/
def shown? (m : Machine) (name : String) : Option String :=
  (m.scope.lookup? name).map m.heap.display

/-- What templates are filled from. -/
def fillings (m : Machine) : Bindings String :=
  ⟨m.scope.flatten.entries.map fun (name, v) => (name, m.heap.display v)⟩

theorem get?_fillings {m : Machine} (hm : m.WellScoped) (name : String) :
    m.fillings.get? name = m.shown? name := by
  have hmap (entries : List (String × Ref)) :
      (entries.map fun (name, v) => (name, m.heap.display v)).lookup name =
        (entries.lookup name).map m.heap.display := by
    induction entries with
    | nil => rfl
    | cons entry entries ih =>
      rw [List.map_cons, List.lookup_cons, List.lookup_cons, ih]
      cases name == entry.1 <;> rfl
  rw [shown?, ← Scope.get?_flatten hm.distinct]
  exact hmap m.scope.flatten.entries

/-- Programs pass through nothing else. -/
theorem Reached.wellScoped {m : Machine} (hm : m.Reached) : m.WellScoped where
  closed := hm.inv.closed
  head := hm.active
  distinct := hm.inv.distinct

namespace WellScoped

variable {m : Machine} (hm : m.WellScoped)

include hm

/-- Any frame may be the head. -/
theorem enter {f : FrameId} (hf : m.store.Has (.frame f)) :
    { m with scope := m.scope.enter f }.WellScoped :=
  ⟨hm.closed, hf, hm.distinct⟩

/-- A frame may be added apart from all others. -/
theorem newFrame (name : String) :
    { m with scope := (m.scope.newFrame name none).2 }.WellScoped where
  closed := by
    have hgrows := m.store.grows_scope (m.scope.grows_newFrame name none)
    refine hm.closed.grow hgrows fun p q hq => .inl ?_
    cases p with
    | frame f =>
      by_cases hf : f = m.scope.frames.size
      · subst hf
        rw [Store.places, Machine.store, Scope.frame_newFrame_self] at hq
        cases hq
      · rwa [Store.places, Machine.store, Scope.frame_newFrame_of_ne _ _ _ hf] at hq
    | object r => exact hq
  head := Nat.lt_of_lt_of_le hm.head (by simp [Machine.store])
  distinct := hm.distinct.newFrame name none

/-- Any frame may come to bind any value. -/
theorem defineIn {f : FrameId} (name : String) {v : Ref} (hv : m.store.Has (.object v)) :
    { m with scope := m.scope.defineIn f name v }.WellScoped where
  closed := by
    have hgrows := m.store.grows_scope (m.scope.grows_defineIn f name v)
    refine hm.closed.grow hgrows fun p q hq => ?_
    rcases m.store.mem_places_defineIn hq with hq | rfl
    · exact .inl hq
    · exact .inr hv
  head := Nat.lt_of_lt_of_le hm.head (by simp [Machine.store])
  distinct := hm.distinct.defineIn f name v

end WellScoped

theorem WellScoped.of_store {m m' : Machine} (hm : m.WellScoped) (h : m'.store = m.store) :
    m'.WellScoped where
  closed := h ▸ hm.closed
  head := by
    have hhead : m'.scope.head = m.scope.head := congrArg (·.scope.head) h
    rw [h, hhead]
    exact hm.head
  distinct := by
    have hscope : m'.scope = m.scope := congrArg Store.scope h
    rw [hscope]
    exact hm.distinct

theorem shown?_of_store {m m' : Machine} (h : m'.store = m.store) : m'.shown? = m.shown? := by
  have hscope : m'.scope = m.scope := congrArg Store.scope h
  have hheap : m'.heap = m.heap := congrArg Store.heap h
  funext name
  rw [shown?, shown?, hscope, hheap]

/-- Names mean and show the same after new values have been made. -/
theorem shown?_gains {m m' : Machine} (hm : m.WellScoped) (hext : m.ExtendedBy m')
    (hscope : m'.scope = m.scope) : m'.shown? = m.shown? := by
  funext name
  rw [shown?, shown?, hscope]
  cases hlookup : m.scope.lookup? name with
  | none => rfl
  | some v =>
    have hv : m.store.Has (.object v) := hm.closed.lookup hm.head m.scope.globals_lt hlookup
    exact congrArg some (hext.store.display hm.closed hv)

end Machine

/-! ## Code -/

namespace Template.Piece

/-- The piece as code. -/
def expr (loc : Option Loc) : Piece → Expr
  | .text s => .string loc s
  | .tag name => .name loc name

/-- The pieces joined from left to right, behind the empty text. -/
def concatenation (loc : Option Loc) (ps : List Piece) : Expr :=
  ps.foldl (fun e p => .operator loc "+" e (p.expr loc)) (.string loc "")

theorem concatenation_append (loc : Option Loc) (ps : List Piece) (p : Piece) :
    concatenation loc (ps ++ [p]) = .operator loc "+" (concatenation loc ps) (p.expr loc) := by
  rw [concatenation, List.foldl_append]
  rfl

end Template.Piece

open Template

/-- An evaluation ends with a value as described, for which it only makes new values, or complains of
a name that is not bound. -/
def Outcome.Gives (o : Outcome Ref) (m : Machine) (P : String → Heap → Ref → Prop) :
    Except String String → Prop
  | .ok s => ∃ r m', o = .done r m' ∧ m.Gains (P s) r m'
  | .error name =>
    ∃ m', o = .failed (.complaint (.unboundVariable name) (m.callsOnEntry.map (·.name))) m'

/-- The value is a text. -/
def IsText (s : String) (h : Heap) (r : Ref) : Prop := h.payload r = .string s

/-- There is room to display the value, as a text. -/
def ShowsText (room : Nat) (s : String) (h : Heap) (r : Ref) : Prop := h.display? room r = some s

/-- There is room to display what names mean. -/
def Machine.NamesFit (m : Machine) (names : String → Prop) (room : Nat) : Prop :=
  ∀ name v, names name → m.scope.lookup? name = some v → m.heap.depth v ≤ room

/-- Where so many pieces are evaluated there is room to display all that is bound. -/
def Machine.ShowsAll (m : Machine) (limits : Limits) (count : Nat) : Prop :=
  ∀ levels < limits.nesting, limits.nesting ≤ levels + count + 1 →
    ∀ v ∈ m.scope.boundValues, m.heap.depth v ≤ limits.shown levels

theorem Machine.NamesFit.of_store {m m' : Machine} {names : String → Prop} {room : Nat}
    (h : m.NamesFit names room) (hstore : m'.store = m.store) : m'.NamesFit names room := by
  have hscope : m'.scope = m.scope := congrArg Store.scope hstore
  have hheap : m'.heap = m.heap := congrArg Store.heap hstore
  intro name v hname hv
  rw [hheap]
  exact h name v hname (hscope ▸ hv)

theorem Machine.NamesFit.gains {m m' : Machine} {names : String → Prop} {room : Nat}
    (h : m.NamesFit names room) (hm : m.WellScoped) (hext : m.ExtendedBy m')
    (hscope : m'.scope = m.scope) : m'.NamesFit names room := by
  intro name v hname hv
  rw [hscope] at hv
  have hheld : m.store.Has (.object v) := hm.closed.lookup hm.head m.scope.globals_lt hv
  exact (hext.store.depth hm.closed hheld).symm ▸ h name v hname hv

namespace Run

variable {limits : Limits} {nesting : Nat} {loc : Option Loc} {m : Machine} {ps : List Piece}

/-- Taking up an expression does not show in how its evaluation ends. -/
theorem gives_evaluateAt {e : Expr} {P : String → Heap → Ref → Prop} {filled : Except String String}
    (hlevel : ∀ m', m'.store = m.store → m'.active ≠ 0 → m'.calls = m.callsOnEntry →
      (evaluateLevel (evaluateAt limits nesting) limits.rounds e m').Gives m' P filled) :
    (evaluateAt limits (nesting + 1) e m).Gives m P filled := by
  have hend := hlevel { m with calls := m.callsOnEntry, active := m.active + 1, place := e.loc } rfl
    (Nat.succ_ne_zero _) rfl
  rw [evaluateAt_succ, ensuring_apply]
  cases filled with
  | ok s =>
    obtain ⟨r, m', hdone, hext, hscope, hr⟩ := hend
    rw [hdone]
    refine ⟨r, _, rfl, ?_, hscope, hr⟩
    exact
      { store := hext.store
        effects := hext.effects
        active := Nat.sub_eq_of_eq_add hext.active
        tracing := hext.tracing
        traced := hext.traced
        calls := .inr (hext.calls.elim id id) }
  | error name =>
    obtain ⟨m', hfailed⟩ := hend
    rw [hfailed]
    exact ⟨_, rfl⟩

theorem gives_alloc {P : String → Heap → Ref → Prop} {s : String}
    (hP : ∀ h r, h.payload r = .string s → P s h r) :
    (alloc (.string s) m).Gives m P (.ok s) :=
  ⟨_, _, rfl, .alloc m _, rfl, hP _ _ (m.heap.payload_alloc_self _)⟩

theorem gives_complaint {P : String → Heap → Ref → Prop} {name : String} (hactive : m.active ≠ 0) :
    (complain (.unboundVariable name) m : Outcome Ref).Gives m P (.error name) :=
  ⟨m, by rw [callsOnEntry_of_active hactive]; rfl⟩

/-! ### Templates -/

/-- With room for all that is bound, a template is filled from what it sees. -/
theorem fillTemplate_of_fits {room : Room} (template : String)
    (hroom : ∀ v ∈ m.scope.boundValues, m.heap.depth v ≤ room.shown) :
    fillTemplate room template m =
      (match Template.fill template m.fillings with
        | .ok text => alloc (.string text)
        | .error (.render (.missing key)) => complain (.unboundVariable key)
        | .error (.render (.noSuchTemplate key)) => fail (.noSuchTemplate key)
        | .error (.parse fault) => fail (.templateSyntax fault) : Run Ref) m := by
  have hshown : m.scope.boundValues.mapM (m.heap.display? room.shown) =
      some (m.scope.boundValues.map m.heap.display) :=
    mapM_eq_some_map fun v hv => if_pos (hroom v hv)
  rw [fillTemplate, lookScope_bind, lookDeep_bind, hshown]
  rfl

/-- Without room for all that is bound, a template is not filled, whatever it asks for. -/
theorem fillTemplate_of_tooDeep {room : Room} (template : String) {v : Ref}
    (hv : v ∈ m.scope.boundValues) (hdeep : room.shown < m.heap.depth v) :
    fillTemplate room template m = .failed .nestingTooDeep m := by
  have hshown : m.scope.boundValues.mapM (m.heap.display? room.shown) = none :=
    mapM_eq_none_iff.mpr ⟨v, hv, if_neg (Nat.not_le.mpr hdeep)⟩
  rw [fillTemplate, lookScope_bind, lookDeep_bind, hshown]

theorem template_tooDeep (template : String) {v : Ref} (hv : v ∈ m.scope.boundValues)
    (hdeep : limits.shown nesting < m.heap.depth v) :
    ∃ m', evaluateAt limits (nesting + 1) (.template loc template) m =
      .failed .nestingTooDeep m' := by
  have hroom : (evaluateAt limits nesting).room.shown = limits.shown nesting := by
    rw [room_evaluateAt]
    rfl
  let e : Expr := .template loc template
  let entered := { m with calls := m.callsOnEntry, active := m.active + 1, place := e.loc }
  have hfails : evaluateLevel (evaluateAt limits nesting) limits.rounds e entered =
      .failed .nestingTooDeep entered := by
    rw [evaluateLevel]
    exact fillTemplate_of_tooDeep template hv (hroom ▸ hdeep)
  rw [evaluateAt_succ, ensuring_apply, hfails]
  exact ⟨_, rfl⟩

theorem gives_template (hps : ∀ p ∈ ps, p.IsPlain) (hm : m.WellScoped)
    (hroom : ∀ v ∈ m.scope.boundValues, m.heap.depth v ≤ limits.shown nesting) :
    (evaluateAt limits (nesting + 1) (.template loc (Piece.template ps)) m).Gives m IsText
      (Piece.joined m.shown? ps) := by
  refine gives_evaluateAt fun m' hstore hactive _ => ?_
  have hm' : m'.WellScoped := hm.of_store hstore
  have hscope : m'.scope = m.scope := congrArg Store.scope hstore
  have hheap : m'.heap = m.heap := congrArg Store.heap hstore
  have hfill : Template.fill (Piece.template ps) m'.fillings =
      (Piece.joined m.shown? ps).mapError fun name => .render (.missing name) := by
    have hsee : m'.fillings.get? = m.shown? :=
      funext fun name => (Machine.get?_fillings hm' name).trans
        (congrFun (Machine.shown?_of_store hstore) name)
    rw [fill_template hps, hsee]
  rw [evaluateLevel, fillTemplate_of_fits, hfill]
  · cases Piece.joined m.shown? ps with
    | ok s => exact gives_alloc fun _ _ => id
    | error name => exact gives_complaint hactive
  · rw [hscope, hheap]
    cases nesting <;> exact hroom

/-! ### Concatenations -/

theorem gives_piece (p : Piece) {room : Nat}
    (hroom : m.NamesFit (fun name => p = .tag name) room) :
    (evaluateAt limits (nesting + 1) (p.expr loc) m).Gives m (ShowsText room)
      (p.filled m.shown?) := by
  refine gives_evaluateAt fun m' hstore hactive _ => ?_
  cases p with
  | text s =>
    refine gives_alloc fun h r hr => ?_
    rw [ShowsText, Heap.display?_of_not_list (by simp [hr]), Heap.display_of_string hr]
  | tag name =>
    rw [Piece.expr, evaluateLevel, lookup, lookScope_bind, Piece.filled,
      ← Machine.shown?_of_store hstore, Machine.shown?]
    cases hv : m'.scope.lookup? name with
    | none => exact gives_complaint hactive
    | some v => exact ⟨v, m', rfl, .refl m', rfl, if_pos (hroom.of_store hstore name v rfl hv)⟩

/-- One more piece: the text so far and then what the piece shows. -/
theorem gives_join {left : Expr} {p : Piece} {filled : Except String String} (hm : m.WellScoped)
    (hroom : m.NamesFit (fun name => p = .tag name) (limits.shown (nesting + 1)))
    (hleft : (evaluateAt limits (nesting + 1) left m).Gives m IsText filled) :
    (evaluateLevel (evaluateAt limits (nesting + 1)) limits.rounds
      (.operator loc "+" left (p.expr loc)) m).Gives
      m IsText (filled.bind fun s => (p.filled m.shown?).map (s ++ ·)) := by
  cases filled with
  | error name =>
    obtain ⟨m₁, hfailed⟩ := hleft
    exact ⟨m₁, bind_failed hfailed _⟩
  | ok s =>
    obtain ⟨a, m₁, hdone₁, hext₁, hscope₁, ha⟩ := hleft
    have hcalls : m₁.callsOnEntry = m.callsOnEntry := hext₁.callsOnEntry
    have hright : (evaluateAt limits (nesting + 1) (p.expr loc) m₁).Gives m₁
        (ShowsText (limits.shown (nesting + 1))) (p.filled m₁.shown?) :=
      gives_piece p (hroom.gains hm hext₁ hscope₁)
    -- the text so far was made without binding a name, so every name still shows what it did
    rw [Machine.shown?_gains hm hext₁ hscope₁] at hright
    rw [show Except.bind (.ok s) (fun s => (p.filled m.shown?).map (s ++ ·)) =
      (p.filled m.shown?).map (s ++ ·) from rfl]
    cases hp : p.filled m.shown? with
    | error name =>
      rw [hp] at hright
      obtain ⟨m₂, hfailed⟩ := hright
      rw [hcalls] at hfailed
      exact ⟨m₂, (bind_done hdone₁ _).trans (bind_failed hfailed _)⟩
    | ok t =>
      rw [hp] at hright
      obtain ⟨b, m₂, hdone₂, hext₂, hscope₂, hb⟩ := hright
      have hexists : m₁.store.Has (.object a) :=
        m₁.heap.lt_of_payload_ne_null (ne_of_eq_of_ne ha (by simp))
      have ha₂ : m₂.heap.payload a = .string s := (hext₂.payload hexists).trans ha
      have hshown : m₂.heap.display? (evaluateAt limits (nesting + 1)).room.shown a = some s := by
        rw [Heap.display?_of_not_list (by simp [ha₂]), Heap.display_of_string ha₂]
      have hb' : m₂.heap.display? (evaluateAt limits (nesting + 1)).room.shown b = some t := hb
      have hsum := evaluateLevel_add_string limits.rounds loc ⟨m₁, hdone₁, hdone₂⟩ (.inl ha₂)
      rw [hshown, hb'] at hsum
      exact ⟨_, _, hsum, (hext₁.trans hext₂).trans (.alloc m₂ _), hscope₂.trans hscope₁,
        m₂.heap.payload_alloc_self _⟩

theorem gives_concatenation (ps : List Piece) (hm : m.WellScoped) (hnesting : ps.length < nesting)
    (hroom : ∀ levels < nesting, nesting ≤ levels + ps.length →
      m.NamesFit (fun name => .tag name ∈ ps) (limits.shown levels)) :
    (evaluateAt limits nesting (Piece.concatenation loc ps) m).Gives m IsText
      (Piece.joined m.shown? ps) := by
  induction ps using List.reverseRecOn generalizing nesting m with
  | nil =>
    obtain ⟨nesting, rfl⟩ := Nat.exists_eq_succ_of_ne_zero (Nat.ne_zero_of_lt hnesting)
    exact gives_evaluateAt fun m' _ _ _ => gives_alloc fun _ _ => id
  | append_singleton ps p ih =>
    -- `+` groups to the left, so the last piece is the outermost and each one takes a level
    rw [List.length_append, List.length_singleton] at hnesting hroom
    obtain ⟨nesting, rfl⟩ : ∃ n, nesting = n + 2 := ⟨nesting - 2, by omega⟩
    rw [Piece.concatenation_append, Piece.joined_concat]
    refine gives_evaluateAt fun m' hstore _ _ => ?_
    have hm' : m'.WellScoped := hm.of_store hstore
    have hlast : m'.NamesFit (fun name => p = .tag name) (limits.shown (nesting + 1)) := by
      refine Machine.NamesFit.of_store (fun name v hname => ?_) hstore
      exact hroom (nesting + 1) (by omega) (by omega) name v (by simp [hname])
    have hrest : ∀ levels < nesting + 1, nesting + 1 ≤ levels + ps.length →
        m'.NamesFit (fun name => .tag name ∈ ps) (limits.shown levels) := by
      intro levels hlt hle
      refine Machine.NamesFit.of_store (fun name v hname => ?_) hstore
      exact hroom levels (by omega) (by omega) name v (List.mem_append_left _ hname)
    rw [← Machine.shown?_of_store hstore]
    exact gives_join hm' hlast (ih hm' (Nat.lt_of_succ_lt_succ hnesting) hrest)

/-! ### Agreement -/

/-- Templates see a name exactly if a lookup finds it, and in the displayed form of what it finds. If
there is room to display all that is bound, a plain template and the concatenation of its pieces make
the same text, if all their names are bound; and else both complain, in the same calls, of the first
name that is not. -/
theorem template_agrees_with_lookup (hm : m.WellScoped) (limits : Limits) (loc : Option Loc)
    (hps : ∀ p ∈ ps, p.IsPlain) (hnesting : ps.length < limits.nesting)
    (hroom : m.ShowsAll limits ps.length) :
    (∀ name, m.fillings.get? name = (m.scope.lookup? name).map m.heap.display) ∧
    ((∀ name, .tag name ∈ ps → m.scope.lookup? name ≠ none) →
      ∀ e ∈ [.template loc (Piece.template ps), Piece.concatenation loc ps], ∃ r m',
        evaluate limits e m = .done r m' ∧ m.ExtendedBy m' ∧ m'.scope = m.scope ∧
        m'.heap.payload r = .string (String.join (ps.map (Piece.shown m.shown?)))) ∧
    (∀ before name after, ps = before ++ .tag name :: after →
      (∀ n, .tag n ∈ before → m.scope.lookup? n ≠ none) → m.scope.lookup? name = none →
      ∀ e ∈ [.template loc (Piece.template ps), Piece.concatenation loc ps], ∃ m',
        evaluate limits e m =
          .failed (.complaint (.unboundVariable name) (m.callsOnEntry.map (·.name))) m') := by
  have hgives : ∀ e ∈ [.template loc (Piece.template ps), Piece.concatenation loc ps],
      (evaluate limits e m).Gives m IsText (Piece.joined m.shown? ps) := by
    intro e he
    rcases List.mem_cons.mp he with rfl | he
    · obtain ⟨nesting, hsucc⟩ := Nat.exists_eq_succ_of_ne_zero (Nat.ne_zero_of_lt hnesting)
      rw [evaluate, hsucc]
      exact gives_template hps hm (hroom nesting (by omega) (by omega))
    · rw [List.mem_singleton.mp he]
      refine gives_concatenation ps hm hnesting fun levels hlt hle name v _ hv => ?_
      exact hroom levels hlt (by omega) v (Scope.mem_boundValues_of_lookup? hv)
  have hseen (n : String) (hn : m.scope.lookup? n ≠ none) : m.shown? n ≠ none :=
    fun h => hn (Option.map_eq_none_iff.mp h)
  refine ⟨Machine.get?_fillings hm, fun hbound e he => ?_, ?_⟩
  · have hjoined := Piece.joined_of_seen fun n hn => hseen n (hbound n hn)
    have hend := hgives e he
    rw [hjoined] at hend
    exact hend
  · rintro before name after rfl hbefore hname e he
    have hunseen : m.shown? name = none := Option.map_eq_none_iff.mpr hname
    have hjoined : Piece.joined m.shown? (before ++ .tag name :: after) = .error name :=
      Piece.joined_of_unseen (fun n hn => hseen n (hbefore n hn)) hunseen
    have hend := hgives e he
    rw [hjoined] at hend
    exact hend

/-- In a frame apart from the global one, what the frame binds is seen over what the global frame
binds, and a text that looks like a tag is not filled in. -/
theorem template_agrees_with_lookup_detached :
    let global := { Machine.bare false with
      heap := ((Heap.initial.alloc (.string "far")).2.alloc (.string "\x7b\x7by\x7d\x7d")).2
      scope := (((Scope.withGlobals "<globals>").defineIn 0 "x" 11).defineIn 0 "y" 11) }
    let apart := (global.scope.newFrame "apart" none).2.enter 1
    let m := { global with scope := apart.defineIn 1 "x" 12 }
    let bound := [.text "It is ", .tag "x", .text ", not ", .tag "y"]
    let e := Piece.concatenation none bound
    (∃ r m', evaluate .standard e m = .done r m' ∧
      m'.heap.payload r = .string "It is \x7b\x7by\x7d\x7d, not far") ∧
    ∃ m', evaluate .standard (.template none (Piece.template (bound ++ [.tag "z"]))) m =
      .failed (.complaint (.unboundVariable "z") []) m' := by
  intro global apart m bound e
  have hstart : { Machine.bare false with heap := global.heap }.Reached := by
    have hplaces (s : Store) (text : String) (p : Place)
        (hp : p ∈ Object.places { payload := .string text }) : s.Has p := nomatch hp
    exact ⟨((Store.Reached.start false).add (hplaces _ _)).add (hplaces _ _), Nat.one_pos⟩
  have hm : m.WellScoped := by
    have hglobal : global.WellScoped :=
      (hstart.wellScoped.defineIn "x" (v := 11) (by decide)).defineIn "y" (v := 11) (by decide)
    exact ((hglobal.newFrame "apart").enter (by decide)).defineIn "x" (v := 12) (by decide)
  have hchain : m.scope.chain m.scope.head = [1] := by
    rw [Scope.chain_eq]
    rfl
  have hlookup (name : String) : m.scope.lookup? name =
      ((m.scope.frame 1).bindings.get? name).or ((m.scope.frame 0).bindings.get? name) := by
    rw [Scope.lookup?_eq, hchain, List.map_cons, List.map_nil, List.findSome?_singleton]
    rfl
  have hx : m.scope.lookup? "x" = some 12 := (hlookup "x").trans (by decide)
  have hy : m.scope.lookup? "y" = some 11 := (hlookup "y").trans (by decide)
  have hz : m.scope.lookup? "z" = none := (hlookup "z").trans (by decide)
  have hbound : ∀ n, .tag n ∈ bound → m.scope.lookup? n ≠ none := by
    intro n hn
    rcases (by simpa [bound] using hn : n = "x" ∨ n = "y") with rfl | rfl
    · simp [hx]
    · simp [hy]
  have hplain : ∀ p ∈ bound ++ [.tag "z"], p.IsPlain := by decide
  have hroom (count : Nat) : m.ShowsAll .standard count := by
    intro levels _ _ v hv
    have hvalues : m.scope.boundValues = [12, 11, 11] := by
      rw [Scope.boundValues, Scope.visibleFrames, hchain]
      rfl
    rw [Heap.depth_of_not_list]
    · exact Nat.zero_le _
    · rcases (by simpa [hvalues] using hv : v = 12 ∨ v = 11) with rfl | rfl <;> nofun
  constructor
  · obtain ⟨-, htext, -⟩ := template_agrees_with_lookup hm .standard none
      (fun p hp => hplain p (List.mem_append_left _ hp)) (by decide) (hroom _)
    obtain ⟨r, m', hdone, -, -, hr⟩ := htext hbound e (List.mem_cons_of_mem _ List.mem_cons_self)
    have hshown : m.shown? "x" = some "\x7b\x7by\x7d\x7d" ∧ m.shown? "y" = some "far" := by
      rw [Machine.shown?, Machine.shown?, hx, hy]
      exact ⟨congrArg some (Heap.display_of_string rfl), congrArg some (Heap.display_of_string rfl)⟩
    have hjoin : String.join (bound.map (Piece.shown m.shown?)) =
        "It is \x7b\x7by\x7d\x7d, not far" := by
      simp only [bound, List.map_cons, List.map_nil, Piece.shown, hshown]
      rfl
    exact ⟨r, m', hdone, hr.trans (congrArg Payload.string hjoin)⟩
  · obtain ⟨-, -, hunbound⟩ := template_agrees_with_lookup hm .standard none hplain (by decide)
      (hroom _)
    exact hunbound bound "z" [] rfl hbound hz _ List.mem_cons_self

/-- Beside a list that is nested too deep, a template does not find a name that a lookup finds: all
that is bound is displayed, not only what the template asks for. -/
theorem template_fails_beside_deepList :
    let nested := { Machine.bare false with heap := Heap.initial.nest 300 }
    let bound := (nested.scope.defineIn 0 "x" (11 + 300)).defineIn 0 "y" Heap.trueRef
    let m := { nested with scope := bound }
    m.Reached ∧ m.scope.lookup? "y" = some Heap.trueRef ∧
      (∃ m', evaluate .standard (.template none (Piece.template [.tag "y"])) m =
        .failed .nestingTooDeep m') ∧
      ∃ r m', evaluate .standard (Piece.concatenation none [.tag "y"]) m = .done r m' ∧
        m'.heap.payload r = .string "true" := by
  intro nested bound m
  have hm : m.Reached :=
    ⟨(((Store.Reached.start false).nest 300).bind "x" (by decide) (by simp [Store.Has]; decide)).bind
      "y" (by decide) (by simp [Store.Has]; decide), Nat.one_pos⟩
  have hchain : m.scope.chain m.scope.head = [0] := by
    rw [Scope.chain_eq]
    rfl
  have hy : m.scope.lookup? "y" = some Heap.trueRef := by
    rw [Scope.lookup?_eq, hchain, List.map_cons, List.map_nil, List.findSome?_singleton]
    rfl
  have hdeep : m.heap.depth (11 + 300) = 301 := Heap.depth_nest (Nat.le_refl 300)
  have hbound : 11 + 300 ∈ m.scope.boundValues := by
    rw [Scope.boundValues, Scope.visibleFrames, hchain]
    decide
  have hpayload : m.heap.payload Heap.trueRef = .boolean true :=
    Heap.payload_nest_of_lt 300 (by decide)
  refine ⟨hm, hy, ?_, ?_⟩
  · have hroom : Limits.standard.shown 399 < m.heap.depth (11 + 300) := hdeep ▸ by decide
    exact template_tooDeep _ hbound hroom
  · have hfits (levels : Nat) :
        m.NamesFit (fun name => .tag name ∈ [Piece.tag "y"]) (Limits.standard.shown levels) := by
      intro name v hname hv
      rw [show name = "y" by simpa using hname, hy] at hv
      rw [← Option.some.inj hv, Heap.depth_of_not_list (hpayload ▸ nofun)]
      exact Nat.zero_le _
    have hgives : (evaluate .standard (Piece.concatenation none [.tag "y"]) m).Gives m IsText
        (Piece.joined m.shown? [.tag "y"]) :=
      gives_concatenation _ hm.wellScoped (by decide) fun levels _ _ => hfits levels
    have hjoined : Piece.joined m.shown? [.tag "y"] = .ok "true" := by
      have hshown : m.shown? "y" = some "true" := by
        rw [Machine.shown?, hy, Option.map_some, Heap.display, hpayload]
        rfl
      rw [Piece.joined, Piece.filled, hshown]
      rfl
    rw [hjoined] at hgives
    obtain ⟨r, m', hdone, -, -, hr⟩ := hgives
    exact ⟨r, m', hdone, hr⟩

end Run

end TreeScript
