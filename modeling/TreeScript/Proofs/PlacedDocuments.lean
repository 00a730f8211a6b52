import Mathlib.Data.List.Forall2
import TreeScript.Proofs.PlacedData
import TreeScript.Proofs.Places
import TreeScript.Proofs.Reports

/-!
# Places in documents are inert

What is built from data and from the same data without its valid places is the
same but for places, or is refused with the same fault but for the places in the
data that the fault shows. So two documents that differ at most in valid places are
both refused, with faults of the same kind, or are programs that end alike.
-/

namespace TreeScript

/-- Two pieces of code that differ at most in places. -/
def SameExpr (a b : Expr) : Prop := a.revise (.moving hidden) = b.revise (.moving hidden)

def SamePattern (a b : Pattern) : Prop := a.revise (.moving hidden) = b.revise (.moving hidden)

section SameCode

variable {a b : Expr}

theorem SameExpr.eq (h : SameExpr a b) :
    a.revise (.moving hidden) = b.revise (.moving hidden) := h

theorem SameExpr.isAssignable (h : SameExpr a b) : a.isAssignable = b.isAssignable := by
  have hrevise (e : Expr) : (e.revise (.moving hidden)).isAssignable = e.isAssignable := by
    cases e <;> rfl
  rw [← hrevise a, ← hrevise b, h.eq]

theorem sameProgram_of_forall₂ {as bs : List Expr} (h : List.Forall₂ SameExpr as bs) :
    SameProgram as bs := by
  induction h with
  | nil => rfl
  | cons hab _ ih => exact congrArg₂ List.cons hab ih

theorem reviseAll_eq {as bs : List Expr} (h : List.Forall₂ SameExpr as bs) :
    Expr.reviseAll (.moving hidden) as = Expr.reviseAll (.moving hidden) bs :=
  sameProgram_of_forall₂ h

theorem reviseOption_eq {a b : Option Expr} (h : Option.Rel SameExpr a b) :
    Expr.reviseOption (.moving hidden) a = Expr.reviseOption (.moving hidden) b := by
  cases h with
  | none => rfl
  | some h => exact congrArg some h

theorem revisePatterns_eq {ps qs : List Pattern} (h : List.Forall₂ SamePattern ps qs) :
    Pattern.reviseAll (.moving hidden) ps = Pattern.reviseAll (.moving hidden) qs := by
  induction h with
  | nil => rfl
  | cons hpq _ ih => exact congrArg₂ List.cons hpq ih

end SameCode

namespace Build

section Alike

variable {α β γ δ ι κ : Type} {R : α → β → Prop} {S : γ → δ → Prop}

/-- Two ends of building: related things and the same count of NaNs, or the same fault, which the
second shows without places. -/
inductive EndsAlike (R : α → β → Prop) :
    Except BuildFault (α × Nat) → Except BuildFault (β × Nat) → Prop
  | built {a : α} {b : β} (h : R a b) (nans : Nat) : EndsAlike R (.ok (a, nans)) (.ok (b, nans))
  | refused (fault : BuildFault) : EndsAlike R (.error fault) (.error fault.unplaced)

/-- Two ways of building that end alike from every count of NaNs. -/
def Alike (R : α → β → Prop) (x : Build α) (y : Build β) : Prop :=
  ∀ nans, EndsAlike R (x nans) (y nans)

theorem Alike.pure {a : α} {b : β} (h : R a b) : Alike R (pure a) (pure b) := fun n => .built h n

theorem Alike.throw {fault fault' : BuildFault} (h : fault' = fault.unplaced) :
    Alike R (throw fault : Build α) (throw fault' : Build β) := fun _ => h ▸ .refused fault

theorem Alike.bind {x : Build α} {y : Build β} {f : α → Build γ} {g : β → Build δ}
    (hx : Alike R x y) (hf : ∀ a b, R a b → Alike S (f a) (g b)) :
    Alike S (x >>= f) (y >>= g) := by
  intro n
  have hn := hx n
  change EndsAlike S (x n >>= fun p => f p.1 p.2) (y n >>= fun p => g p.1 p.2)
  generalize x n = a at hn ⊢
  generalize y n = b at hn ⊢
  cases hn with
  | built h n' => exact hf _ _ h n'
  | refused fault => exact .refused fault

theorem Alike.mono {R' : α → β → Prop} {x : Build α} {y : Build β} (hx : Alike R x y)
    (h : ∀ a b, R a b → R' a b) : Alike R' x y := by
  intro n
  have hn := hx n
  generalize x n = a at hn ⊢
  generalize y n = b at hn ⊢
  cases hn with
  | built hab n' => exact .built (h _ _ hab) n'
  | refused fault => exact .refused fault

theorem Alike.mapM {f : ι → Build α} {g : κ → Build β} {is : List ι} {js : List κ}
    (h : List.Forall₂ (fun i j => Alike R (f i) (g j)) is js) :
    Alike (List.Forall₂ R) (is.mapM f) (js.mapM g) := by
  induction h with
  | nil => exact Alike.pure .nil
  | cons hij _ ih =>
    rw [List.mapM_cons, List.mapM_cons]
    exact hij.bind fun a b hab => ih.bind fun as bs habs => Alike.pure (.cons hab habs)

end Alike

/-- The same fault is raised with and without places, and also shown if it is. -/
theorem Alike.refuse {α β : Type} {R : α → β → Prop} (parts : Parts) (room : Nat)
    {fault fault' : BuildFault} (h : fault' = fault.unplaced) :
    Alike R (Build.refuse parts room fault : Build α)
      (Build.refuse parts.unplaced room fault' : Build β) := by
  refine Alike.throw ?_
  rw [h, BuildFault.mapShown?_unplaced (Data.shown?_unplaced parts room [])]
  cases fault.mapShown? (Data.shown? parts room []) <;> rfl

/-! ## Fields -/

open Data (IsOwnField)

/-- The second mapping that is read is the first without places. -/
structure Site.Unplaces (s s' : Site) : Prop where
  parts : s'.parts = s.parts.unplaced
  room : s'.room = s.room
  node : s'.node = s.node.unplaced
  entries : s'.entries = Data.dropPlace (Data.unplacedEntries s.entries)

/-- The second data is the first without places. -/
def Stripped (d d' : Data) : Prop := d' = d.unplaced

section Fields

variable {α β : Type} {R : α → β → Prop} {s s' : Site} (hs : s.Unplaces s')

include hs

theorem Site.Unplaces.refuse {fault fault' : BuildFault} (h : fault' = fault.unplaced) :
    Alike R (s.refuse fault) (s'.refuse fault') := by
  unfold Site.refuse
  rw [hs.parts, hs.room]
  exact Alike.refuse s.parts s.room h

theorem Site.Unplaces.field {name : String} (hname : IsOwnField name) :
    Data.field? s'.entries name = (Data.field? s.entries name).map Data.unplaced := by
  rw [hs.entries, Data.field?_unplaced s.entries hname]

theorem Site.Unplaces.kindOf {key : String} (hkey : IsOwnField key) :
    s'.kindOf key = (s.kindOf key).unplaced := by
  unfold Site.kindOf
  rw [hs.field hkey]
  cases Data.field? s.entries key <;> rfl

theorem Site.Unplaces.shownKind : s'.shownKind = s.shownKind.unplaced := by
  simp only [Site.shownKind, hs.kindOf (show IsOwnField "node" by decide),
    hs.kindOf (show IsOwnField "pattern" by decide), Data.truthy_unplaced]
  split <;> rfl

theorem Site.Unplaces.required {name : String} (hname : IsOwnField name) :
    Alike Stripped (s.required name) (s'.required name) := by
  unfold Site.required
  rw [hs.field hname]
  cases Data.field? s.entries name with
  | none =>
    refine hs.refuse ?_
    rw [hs.kindOf (by decide), BuildFault.unplaced]
  | some d => exact Alike.pure rfl

theorem Site.Unplaces.optional {name : String} (hname : IsOwnField name) :
    s'.optional name = (s.optional name).map Data.unplaced := by
  unfold Site.optional
  rw [hs.field hname]
  cases Data.field? s.entries name with
  | none => rfl
  | some d => cases d <;> rfl

theorem Site.Unplaces.items {name : String} (hname : IsOwnField name)
    {fault : Data → BuildFault} (hfault : ∀ d, fault d.unplaced = (fault d).unplaced) :
    Alike (List.Forall₂ Stripped) (s.items name fault) (s'.items name fault) := by
  unfold Site.items
  rw [hs.optional hname, Option.map_map]
  cases s.optional name with
  | none => exact Alike.pure .nil
  | some d =>
    simp only [Option.map_some, Function.comp_apply, hs.parts, Parts.look_unplaced]
    cases s.parts.look d
    case list items =>
      refine Alike.pure ?_
      rw [Data.unplacedItems_eq_map, List.forall₂_map_right_iff, List.forall₂_same]
      exact fun _ _ => rfl
    all_goals exact hs.refuse (hfault _)

/-- The text of a scalar has no places in it. -/
theorem Site.Unplaces.text {name : String} (hname : IsOwnField name) :
    Alike Eq (s.text name) (s'.text name) := by
  refine (hs.required hname).bind ?_
  rintro value _ rfl
  cases value
  case null | list | mapping | part =>
    refine hs.refuse ?_
    rw [hs.shownKind, BuildFault.unplaced]
  all_goals
    simp only [Data.unplaced]
    split
    · exact Alike.pure rfl
    · exact Alike.throw rfl

omit hs in
theorem alike_freshOrigin : Alike Eq freshOrigin freshOrigin := fun n => .built rfl (n + 1)

theorem Site.Unplaces.number {name : String} (hname : IsOwnField name) :
    Alike Eq (s.number name) (s'.number name) := by
  refine (hs.required hname).bind ?_
  rintro value _ rfl
  have hrefused (d : Data) : Alike Eq (s.refuse (.notANumber (s.kindOf "node") name d))
      (s'.refuse (.notANumber (s'.kindOf "node") name d.unplaced) : Build NumberLiteral) := by
    refine hs.refuse ?_
    rw [hs.kindOf (by decide), BuildFault.unplaced]
  have hspelled (x : Float) : Alike Eq (do return ⟨x, ← freshOrigin⟩ : Build NumberLiteral)
      (do return ⟨x, ← freshOrigin⟩) :=
    alike_freshOrigin.bind fun _ _ heq => Alike.pure (heq ▸ rfl)
  cases value with
  | float x origin => exact Alike.pure rfl
  | integer i =>
    simp only [Data.unplaced]
    cases Decimal.ofInteger? i with
    | some x => exact Alike.pure rfl
    | none => exact Alike.throw rfl
  | text spelling =>
    simp only [Data.unplaced]
    cases Decimal.ofText? spelling with
    | some x => exact hspelled x
    | none => exact hrefused _
  | bytes b =>
    simp only [Data.unplaced]
    cases numberOfBytes? b with
    | some x => exact hspelled x
    | none => exact hrefused _
  | _ => exact hrefused _

theorem Site.Unplaces.functionName : Alike Eq s.functionName s'.functionName := by
  unfold Site.functionName
  rw [hs.field (by decide)]
  cases Data.field? s.entries "name" with
  | none => exact Alike.pure rfl
  | some name =>
    cases name
    case null | text => exact Alike.pure rfl
    all_goals exact hs.refuse rfl

theorem Site.Unplaces.kind {key : String} (hkey : IsOwnField key) (ofName? : String → Option α)
    {absent unknown : Data → BuildFault} (habsent : ∀ d, absent d.unplaced = (absent d).unplaced)
    (hunknown : ∀ d, unknown d.unplaced = (unknown d).unplaced) :
    Alike Eq (s.kind key ofName? absent unknown) (s'.kind key ofName? absent unknown) := by
  unfold Site.kind
  rw [hs.kindOf hkey, hs.node]
  cases s.kindOf key
  case null => exact hs.refuse (habsent _)
  case text name =>
    simp only [Data.unplaced]
    cases ofName? name with
    | some kind => exact Alike.pure rfl
    | none => exact hs.refuse (hunknown (.text name))
  all_goals exact hs.refuse (hunknown _)

/-! ### Fields that hold code -/

variable {f : Data → Build α} {g : Data → Build β} (hf : ∀ d, Alike R (f d) (g d.unplaced))

include hf

theorem Site.Unplaces.child {name : String} (hname : IsOwnField name) :
    Alike R (s.required name >>= f) (s'.required name >>= g) := by
  refine (hs.required hname).bind ?_
  rintro d _ rfl
  exact hf d

theorem Site.Unplaces.optionalChild {name : String} (hname : IsOwnField name) :
    Alike (Option.Rel R)
      (match s.optional name with
        | some d => some <$> f d
        | none => pure none)
      (match s'.optional name with
        | some d => some <$> g d
        | none => pure none) := by
  rw [hs.optional hname]
  cases s.optional name with
  | none => exact Alike.pure .none
  | some d => exact (hf d).bind fun a b hab => Alike.pure (.some hab)

omit hs in
theorem alike_mapM {items items' : List Data} (h : List.Forall₂ Stripped items items') :
    Alike (List.Forall₂ R) (items.mapM f) (items'.mapM g) := by
  refine Alike.mapM (h.imp ?_)
  rintro d _ rfl
  exact hf d

theorem Site.Unplaces.children {name : String} (hname : IsOwnField name)
    {fault : Data → BuildFault} (hfault : ∀ d, fault d.unplaced = (fault d).unplaced) :
    Alike (List.Forall₂ R) (s.items name fault >>= fun items => items.mapM f)
      (s'.items name fault >>= fun items => items.mapM g) :=
  (hs.items hname hfault).bind fun _ _ hitems => alike_mapM hf hitems

end Fields

/-! ## Places -/

theorem isWritable_mk (line : Int) (origin : String) :
    Loc.isWritable ⟨line, origin⟩ = Text.isWritable line := rfl

/-- A valid place is one that can be written. -/
theorem location_of_valid {s : Site} (h : Data.hasValidPlace s.entries = true) :
    ∃ l, s.location = pure l ∧ l.all (·.isWritable) = true := by
  obtain ⟨hline, horigin⟩ := (Bool.and_eq_true _ _).mp h
  unfold Site.location
  cases hfield : Data.field? s.entries "line" with
  | none => exact ⟨none, rfl, rfl⟩
  | some line =>
    rw [hfield] at hline
    cases line with
    | null => exact ⟨none, rfl, rfl⟩
    | integer i =>
      cases hfield' : Data.field? s.entries "origin" with
      | none =>
        refine ⟨_, rfl, ?_⟩
        rw [Option.all_some, isWritable_mk]
        exact hline
      | some o =>
        rw [hfield'] at horigin
        cases o with
        | text o =>
          refine ⟨_, rfl, ?_⟩
          rw [Option.all_some, isWritable_mk]
          exact hline
        | _ => cases horigin
    | _ => cases hline

theorem location_dropPlace {s : Site} {entries : Entries} (h : Data.hasValidPlace entries = true)
    (hs : s.entries = Data.dropPlace entries) : s.location = pure none := by
  unfold Site.location
  rw [hs]
  rcases Data.line_dropPlace h with h | h <;> rw [h]

theorem hidden_of_unwritable {line : Int} (h : Text.isWritable line = false)
    (origin origin' : String) : hidden (some ⟨line, origin⟩) = hidden (some ⟨line, origin'⟩) := by
  simp only [hidden, Option.all_some, isWritable_mk, h]

section Places

variable {s s' : Site} (hs : s.Unplaces s')

include hs

/-- A place that is not valid is refused or not looked at, or it cannot be written, wherever it is. -/
theorem alike_location_of_invalid (h : Data.hasValidPlace s.entries = false) :
    Alike (fun l l' => hidden l = hidden l') s.location s'.location := by
  have hentries : s'.entries = Data.unplacedEntries s.entries := by
    rw [hs.entries, Data.dropPlace_of_invalid]
    rw [Data.hasValidPlace_unplacedEntries, h]
  unfold Site.location
  simp only [hentries, Data.field?_unplacedEntries]
  unfold Data.hasValidPlace at h
  cases hline : Data.field? s.entries "line" with
  | none => exact Alike.pure rfl
  | some line =>
    rw [hline] at h
    cases line with
    | null => exact Alike.pure rfl
    | integer i =>
      cases horigin : Data.field? s.entries "origin" with
      | none =>
        rw [horigin] at h
        have hline : Text.isWritable i = false := (Bool.and_true _).symm.trans h
        exact Alike.pure (hidden_of_unwritable hline s.origin s'.origin)
      | some o =>
        cases o with
        | text o => exact Alike.pure rfl
        | _ => exact hs.refuse rfl
    | _ => exact hs.refuse rfl

theorem Site.Unplaces.location :
    Alike (fun l l' => hidden l = hidden l') s.location s'.location := by
  have hsame := Data.hasValidPlace_unplacedEntries s.entries
  cases hvalid : Data.hasValidPlace s.entries with
  | true =>
    obtain ⟨l, hl, hwritable⟩ := location_of_valid hvalid
    rw [hl, location_dropPlace (hsame.trans hvalid) hs.entries]
    refine Alike.pure ?_
    rw [hidden_of_writable hwritable, hidden_of_writable rfl]
  | false => exact alike_location_of_invalid hs hvalid

end Places

/-! ## Code -/

/-- With so much room or less, data and the same data without its places are code alike. -/
structure AlikeWithin (origin origin' : String) (parts : Parts) (room : Nat) : Prop where
  expr : ∀ n ≤ room, ∀ d : Data,
    Alike SameExpr (expr origin d parts n) (expr origin' d.unplaced parts.unplaced n)
  pattern : ∀ n ≤ room, ∀ d : Data,
    Alike SamePattern (pattern origin d parts n) (pattern origin' d.unplaced parts.unplaced n)

section Step

variable {origin origin' : String} {parts : Parts} {room : Nat}
  (hbelow : AlikeWithin origin origin' parts room)

/-- The mapping of a node or parameter, and the one that is left of it without its place. -/
theorem unplaces_site (origin origin' : String) (parts : Parts) (room : Nat) (data : Data)
    (entries : List (Data × Data)) :
    Site.Unplaces ⟨origin, parts, room, data, entries⟩
      ⟨origin', parts.unplaced, room, data.unplaced,
        Data.dropPlace (Data.unplacedEntries entries)⟩ := ⟨rfl, rfl, rfl, rfl⟩

include hbelow

/-- Each kind of node reads its fields in the same order on both sides. -/
theorem alike_node {data : Data} {entries : List (Data × Data)}
    (hdata : parts.look data = .mapping entries) :
    Alike SameExpr (expr origin data parts (room + 1))
      (expr origin' data.unplaced parts.unplaced (room + 1)) := by
  rw [expr, expr, Parts.look_unplaced, hdata]
  have hs := unplaces_site origin origin' parts room data entries
  have hchild := hbelow.expr room le_rfl
  have hoptional := hbelow.expr (room - 1) (Nat.sub_le _ _)
  have hitem := hbelow.expr (room - 2) (Nat.sub_le _ _)
  have hpattern := hbelow.pattern (room - 1) (Nat.sub_le _ _)
  refine hs.location.bind fun loc loc' hloc => ?_
  refine (hs.kind (by decide) NodeKind.ofName? (fun _ => rfl) fun _ => rfl).bind ?_
  rintro kind _ rfl
  cases kind with
  | number =>
    refine (hs.number (by decide)).bind ?_
    rintro n _ rfl
    exact Alike.pure (by simp [SameExpr, Expr.revise, hloc])
  | string | template | name =>
    refine (hs.text (by decide)).bind ?_
    rintro s _ rfl
    exact Alike.pure (by simp [SameExpr, Expr.revise, hloc])
  | boolean =>
    refine (hs.required (by decide)).bind ?_
    rintro value _ rfl
    exact Alike.pure (by simp [SameExpr, Expr.revise, hloc])
  | null => exact Alike.pure (by simp [SameExpr, Expr.revise, hloc])
  | assign =>
    refine (hs.child hchild (by decide)).bind fun target target' ht => ?_
    -- places do not tell targets from other code, so the value is read on both sides or on none
    rw [ht.isAssignable]
    split
    · refine (hs.child hchild (by decide)).bind fun value value' hv => ?_
      exact Alike.pure (by simp [SameExpr, Expr.revise, hloc, ht.eq, hv.eq])
    · exact Alike.throw rfl
  | block | list =>
    refine (hs.children hitem (by decide) fun _ => rfl).bind fun es es' hes => ?_
    exact Alike.pure (by simp [SameExpr, Expr.revise, hloc, reviseAll_eq hes])
  | branch =>
    refine (hs.child hchild (by decide)).bind fun c c' hc => ?_
    refine (hs.child hchild (by decide)).bind fun y y' hy => ?_
    refine (hs.optionalChild hoptional (by decide)).bind fun n n' hn => ?_
    exact Alike.pure (by simp [SameExpr, Expr.revise, hloc, hc.eq, hy.eq, reviseOption_eq hn])
  | loop =>
    refine (hs.child hchild (by decide)).bind fun c c' hc => ?_
    refine (hs.child hchild (by decide)).bind fun body body' hbody => ?_
    exact Alike.pure (by simp [SameExpr, Expr.revise, hloc, hc.eq, hbody.eq])
  | function =>
    refine hs.functionName.bind ?_
    rintro name _ rfl
    refine (hs.items (by decide) fun _ => rfl).bind fun items items' hitems => ?_
    refine (alike_mapM hpattern hitems).bind fun ps ps' hps => ?_
    refine (hs.child hchild (by decide)).bind fun body body' hbody => ?_
    exact Alike.pure (by simp [SameExpr, Expr.revise, hloc, revisePatterns_eq hps, hbody.eq])
  | call =>
    refine (hs.child hchild (by decide)).bind fun callee callee' hc => ?_
    refine (hs.children hitem (by decide) fun _ => rfl).bind fun args args' hargs => ?_
    exact Alike.pure (by simp [SameExpr, Expr.revise, hloc, hc.eq, reviseAll_eq hargs])
  | operator =>
    refine (hs.text (by decide)).bind ?_
    rintro op _ rfl
    refine (hs.child hchild (by decide)).bind fun a a' ha => ?_
    refine (hs.child hchild (by decide)).bind fun b b' hb => ?_
    exact Alike.pure (by simp [SameExpr, Expr.revise, hloc, ha.eq, hb.eq])
  | unary =>
    refine (hs.text (by decide)).bind ?_
    rintro op _ rfl
    refine (hs.child hchild (by decide)).bind fun e e' he => ?_
    exact Alike.pure (by simp [SameExpr, Expr.revise, hloc, he.eq])
  | member =>
    refine (hs.child hchild (by decide)).bind fun e e' he => ?_
    refine (hs.text (by decide)).bind ?_
    rintro name _ rfl
    exact Alike.pure (by simp [SameExpr, Expr.revise, hloc, he.eq])
  | index =>
    refine (hs.child hchild (by decide)).bind fun e e' he => ?_
    refine (hs.child hchild (by decide)).bind fun i i' hi => ?_
    exact Alike.pure (by simp [SameExpr, Expr.revise, hloc, he.eq, hi.eq])
  | classDef =>
    refine (hs.text (by decide)).bind ?_
    rintro name _ rfl
    refine (hs.optionalChild hoptional (by decide)).bind fun s s' hs' => ?_
    refine (hs.children hitem (by decide) fun _ => rfl).bind fun body body' hbody => ?_
    exact Alike.pure (by simp [SameExpr, Expr.revise, hloc, reviseOption_eq hs', reviseAll_eq hbody])

theorem alike_parameter {data : Data} {entries : List (Data × Data)}
    (hdata : parts.look data = .mapping entries) :
    Alike SamePattern (pattern origin data parts (room + 1))
      (pattern origin' data.unplaced parts.unplaced (room + 1)) := by
  rw [pattern, pattern, Parts.look_unplaced, hdata]
  have hs := unplaces_site origin origin' parts room data entries
  have hexpr := hbelow.expr room le_rfl
  have hpattern := hbelow.pattern (room - 1) (Nat.sub_le _ _)
  refine hs.location.bind fun loc loc' hloc => ?_
  refine (hs.kind (by decide) PatternKind.ofName? (fun _ => rfl) fun _ => rfl).bind ?_
  rintro kind _ rfl
  cases kind with
  | wildcard => exact Alike.pure (by simp [SamePattern, Pattern.revise, hloc])
  | name =>
    refine (hs.text (by decide)).bind ?_
    rintro name _ rfl
    exact Alike.pure (by simp [SamePattern, Pattern.revise, hloc])
  | literal =>
    refine (hs.required (by decide)).bind ?_
    rintro d _ rfl
    refine (hexpr d).bind fun e e' he => ?_
    exact Alike.pure (by simp [SamePattern, Pattern.revise, hloc, he.eq])
  | typed =>
    refine (hs.text (by decide)).bind ?_
    rintro name _ rfl
    refine (hs.required (by decide)).bind ?_
    rintro d _ rfl
    refine (hexpr d).bind fun e e' he => ?_
    exact Alike.pure (by simp [SamePattern, Pattern.revise, hloc, he.eq])
  | list =>
    refine (hs.items (by decide) fun _ => rfl).bind fun items items' hitems => ?_
    refine (alike_mapM hpattern hitems).bind fun ps ps' hps => ?_
    exact Alike.pure (by simp [SamePattern, Pattern.revise, hloc, revisePatterns_eq hps])

theorem AlikeWithin.succ : AlikeWithin origin origin' parts (room + 1) := by
  refine ⟨fun n hn data => ?_, fun n hn data => ?_⟩
  · rcases Nat.le_succ_iff.mp hn with hle | rfl
    · exact hbelow.expr n hle data
    · cases hdata : parts.look data with
      | mapping entries => exact alike_node hbelow hdata
      | integer i =>
        rw [Build.expr, Build.expr, Parts.look_unplaced, hdata]
        simp only [Data.unplaced]
        cases Decimal.ofInteger? i with
        | some x => exact Alike.pure rfl
        | none => exact Alike.throw rfl
      | null | boolean | float =>
        rw [Build.expr, Build.expr, Parts.look_unplaced, hdata]
        exact Alike.pure rfl
      | _ =>
        rw [Build.expr, Build.expr, Parts.look_unplaced, hdata]
        exact Alike.refuse parts room rfl
  · rcases Nat.le_succ_iff.mp hn with hle | rfl
    · exact hbelow.pattern n hle data
    · cases hdata : parts.look data with
      | mapping entries => exact alike_parameter hbelow hdata
      | text name =>
        rw [Build.pattern, Build.pattern, Parts.look_unplaced, hdata]
        exact Alike.pure rfl
      | _ =>
        rw [Build.pattern, Build.pattern, Parts.look_unplaced, hdata]
        exact Alike.refuse parts room rfl

end Step

/-- By induction on the room. -/
theorem alikeWithin (origin origin' : String) (parts : Parts) (room : Nat) :
    AlikeWithin origin origin' parts room := by
  induction room with
  | zero =>
    refine ⟨fun n hn data => ?_, fun n hn data => ?_⟩
    · obtain rfl := Nat.le_zero.mp hn
      rw [expr, expr]
      exact Alike.throw rfl
    · obtain rfl := Nat.le_zero.mp hn
      rw [pattern, pattern]
      exact Alike.throw rfl
  | succ room ih => exact ih.succ

theorem alike_expr (origin origin' : String) (data : Data) (parts : Parts) (calls : Nat) :
    Alike SameExpr (expr origin data parts calls)
      (expr origin' data.unplaced parts.unplaced calls) :=
  (alikeWithin origin origin' parts calls).expr calls le_rfl data

theorem alike_program (origin origin' : String) (data : Data) (parts : Parts) (calls : Nat) :
    Alike SameProgram (program origin data parts calls)
      (program origin' data.unplaced parts.unplaced calls) := by
  have hone : Alike SameProgram (do return [← expr origin data parts calls])
      (do return [← expr origin' data.unplaced parts.unplaced calls]) :=
    (alike_expr origin origin' data parts calls).bind fun _ _ hab =>
      Alike.pure (sameProgram_of_forall₂ (.cons hab .nil))
  unfold program
  rw [Parts.look_unplaced]
  cases parts.look data with
  | null => exact Alike.pure rfl
  | list nodes =>
    have hnodes : List.Forall₂ Stripped nodes (Data.unplacedItems nodes) := by
      rw [Data.unplacedItems_eq_map, List.forall₂_map_right_iff, List.forall₂_same]
      exact fun _ _ => rfl
    exact (alike_mapM (fun d => alike_expr origin origin' d parts (calls - 1)) hnodes).mono
      fun _ _ => sameProgram_of_forall₂
  | _ => exact hone

/-- Documents that are the same without their places are programs alike, or are refused alike. -/
theorem program_cases {d₁ d₂ : Document} (h : d₁.unplaced = d₂.unplaced)
    (origin₁ origin₂ : String) (calls nans : Nat) :
    (∃ p₁ p₂ nans', SameProgram p₁ p₂ ∧
      program origin₁ d₁.root d₁.parts calls nans = .ok (p₁, nans') ∧
      program origin₂ d₂.root d₂.parts calls nans = .ok (p₂, nans')) ∨
    ∃ f₁ f₂, f₁.unplaced = f₂.unplaced ∧
      program origin₁ d₁.root d₁.parts calls nans = .error f₁ ∧
      program origin₂ d₂.root d₂.parts calls nans = .error f₂ := by
  obtain ⟨hroot, hparts⟩ := Document.mk.inj h
  have h₁ := alike_program origin₁ origin₁ d₁.root d₁.parts calls nans
  have h₂ := alike_program origin₂ origin₁ d₂.root d₂.parts calls nans
  rw [← hroot, ← hparts] at h₂
  generalize program origin₁ d₁.root d₁.parts calls nans = e₁ at h₁ ⊢
  generalize program origin₂ d₂.root d₂.parts calls nans = e₂ at h₂ ⊢
  generalize program origin₁ d₁.root.unplaced d₁.parts.unplaced calls nans = e at h₁ h₂
  cases h₁ with
  | @built p₁ p hp₁ nans' =>
    cases h₂ with
    | @built p₂ _ hp₂ => exact .inl ⟨p₁, p₂, nans', hp₁.trans hp₂.symm, rfl, rfl⟩
  | refused f₁ =>
    generalize hf : f₁.unplaced = f at h₂
    cases h₂ with
    | refused f₂ => exact .inr ⟨f₁, f₂, hf, rfl, rfl⟩

end Build

/-! ## Documents -/

namespace Runner

/-- Two ends of running documents that differ at most in places: both programs run and end alike, or
both documents are refused, with the same fault but for the places in what it shows. -/
inductive DocumentsEndAlike :
    Except RunFault RunResult × Runner → Except RunFault RunResult × Runner → Prop
  | ran {x y : Except RunFault RunResult × Runner} (h : EndsAlike x y) : DocumentsEndAlike x y
  | rejected (f₁ f₂ : BuildFault) (hf : f₁.unplaced = f₂.unplaced) {r₁ r₂ : Runner}
    (hr : r₁.SameButPlaces r₂)
    (heffects₁ : r₁.machine.effects = #[⟨.stderr, rejection (.building f₁)⟩])
    (heffects₂ : r₂.machine.effects = #[⟨.stderr, rejection (.building f₂)⟩]) :
    DocumentsEndAlike (.ok (.rejected (.building f₁) (rejection (.building f₁))), r₁)
      (.ok (.rejected (.building f₂) (rejection (.building f₂))), r₂)

/-- Documents that are the same without their places end alike on runners that are the same but for
places. -/
theorem runDocument_endsAlike {r₁ r₂ : Runner} (hr : r₁.SameButPlaces r₂)
    {text₁ text₂ : String} {format₁ format₂ : Option String} {d₁ d₂ : Document}
    (hd₁ : readDocument text₁ format₁ none r₁.limits.documents = .ok d₁)
    (hd₂ : readDocument text₂ format₂ none r₂.limits.documents = .ok d₂)
    (h : d₁.unplaced = d₂.unplaced) :
    DocumentsEndAlike (r₁.runDocument text₁ format₁) (r₂.runDocument text₂ format₂) := by
  have hempty {m₁ m₂ : Machine} (hm : m₁.SameButPlaces m₂) (nans : Nat) :
      SameButPlaces { r₁ with machine := m₁, nans } { r₂ with machine := m₂, nans } :=
    ⟨sameButPlaces_withEffects hm #[], rfl, hr.limits⟩
  rcases Build.program_cases h r₁.origin r₂.origin r₁.limits.documents.calls r₁.nans with
    ⟨p₁, p₂, nans, hp, hp₁, hp₂⟩ | ⟨f₁, f₂, hf, hf₁, hf₂⟩
  · rw [hr.nans, hr.limits] at hp₂
    rw [runDocument_of_built hd₁ hp₁, runDocument_of_built hd₂ hp₂]
    exact .ran (run_endsAlike (hempty hr.machine nans) hp)
  · rw [hr.nans, hr.limits] at hf₂
    rw [runDocument_of_unbuilt hd₁ hf₁, runDocument_of_unbuilt hd₂ hf₂]
    have hkind : DocumentFault.kind (.building f₁) = DocumentFault.kind (.building f₂) := by
      rw [← DocumentFault.kind_building_unplaced f₁, hf, DocumentFault.kind_building_unplaced]
    by_cases hinvalid : DocumentFault.kind (.building f₁) = .invalid
    · simp only [refuse, if_pos hinvalid, if_pos (hkind ▸ hinvalid)]
      exact .rejected f₁ f₂ hf ⟨hr.machine, hr.nans, hr.limits⟩ rfl rfl
    · have hinvalid' : DocumentFault.kind (.building f₂) ≠ .invalid := hkind ▸ hinvalid
      simp only [refuse, if_neg hinvalid, if_neg hinvalid']
      rw [← BuildFault.unplaced_eq hinvalid, hf, BuildFault.unplaced_eq hinvalid']
      exact .ran (.unreported _ ⟨hr.machine, hr.nans, hr.limits⟩ rfl)

/-- A document that gives a line and nothing else, which is refused. -/
def lineDocument (line : String) : String := "\x7b\"line\": " ++ line ++ "\x7d"

theorem read_line_one :
    readDocument (lineDocument "1") (some "json") none =
      .ok { root := .mapping [(.text "line", .integer 1)] } := rfl

theorem read_line_two :
    readDocument (lineDocument "2") (some "json") none =
      .ok { root := .mapping [(.text "line", .integer 2)] } := rfl

theorem unplaced_line_one_two :
    Document.unplaced { root := .mapping [(.text "line", .integer 1)] } =
      Document.unplaced { root := .mapping [(.text "line", .integer 2)] } := by
  have hone : Text.isWritable 1 = true := by decide +kernel
  have htwo : Text.isWritable 2 = true := by decide +kernel
  rw [Document.unplaced, Document.unplaced, Data.unplaced_line hone, Data.unplaced_line htwo]

/-- Places are inert. Programs that are the same but for places end alike on runners that are the
same but for places, and so do documents that are the same without their valid places, unless both
are refused; then the fault is of the same kind, and differs at most in places in the data that it
shows. -/
theorem places_inert {r₁ r₂ : Runner} (hr : r₁.SameButPlaces r₂) :
    (∀ p₁ p₂, SameProgram p₁ p₂ → EndsAlike (r₁.run p₁) (r₂.run p₂)) ∧
    ∀ text₁ text₂ format₁ format₂ d₁ d₂,
      readDocument text₁ format₁ none r₁.limits.documents = .ok d₁ →
      readDocument text₂ format₂ none r₂.limits.documents = .ok d₂ → d₁.unplaced = d₂.unplaced →
      DocumentsEndAlike (r₁.runDocument text₁ format₁) (r₂.runDocument text₂ format₂) :=
  ⟨fun _ _ hp => run_endsAlike hr hp,
    fun _ _ _ _ _ _ hd₁ hd₂ h => runDocument_endsAlike hr hd₁ hd₂ h⟩

theorem places_inert_lines :
    EndsAlike ((Runner.new true false).run [.name (some ⟨1, "a"⟩) "x"])
      ((Runner.new true false).run [.name none "x"]) ∧
    DocumentsEndAlike ((Runner.new true false).runDocument (lineDocument "1") (some "json"))
      ((Runner.new true false).runDocument (lineDocument "2") (some "json")) := by
  have hr : (Runner.new true false).SameButPlaces (Runner.new true false) :=
    ⟨⟨rfl, rfl, rfl, rfl, rfl, rfl⟩, rfl, rfl⟩
  have hone : (some (⟨1, "a"⟩ : Loc)).all (·.isWritable) = true := by decide +kernel
  constructor
  · refine (places_inert hr).1 _ _ (sameProgram_of_forall₂ (.cons ?_ .nil))
    simp only [SameExpr, Expr.revise, Revision.place_moving]
    rw [hidden_of_writable hone, hidden_of_writable rfl]
  · exact (places_inert hr).2 _ _ _ _ _ _ read_line_one read_line_two unplaced_line_one_two

/-- The places of a document that is refused show in its report, and a place that cannot be written
is noticed where a report would name it. -/
theorem places_shown :
    ((∃ d₁ d₂ : Document, d₁.unplaced = d₂.unplaced ∧
        readDocument (lineDocument "1") (some "json") none = .ok d₁ ∧
        readDocument (lineDocument "2") (some "json") none = .ok d₂) ∧
      ((Runner.new true false).runDocument (lineDocument "1") (some "json")).2.machine.effects =
        #[⟨.stderr, "DocumentError: node mapping without a 'node' kind: \x7b'line': 1\x7d"⟩] ∧
      ((Runner.new true false).runDocument (lineDocument "2") (some "json")).2.machine.effects =
        #[⟨.stderr, "DocumentError: node mapping without a 'node' kind: \x7b'line': 2\x7d"⟩]) ∧
    ((Runner.new true false).run [.name (some ⟨1, ""⟩) "x"]).1.isOk = true ∧
    ((Runner.new true false).run
      [.name (some ⟨Nat.pow 10 Text.mostDigits, ""⟩) "x"]).1.isOk = false :=
  ⟨⟨⟨_, _, unplaced_line_one_two, read_line_one, read_line_two⟩, by decide +kernel⟩,
    by decide +kernel⟩

end Runner

end TreeScript
