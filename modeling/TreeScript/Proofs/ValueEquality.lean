import Mathlib.Data.List.Forall2
import TreeScript.Proofs.CodeEquality
import TreeScript.Value.Export

/-!
# Equal values

Every value has a form, in which a number has lost the sign of zero, a function
all but its name and bare code, and a list holds the forms of its items; a value
that is compared by identity is its own form. Two values are equal exactly when
their forms are the same, so equality is an equivalence. What a value displays,
its data and its class can be told from its form.
-/

namespace TreeScript

namespace Heap

/-- What equal values have in common. -/
inductive Form where
  | number (value : Float)
  | string (value : String)
  | boolean (value : Bool)
  | null
  | list (items : List Form)
  | function (bare : Function)
  | overloads (name : String) (bare : List Function)
  /-- The form of a value that equals nothing else. -/
  | itself (r : Ref)

/-- Lists are younger than their items. -/
def ListsOrdered (h : Heap) : Prop :=
  ∀ r items, h.payload r = .list items → ∀ i ∈ items, i < r

def form (h : Heap) (r : Ref) : Form :=
  match h.payload r with
  | .number x => .number (Decimal.plain x)
  | .string s => .string s
  | .boolean b => .boolean b
  | .null => .null
  | .list items => .list (items.map fun i => if _h : i < r then h.form i else .null)
  | .function fn => .function fn.bare
  | .overloads name fns => .overloads name (fns.map Function.bare)
  | _ => .itself r
termination_by r

section Lists

variable {h : Heap} (hh : h.ListsOrdered) {r : Ref} {items : List Ref}
  (hr : h.payload r = .list items)

include hh hr

theorem map_guarded {α : Type} (f : Ref → α) (default : α) :
    (items.map fun i => if _h : i < r then f i else default) = items.map f :=
  List.map_congr_left fun i hi => dif_pos (hh r items hr i hi)

theorem form_list : h.form r = .list (items.map h.form) := by
  rw [form, hr]
  simp only [map_guarded hh hr]

theorem display_list :
    h.display r = "[" ++ String.intercalate ", " (items.map h.display) ++ "]" := by
  rw [display, hr]
  simp only [map_guarded hh hr]

theorem toData_list : h.toData r = .list (items.map h.toData) := by
  rw [toData, hr]
  simp only [map_guarded hh hr]

/-- Lists are equal item by item. -/
theorem same_list {s : Ref} {items' : List Ref} (hs : h.payload s = .list items') :
    h.same r s = true ↔ List.Forall₂ (fun i j => h.same i j = true) items items' := by
  rw [same, hr, hs, List.forall₂_iff_zip]
  simp only [Bool.and_eq_true, beq_iff_eq, List.all_eq_true, Prod.forall]
  refine and_congr_right fun _ => forall₂_congr fun i j => forall_congr' fun hij => ?_
  rw [dif_pos (hh r items hr i (List.of_mem_zip hij).1)]

end Lists

theorem map_eq_of_forall₂ {α β : Type} {R : α → α → Prop} {f : α → β} {as bs : List α}
    (h : List.Forall₂ R as bs) (hf : ∀ a ∈ as, ∀ b, R a b → f a = f b) : as.map f = bs.map f := by
  induction h with
  | nil => rfl
  | @cons a b as bs hab _ ih =>
    rw [List.map_cons, List.map_cons, hf a List.mem_cons_self b hab,
      ih fun a ha => hf a (List.mem_cons_of_mem _ ha)]

section Equality

variable {h : Heap} (hh : h.ListsOrdered)

include hh

theorem same_iff_form (a b : Ref) : h.same a b = true ↔ h.form a = h.form b := by
  induction a using Nat.strongRecOn generalizing b with
  | ind a ih =>
    cases ha : h.payload a with
    | list items =>
      cases hb : h.payload b with
      | list items' =>
        rw [same_list hh ha hb, form_list hh ha, form_list hh hb, Form.list.injEq,
          ← List.forall₂_eq_eq_eq, List.forall₂_map_left_iff, List.forall₂_map_right_iff,
          List.forall₂_iff_zip, List.forall₂_iff_zip]
        refine and_congr_right fun _ => forall₂_congr fun i j => forall_congr' fun hij => ?_
        exact ih i (hh a items ha i (List.of_mem_zip hij).1) j
      | _ =>
        have hab : a ≠ b := by
          rintro rfl
          rw [ha] at hb
          cases hb
        rw [form_list hh ha, same, form, ha, hb]
        simp [hab]
    | _ =>
      unfold same form
      rw [ha]
      cases hb : h.payload b <;>
        simp [sameNumber_iff, Function.same_iff, Function.sameAll_iff]
      -- values of different kinds are not the same value
      all_goals
        rintro rfl
        rw [ha] at hb
        cases hb

theorem same_equivalence : Equivalence fun a b => h.same a b = true where
  refl a := (same_iff_form hh a a).mpr rfl
  symm hab := (same_iff_form hh _ _).mpr ((same_iff_form hh _ _).mp hab).symm
  trans hab hbc :=
    (same_iff_form hh _ _).mpr (((same_iff_form hh _ _).mp hab).trans ((same_iff_form hh _ _).mp hbc))

/-- How two values of a kind come to be equal. -/
inductive Agrees (h : Heap) (a b : Ref) : Prop
  | itself (hab : a = b)
  /-- There is one NaN, so NaN equals NaN. -/
  | number {x y : Float} (ha : h.payload a = .number x) (hb : h.payload b = .number y)
    (hxy : x = y ∨ Decimal.IsZero x ∧ Decimal.IsZero y)
  | string {s : String} (ha : h.payload a = .string s) (hb : h.payload b = .string s)
  | boolean {p : Bool} (ha : h.payload a = .boolean p) (hb : h.payload b = .boolean p)
  | null (ha : h.payload a = .null) (hb : h.payload b = .null)
  | list {as bs : List Ref} (ha : h.payload a = .list as) (hb : h.payload b = .list bs)
    (hitems : List.Forall₂ (fun i j => h.same i j = true) as bs)
  | function {f g : Function} (ha : h.payload a = .function f) (hb : h.payload b = .function g)
    (hcode : f.bare = g.bare)
  | overloads {name : String} {fs gs : List Function} (ha : h.payload a = .overloads name fs)
    (hb : h.payload b = .overloads name gs) (hcode : fs.map Function.bare = gs.map Function.bare)

theorem same_iff_agrees (a b : Ref) : h.same a b = true ↔ h.Agrees a b := by
  constructor
  · intro hab
    by_cases hne : a = b
    · exact .itself hne
    have hkinds := hab
    rw [same] at hkinds
    -- different kinds of values, and all other kinds, are told apart by identity
    cases ha : h.payload a <;> cases hb : h.payload b <;> rw [ha, hb] at hkinds <;>
      first | exact absurd (beq_iff_eq.mp hkinds) hne | skip
    case number.number x y =>
      exact .number ha hb ((Decimal.plain_eq_iff x y).mp ((sameNumber_iff x y).mp hkinds))
    case string.string s t => exact .string ha (beq_iff_eq.mp hkinds ▸ hb)
    case boolean.boolean p q => exact .boolean ha (beq_iff_eq.mp hkinds ▸ hb)
    case null.null => exact .null ha hb
    case list.list as bs => exact .list ha hb ((same_list hh ha hb).mp hab)
    case function.function f g => exact .function ha hb ((Function.same_iff f g).mp hkinds)
    case overloads.overloads n fs m gs =>
      obtain ⟨hname, hcode⟩ := Bool.and_eq_true_iff.mp hkinds
      exact .overloads ha (beq_iff_eq.mp hname ▸ hb) ((Function.sameAll_iff fs gs).mp hcode)
  · intro hab
    cases hab with
    | itself hab => exact hab ▸ (same_equivalence hh).refl a
    | list ha hb hitems => exact (same_list hh ha hb).mpr hitems
    | number ha hb hxy =>
      rw [same, ha, hb]
      exact (sameNumber_iff _ _).mpr ((Decimal.plain_eq_iff _ _).mpr hxy)
    | string ha hb => simp [same, ha, hb]
    | boolean ha hb => simp [same, ha, hb]
    | null ha hb => simp [same, ha, hb]
    | function ha hb hcode =>
      rw [same, ha, hb]
      exact (Function.same_iff _ _).mpr hcode
    | overloads ha hb hcode =>
      rw [same, ha, hb]
      exact Bool.and_eq_true_iff.mpr ⟨beq_self_eq_true _, (Function.sameAll_iff _ _).mpr hcode⟩

/-! ## What equal values show -/

theorem classOf_of_same {a b : Ref} (hab : h.same a b = true) : h.classOf a = h.classOf b := by
  cases (same_iff_agrees hh a b).mp hab with
  | itself hab => rw [hab]
  | number ha hb _ => simp [classOf, ha, hb]
  | string ha hb => simp [classOf, ha, hb]
  | boolean ha hb => simp [classOf, ha, hb]
  | null ha hb => simp [classOf, ha, hb]
  | list ha hb _ => simp [classOf, ha, hb]
  | function ha hb _ => simp [classOf, ha, hb]
  | overloads ha hb _ => simp [classOf, ha, hb]

theorem display_of_same {a b : Ref} (hab : h.same a b = true) : h.display a = h.display b := by
  induction a using Nat.strongRecOn generalizing b with
  | ind a ih =>
    cases (same_iff_agrees hh a b).mp hab with
    | itself hab => rw [hab]
    | number ha hb hxy =>
      rw [display, display, ha, hb]
      rcases hxy with rfl | ⟨hx, hy⟩
      · rfl
      · simp only [displayNumber, Decimal.integer?_of_isZero hx, Decimal.integer?_of_isZero hy]
    | string ha hb => rw [display, display, ha, hb]
    | boolean ha hb => rw [display, display, ha, hb]
    | null ha hb => rw [display, display, ha, hb]
    | @list as bs ha hb hitems =>
      rw [display_list hh ha, display_list hh hb]
      rw [map_eq_of_forall₂ hitems fun i hi j hij => ih i (hh a as ha i hi) hij]
    | @function f g ha hb hcode =>
      have hname : f.name = g.name := congrArg (·.name) hcode
      rw [display, display, ha, hb]
      simp only [hname]
    | overloads ha hb _ => rw [display, display, ha, hb]

theorem toData_of_same {a b : Ref} (hab : h.same a b = true) : h.toData a = h.toData b := by
  induction a using Nat.strongRecOn generalizing b with
  | ind a ih =>
    have hdisplay := display_of_same hh hab
    cases (same_iff_agrees hh a b).mp hab with
    | itself hab => rw [hab]
    | number ha hb hxy =>
      rw [toData, toData, ha, hb]
      rcases hxy with rfl | ⟨hx, hy⟩
      · rfl
      · simp only [Decimal.integer?_of_isZero hx, Decimal.integer?_of_isZero hy]
    | string ha hb => rw [toData, toData, ha, hb]
    | boolean ha hb => rw [toData, toData, ha, hb]
    | null ha hb => rw [toData, toData, ha, hb]
    | @list as bs ha hb hitems =>
      rw [toData_list hh ha, toData_list hh hb]
      rw [map_eq_of_forall₂ hitems fun i hi j hij => ih i (hh a as ha i hi) hij]
    | function ha hb hcode => rw [toData, toData, ha, hb, hdisplay]
    | overloads ha hb _ => rw [toData, toData, ha, hb, hdisplay]

theorem depth_list {r : Ref} {items : List Ref} (hr : h.payload r = .list items) :
    h.depth r = (items.map h.depth).foldr max 0 + 1 := by
  rw [depth, hr]
  simp only [map_guarded hh hr]

theorem depth_of_same {a b : Ref} (hab : h.same a b = true) : h.depth a = h.depth b := by
  induction a using Nat.strongRecOn generalizing b with
  | ind a ih =>
    cases (same_iff_agrees hh a b).mp hab with
    | itself hab => rw [hab]
    | @list as bs ha hb hitems =>
      rw [depth_list hh ha, depth_list hh hb]
      rw [map_eq_of_forall₂ hitems fun i hi j hij => ih i (hh a as ha i hi) hij]
    | number ha hb _ => rw [depth, depth, ha, hb]
    | string ha hb => rw [depth, depth, ha, hb]
    | boolean ha hb => rw [depth, depth, ha, hb]
    | null ha hb => rw [depth, depth, ha, hb]
    | function ha hb _ => rw [depth, depth, ha, hb]
    | overloads ha hb _ => rw [depth, depth, ha, hb]

/-- There is room to display one of two equal values just if there is room for the other. -/
theorem display?_of_same {a b : Ref} (hab : h.same a b = true) (room : Nat) :
    h.display? room a = h.display? room b := by
  rw [display?, display?, depth_of_same hh hab, display_of_same hh hab]

theorem toData?_of_same {a b : Ref} (hab : h.same a b = true) (room : Nat) :
    h.toData? room a = h.toData? room b := by
  rw [toData?, toData?, depth_of_same hh hab, toData_of_same hh hab]

end Equality

/-! ## Room for comparisons -/

/-- How deep lists, and the code in them, are nested in a value. -/
def reach (h : Heap) (r : Ref) : Nat :=
  match h.payload r with
  | .list items => (items.map fun i => if _h : i < r then h.reach i else 0).foldr max 0 + 1
  | _ => h.codeDepth r
termination_by r

theorem le_foldr_max {ns : List Nat} {n : Nat} (hn : n ∈ ns) : n ≤ ns.foldr max 0 := by
  induction ns with
  | nil => cases hn
  | cons k ns ih =>
    rcases List.mem_cons.mp hn with rfl | hn
    · exact Nat.le_max_left _ _
    · exact Nat.le_trans (ih hn) (Nat.le_max_right _ _)

/-- Every list in a value is younger than its items. -/
inductive Ordered (h : Heap) : Ref → Prop
  | intro {r : Ref}
    (hlt : ∀ items, h.payload r = .list items → ∀ i ∈ items, i < r)
    (hitems : ∀ items, h.payload r = .list items → ∀ i ∈ items, Ordered h i) : Ordered h r

section Room

variable {h : Heap} {a b : Ref} {as bs : List Ref}

theorem ListsOrdered.ordered (hh : h.ListsOrdered) (r : Ref) : h.Ordered r := by
  induction r using Nat.strongRecOn with
  | ind r ih => exact .intro (hh r) fun items hr i hi => ih i (hh r items hr i hi)

theorem Ordered.of_payload {p : Payload} (ha : h.payload a = p) (hp : ∀ items, p ≠ .list items) :
    h.Ordered a :=
  .intro (fun items has => absurd (ha.symm.trans has) (hp items))
    fun items has => absurd (ha.symm.trans has) (hp items)

theorem Ordered.items (ha : h.Ordered a) (has : h.payload a = .list as) :
    ∀ i ∈ as, i < a ∧ h.Ordered i := by
  obtain ⟨hlt, hitems⟩ := ha
  exact fun i hi => ⟨hlt as has i hi, hitems as has i hi⟩

theorem Ordered.same_of_lists (ha : h.Ordered a) (has : h.payload a = .list as)
    (hbs : h.payload b = .list bs) :
    h.same a b = (as.length == bs.length && (as.zip bs).all fun p => h.same p.1 p.2) := by
  rw [same, has, hbs, Bool.eq_iff_iff]
  simp only [Bool.and_eq_true, List.all_eq_true]
  refine and_congr_right fun _ => forall₂_congr fun p hp => ?_
  rw [dif_pos (ha.items has p.1 (List.of_mem_zip hp).1).1]

theorem Ordered.same_refl (ha : h.Ordered a) : h.same a a = true := by
  induction ha with
  | @intro r hlt hitems ih =>
    cases hr : h.payload r with
    | list items =>
      rw [(Ordered.intro hlt hitems).same_of_lists hr hr, beq_self_eq_true, Bool.true_and]
      have hall : List.Forall₂ (fun i j => h.same i j = true) items items :=
        List.forall₂_same.mpr (ih items hr)
      exact List.all_eq_true.mpr fun p hp => (List.forall₂_iff_zip.mp hall).2 hp
    | _ => simp [same, hr, sameNumber_iff, Function.same_iff, Function.sameAll_iff]

theorem Ordered.reach_lt (ha : h.Ordered a) (has : h.payload a = .list as) {i : Ref} (hi : i ∈ as) :
    h.reach i < h.reach a := by
  rw [reach.eq_def h a, has]
  refine Nat.lt_succ_of_le (le_foldr_max (List.mem_map.mpr ⟨i, hi, ?_⟩))
  rw [dif_pos (ha.items has i hi).1]

/-- The truth about two values, or nothing, which takes two values that are nested too deep. -/
def Settles (h : Heap) (room : Nat) (a b : Ref) : Prop :=
  h.same? room a b = some (h.same a b) ∨
    h.same? room a b = none ∧ room < h.reach a ∧ room < h.reach b

theorem sameItems?_cases {same? : Ref → Ref → Option Bool} {same : Ref → Ref → Bool}
    {Deep : Ref → Ref → Prop} : ∀ {is js : List Ref}, is.length = js.length →
      (∀ i ∈ is, same i i = true) →
      (∀ i ∈ is, ∀ j ∈ js, same? i j = some (same i j) ∨ same? i j = none ∧ Deep i j) →
      sameItems? same? is js = some ((is.zip js).all fun p => same p.1 p.2) ∨
        sameItems? same? is js = none ∧ ∃ i ∈ is, ∃ j ∈ js, Deep i j
  | [], [], _, _, _ => .inl rfl
  | i :: is, j :: js, hlength, hrefl, hcases => by
    obtain ⟨hi, hrefl⟩ := List.forall_mem_cons.mp hrefl
    have hrest := sameItems?_cases (Nat.succ.inj hlength) hrefl fun i hi j hj =>
      hcases i (List.mem_cons_of_mem _ hi) j (List.mem_cons_of_mem _ hj)
    have hgo (hsame : same i j = true) :
        sameItems? same? is js = some (((i :: is).zip (j :: js)).all fun p => same p.1 p.2) ∨
          sameItems? same? is js = none ∧ ∃ i' ∈ i :: is, ∃ j' ∈ j :: js, Deep i' j' := by
      rw [List.zip_cons_cons, List.all_cons, hsame, Bool.true_and]
      refine hrest.imp id fun ⟨hnone, i', hi', j', hj', hdeep⟩ => ⟨hnone, ?_⟩
      exact ⟨i', List.mem_cons_of_mem _ hi', j', List.mem_cons_of_mem _ hj', hdeep⟩
    rw [sameItems?]
    split
    · next heq => exact hgo (heq ▸ hi)
    · rcases hcases i List.mem_cons_self j List.mem_cons_self with hsome | ⟨hnone, hdeep⟩
      · rw [hsome]
        cases hsame : same i j with
        | true => exact hgo hsame
        | false => exact .inl (by simp [hsame])
      · rw [hnone]
        exact .inr ⟨rfl, i, List.mem_cons_self, j, List.mem_cons_self, hdeep⟩

theorem codeDepth_le_reach (h : Heap) (r : Ref) : h.codeDepth r ≤ h.reach r := by
  rw [reach, codeDepth]
  split <;> simp_all

/-- Unless both values are lists, only code is looked into. -/
theorem settles_of_not_lists (room : Nat)
    (hlists : ∀ as bs, h.payload a = .list as → h.payload b ≠ .list bs) : h.Settles room a b := by
  have hsame? : h.same? room a b =
      if a = b ∨ h.codeDepth a ≤ room ∨ h.codeDepth b ≤ room then some (h.same a b) else none := by
    rw [same?.eq_def]
    split
    · next as bs has hbs => exact absurd hbs (hlists as bs has)
    · rfl
  unfold Settles
  rw [hsame?]
  split
  · exact .inl rfl
  · next hdeep =>
    obtain ⟨-, ha, hb⟩ := by simpa [not_or] using hdeep
    exact .inr ⟨rfl, Nat.lt_of_lt_of_le ha (h.codeDepth_le_reach a),
      Nat.lt_of_lt_of_le hb (h.codeDepth_le_reach b)⟩

/-- A comparison that has a result tells whether the values are equal, and it has none only if both
of them are nested deeper than there is room for. -/
theorem Ordered.settles (ha : h.Ordered a) (hb : h.Ordered b) (room : Nat) :
    h.Settles room a b := by
  induction room generalizing a b with
  | zero =>
    by_cases hlists : ∃ as bs, h.payload a = .list as ∧ h.payload b = .list bs
    · obtain ⟨as, bs, has, hbs⟩ := hlists
      refine .inr ⟨by rw [same?, has, hbs], ?_, ?_⟩
      · rw [reach, has]
        exact Nat.succ_pos _
      · rw [reach, hbs]
        exact Nat.succ_pos _
    · exact settles_of_not_lists 0 fun as bs has hbs => hlists ⟨as, bs, has, hbs⟩
  | succ room ih =>
    by_cases hlists : ∃ as bs, h.payload a = .list as ∧ h.payload b = .list bs
    · obtain ⟨as, bs, has, hbs⟩ := hlists
      unfold Settles
      rw [same?, has, hbs, ha.same_of_lists has hbs]
      by_cases hlength : as.length = bs.length
      · simp only [if_pos hlength, beq_iff_eq.mpr hlength, Bool.true_and]
        refine (sameItems?_cases hlength (fun i hi => (ha.items has i hi).2.same_refl)
          fun i hi j hj => ih (ha.items has i hi).2 (hb.items hbs j hj).2).imp id ?_
        rintro ⟨hnone, i, hi, j, hj, hdeep⟩
        refine ⟨hnone, ?_, ?_⟩
        · exact Nat.lt_of_le_of_lt (Nat.succ_le_of_lt hdeep.1) (ha.reach_lt has hi)
        · exact Nat.lt_of_le_of_lt (Nat.succ_le_of_lt hdeep.2) (hb.reach_lt hbs hj)
      · refine .inl ?_
        simp only [if_neg hlength, beq_eq_false_iff_ne.mpr hlength, Bool.false_and]
    · exact settles_of_not_lists (room + 1) fun as bs has hbs => hlists ⟨as, bs, has, hbs⟩

/-- It is enough that one of the two values is not too deep. -/
theorem Ordered.same?_of_reach (ha : h.Ordered a) (hb : h.Ordered b) {room : Nat}
    (hab : h.reach a ≤ room ∨ h.reach b ≤ room) : h.same? room a b = some (h.same a b) := by
  rcases ha.settles hb room with hsome | ⟨-, hdeep, hdeep'⟩
  · exact hsome
  · exact absurd hab (not_or.mpr ⟨Nat.not_le.mpr hdeep, Nat.not_le.mpr hdeep'⟩)

end Room

end Heap

end TreeScript
