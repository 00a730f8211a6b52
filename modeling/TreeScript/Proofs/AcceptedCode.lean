import TreeScript.Document.Load
import TreeScript.Proofs.Grammar
import TreeScript.Proofs.WholeNumbers
import TreeScript.Value.Display

/-!
# What is accepted as code

Take data in which no integer is beyond the range of numbers. Building gives an
expression of it exactly if it is a node of the grammar, and a pattern exactly if
it is a parameter. Whatever else the data is, it is refused as invalid. The only
way out of this is that the stack of the host ends, and that needs data that is
nested deep enough, or contains itself.
-/

namespace TreeScript

/-! ## Integers in range -/

namespace Decimal

theorem exponentField_nearest {num den : ℕ} (hnum : 0 < num)
    (h : nearestBits num den = Nat.pow 2 52 * 0x7FF) (negative : Bool) :
    exponentField (nearest negative num den) = 0x7FF := by
  unfold nearest
  rw [if_neg (Nat.ne_of_gt hnum), h]
  cases negative <;> decide

/-- Integers are beyond the range of numbers long before they are too long to be written. -/
theorem natAbs_lt_of_ofInteger? {i : ℤ} (h : (ofInteger? i).isSome = true) :
    i.natAbs < 2 ^ 1025 := by
  by_contra hlarge
  have hlarge : (2 : ℚ) ^ (1025 : ℤ) ≤ i.natAbs := by
    exact_mod_cast Nat.le_of_not_lt hlarge
  have hpos : 0 < i.natAbs := by
    have hpow : (0 : ℚ) < 2 ^ (1025 : ℤ) := by positivity
    exact_mod_cast lt_of_lt_of_le hpow hlarge
  obtain ⟨-, hhigh⟩ := binaryOrder_spec hpos Nat.one_pos
  rw [Nat.cast_one, div_one] at hhigh
  have horder := (zpow_lt_zpow_iff_right₀ (one_lt_two (α := ℚ))).mp (hlarge.trans_lt hhigh)
  have hbits : nearestBits i.natAbs 1 = Nat.pow 2 52 * 0x7FF := by
    unfold nearestBits
    dsimp only
    have hplace : 0x7FF ≤ (max (binaryOrder i.natAbs 1 - 52) (-1074) + 1074).toNat := by omega
    have hmany := Nat.mul_le_mul_right (Nat.pow 2 52) hplace
    omega
  have hfield := exponentField_nearest hpos hbits (decide (i < 0))
  unfold ofInteger? at h
  dsimp only at h
  rw [if_pos hfield] at h
  cases h

theorem isWritable_of_ofInteger? {i : ℤ} (h : (ofInteger? i).isSome = true) :
    Text.isWritable i = true := by
  have hlong : 2 ^ 1025 ≤ Nat.pow 10 Text.mostDigits := by decide +kernel
  exact decide_eq_true (lt_of_lt_of_le (natAbs_lt_of_ofInteger? h) hlong)

end Decimal

namespace Data

variable {entries : List (Data × Data)} {items : List Data} {d : Data} {name : String}
  {parts : Parts} {short : Prop}

mutual

/-- By recursion on data: what is in range has a written form. -/
theorem InRange.isWritable : ∀ {d : Data}, d.InRange parts → d.isWritable = true
  | .integer i, h => Decimal.isWritable_of_ofInteger? (h i .here)
  | .list items, h => areWritable_of_inRange items fun d hd i hi => h i (.item hd hi)
  | .tuple items, h => areWritable_of_inRange items fun d hd i hi => h i (.component hd hi)
  | .set items, h => areWritable_of_inRange items fun d hd i hi => h i (.element hd hi)
  | .mapping entries, h =>
    areEntriesWritable_of_inRange entries fun key value hmem =>
      ⟨fun i hi => h i (.key hmem hi), fun i hi => h i (.value hmem hi)⟩
  | .null, _ | .boolean _, _ | .float _ _, _ | .text _, _ | .bytes _, _ | .date _, _
  | .moment _, _ | .part _ _, _ => by simp [Data.isWritable]

theorem areWritable_of_inRange : ∀ items : List Data, (∀ d ∈ items, d.InRange parts) →
    areWritable items = true
  | [], _ => by rw [areWritable]
  | d :: rest, h => by
    rw [areWritable, (h d List.mem_cons_self).isWritable,
      areWritable_of_inRange rest fun d hd => h d (List.mem_cons_of_mem _ hd)]
    rfl

theorem areEntriesWritable_of_inRange : ∀ entries : List (Data × Data),
    (∀ key value, (key, value) ∈ entries → key.InRange parts ∧ value.InRange parts) →
    areEntriesWritable entries = true
  | [], _ => by rw [areEntriesWritable]
  | (key, value) :: rest, h => by
    obtain ⟨hkey, hvalue⟩ := h key value List.mem_cons_self
    rw [areEntriesWritable, hkey.isWritable, hvalue.isWritable,
      areEntriesWritable_of_inRange rest fun k v hmem => h k v (List.mem_cons_of_mem _ hmem)]
    rfl

end

/-! ## Data that fits -/

/-- Data that building does not break off at, unless the room is short. -/
structure Fits (short : Prop) (parts : Parts) (room : ℕ) (d : Data) : Prop where
  inRange : d.InRange parts
  room : d.HasRoom parts room ∨ short

theorem Fits.mono {n m : ℕ} (h : d.Fits short parts n) (hle : n ≤ m) : d.Fits short parts m :=
  ⟨h.inRange, h.room.imp_left fun hroom k hk => (hroom k hk).trans hle⟩

theorem Fits.null {n : ℕ} (h : d.Fits short parts n) : Data.null.Fits short parts n where
  inRange i hi := by cases hi
  room := h.room.imp_left fun hroom k hk => by
    cases hk with
    | zero => exact hroom 0 (.zero d)

theorem Fits.look {n : ℕ} (h : d.Fits short parts n) : (parts.look d).Fits short parts n :=
  ⟨h.inRange.look, h.room.imp_left fun hroom k hk => hroom k hk.of_look⟩

/-- A node in a list of nodes is two levels below, so there are two calls for each. -/
theorem HasRoom.below {n : ℕ} {e : Data} (h : d.HasRoom parts n)
    (hd : ∀ k, e.IsDeep parts k → d.IsDeep parts (k + 1)) : e.HasRoom parts (n - 2) := by
  intro k hk
  have hroom := h (k + 1) (hd k hk)
  omega

theorem Fits.field {n : ℕ} (h : (mapping entries).Fits short parts n)
    (hd : field? entries name = some d) : d.Fits short parts (n - 2) := by
  obtain ⟨key, hmem⟩ := mem_of_field? hd
  exact ⟨fun i hi => h.inRange i (.value hmem hi),
    h.room.imp_left fun hroom => hroom.below fun _ hk => .value hmem hk⟩

theorem Fits.item {n : ℕ} (h : (list items).Fits short parts n) (hd : d ∈ items) :
    d.Fits short parts (n - 2) :=
  ⟨fun i hi => h.inRange i (.item hd hi),
    h.room.imp_left fun hroom => hroom.below fun _ hk => .item hd hk⟩

/-- By induction on the room: what cannot be shown in it is nested as deep. -/
theorem isDeep_of_shown? {room : ℕ} (above : List ℕ) {d : Data}
    (h : d.shown? parts room above = none) : d.IsDeep parts room := by
  induction room generalizing above d with
  | zero => exact .zero d
  | succ room ih =>
    rw [shown?] at h
    split at h
    · cases h
    · refine .of_look ?_
      cases hlook : parts.look d with
      | list items =>
        simp only [hlook, Option.map_eq_none_iff] at h
        obtain ⟨e, he, hnone⟩ := mapM_eq_none_iff.mp h
        exact .item he (ih _ hnone)
      | mapping entries =>
        simp only [hlook, Option.map_eq_none_iff] at h
        obtain ⟨⟨key, value⟩, he, hnone⟩ := mapM_eq_none_iff.mp h
        exact .value he (ih _ (Option.map_eq_none_iff.mp hnone))
      | _ => simp [hlook] at h

/-- In one place less there is room to show what fits. -/
theorem Fits.isSome_shown? {room : ℕ} {d : Data} (h : d.Fits short parts (room + 1)) :
    (d.shown? parts room []).isSome = true ∨ short := by
  refine h.room.imp_left fun hroom => ?_
  cases hshown : d.shown? parts room [] with
  | some _ => rfl
  | none =>
    have hdeep := hroom room (isDeep_of_shown? [] hshown)
    omega

end Data

theorem BuildFault.isSome_mapShown? {f : Data → Option Data} {fault : BuildFault}
    (h : ∀ d ∈ fault.shown, (f d).isSome = true) : (fault.mapShown? f).isSome = true := by
  cases fault <;> simp_all [shown, mapShown?, Option.isSome_bind]

/-- Showing what a fault is about leaves its kind. -/
theorem BuildFault.kind_of_mapShown? {f : Data → Option Data} {fault fault' : BuildFault}
    (h : fault.mapShown? f = some fault') :
    DocumentFault.kind (.building fault') = DocumentFault.kind (.building fault) := by
  cases fault with
  | notANumber kind field value | notAScalar kind field value =>
    simp only [mapShown?, Option.bind_eq_bind, Option.bind_eq_some_iff] at h
    obtain ⟨_, -, _, -, h⟩ := h
    cases h
    rfl
  | _ =>
    simp only [mapShown?, Option.map_eq_some_iff, Option.some.injEq] at h
    first
      | subst h; rfl
      | obtain ⟨_, -, rfl⟩ := h; rfl

namespace Build

/-! ## Accepting -/

section Spec

variable {α β ι : Type} {short P P' R : Prop} {Q : α → Prop} {S : β → Prop}

/-- An end of building: something of which `Q` holds, if `P`; a fault that makes a document invalid,
if not; or none of both, if the room is short. -/
inductive AcceptEnd (short P : Prop) (Q : α → Prop) : Except BuildFault (α × Nat) → Prop
  | accepted {a : α} (h : P) (hq : Q a) (nans : Nat) : AcceptEnd short P Q (.ok (a, nans))
  | refused {fault : BuildFault} (h : ¬ P)
    (hfault : DocumentFault.kind (.building fault) = .invalid) : AcceptEnd short P Q (.error fault)
  | broken (h : short) : AcceptEnd short P Q (.error .tooDeep)

/-- Building that gives something exactly if `P`, unless the room is short, and only what `Q` holds
of. -/
def Accepts (short P : Prop) (Q : α → Prop) (x : Build α) : Prop :=
  ∀ nans, AcceptEnd short P Q (x nans)

theorem Accepts.done {a : α} (hp : P) (hq : Q a) : Accepts short P Q (pure a) :=
  fun n => .accepted hp hq n

theorem Accepts.pure {a : α} (h : Q a) : Accepts short True Q (pure a) := .done trivial h

theorem Accepts.throw {fault : BuildFault}
    (hfault : DocumentFault.kind (.building fault) = .invalid) (hp : ¬ P) :
    Accepts short P Q (throw fault : Build α) := fun _ => .refused hp hfault

theorem Accepts.congr {x : Build α} (hx : Accepts short P Q x) (h : P ↔ P') :
    Accepts short P' Q x := by
  rwa [propext h] at hx

theorem Accepts.mono {Q' : α → Prop} {x : Build α} (hx : Accepts short P Q x)
    (h : ∀ a, Q a → Q' a) : Accepts short P Q' x := by
  intro n
  have hn := hx n
  generalize x n = e at hn ⊢
  cases hn with
  | accepted hp hq n' => exact .accepted hp (h _ hq) n'
  | refused hp hfault => exact .refused hp hfault
  | broken hshort => exact .broken hshort

theorem Accepts.bind {x : Build α} {f : α → Build β} (hx : Accepts short P Q x)
    (hf : ∀ a, Q a → Accepts short R S (f a)) : Accepts short (P ∧ R) S (x >>= f) := by
  intro n
  have hn := hx n
  change AcceptEnd short (P ∧ R) S (x n >>= fun p => f p.1 p.2)
  generalize x n = e at hn ⊢
  cases hn with
  | @accepted a hp hq n' =>
    have hrest := hf a hq n'
    change AcceptEnd short (P ∧ R) S (f a n')
    generalize f a n' = e' at hrest ⊢
    cases hrest with
    | accepted hr hs n'' => exact .accepted ⟨hp, hr⟩ hs n''
    | refused hr hfault => exact .refused (fun h => hr h.2) hfault
    | broken hshort => exact .broken hshort
  | refused hp hfault => exact .refused (fun h => hp h.1) hfault
  | broken hshort => exact .broken hshort

theorem Accepts.mapM {P : ι → Prop} {f : ι → Build α} {is : List ι}
    (h : ∀ i ∈ is, Accepts short (P i) (fun _ => True) (f i)) :
    Accepts short (∀ i ∈ is, P i) (fun _ => True) (is.mapM f) := by
  induction is with
  | nil => exact (Accepts.pure trivial).congr (by simp)
  | cons i is ih =>
    rw [List.mapM_cons]
    rw [List.forall_mem_cons] at h
    refine Accepts.congr (h.1.bind fun _ _ => (ih h.2).bind fun _ _ => Accepts.pure trivial) ?_
    simp

/-- A fault about data that fits makes a document invalid. -/
theorem Accepts.refuse {parts : Parts} {room : ℕ} {fault : BuildFault}
    (hshown : ∀ d ∈ fault.shown, d.Fits short parts (room + 1))
    (hfault : DocumentFault.kind (.building fault) = .invalid) (hp : ¬ P) :
    Accepts short P Q (refuse parts room fault : Build α) := by
  intro nans
  change AcceptEnd short P Q (.error ((fault.mapShown? (·.shown? parts room [])).getD .tooDeep))
  cases hfault' : fault.mapShown? (·.shown? parts room []) with
  | some fault' => exact .refused hp ((BuildFault.kind_of_mapShown? hfault').trans hfault)
  | none =>
    refine .broken (Classical.byContradiction fun hshort => ?_)
    have hsome := BuildFault.isSome_mapShown? fun d hd =>
      (hshown d hd).isSome_shown?.resolve_right hshort
    rw [hfault'] at hsome
    cases hsome

/-- Nothing comes after a fault. -/
theorem Accepts.refuse_bind {parts : Parts} {room : ℕ} {fault : BuildFault} {f : α → Build β}
    (hshown : ∀ d ∈ fault.shown, d.Fits short parts (room + 1))
    (hfault : DocumentFault.kind (.building fault) = .invalid) (hp : ¬ P) :
    Accepts short P S (Build.refuse parts room fault >>= f) := by
  have hrefused : Accepts short P (fun _ => False) (Build.refuse parts room fault : Build α) :=
    Accepts.refuse hshown hfault hp
  exact (hrefused.bind (R := P) fun _ h => h.elim).congr (and_self_iff ..)

end Spec

/-! ## Fields -/

open Data

section Fields

/-- What is read is a mapping that fits. -/
structure Site.Reads (short : Prop) (s : Site) : Prop where
  look : s.parts.look s.node = .mapping s.entries
  fits : s.node.Fits short s.parts (s.room + 1)

variable {α : Type} {short : Prop} {s : Site} {name : String} (hs : s.Reads short)

include hs

theorem Site.Reads.field {d : Data} (hd : Data.field? s.entries name = some d) :
    d.Fits short s.parts (s.room - 1) := by
  have hfits := hs.fits.look
  rw [hs.look] at hfits
  exact hfits.field hd

theorem Site.Reads.field_succ {d : Data} (hd : Data.field? s.entries name = some d) :
    d.Fits short s.parts (s.room + 1) := (hs.field hd).mono (by omega)

theorem Site.Reads.kindOf (key : String) : (s.kindOf key).Fits short s.parts (s.room + 1) := by
  unfold Site.kindOf
  cases hd : Data.field? s.entries key with
  | some d => exact hs.field_succ hd
  | none => exact hs.fits.null

theorem Site.Reads.shownKind : s.shownKind.Fits short s.parts (s.room + 1) := by
  unfold Site.shownKind
  dsimp only
  split
  · exact hs.kindOf "node"
  · exact hs.kindOf "pattern"

/-- A field that must be there, which is looked at further. -/
theorem Site.Reads.required {P : Prop} {Q : α → Prop} {f : Data → Build α}
    (hf : ∀ d, Data.field? s.entries name = some d → Accepts short P Q (f d))
    (hp : P → (Data.field? s.entries name).isSome) : Accepts short P Q (s.required name >>= f) := by
  unfold Site.required
  cases hfield : Data.field? s.entries name with
  | none =>
    refine Accepts.refuse_bind (List.forall_mem_singleton.mpr (hs.kindOf "node")) rfl fun h => ?_
    have hsome := hp h
    rw [hfield] at hsome
    cases hsome
  | some d => exact hf d hfield

theorem Site.Reads.anything : Accepts short (Admits s.parts .anything (Data.field? s.entries name))
    (fun _ => True) (s.required name) := by
  have haccepts : Accepts short (Admits s.parts .anything (Data.field? s.entries name)) (fun _ => True)
      (s.required name >>= pure) := by
    refine hs.required (fun d hd => ?_) fun h => h.isSome (by simp)
    rw [hd]
    exact Accepts.done (.anything d) trivial
  rwa [bind_pure] at haccepts

theorem Site.Reads.text : Accepts short (Admits s.parts .text (Data.field? s.entries name))
    (fun _ => True) (s.text name) := by
  refine hs.required (fun value hd => ?_) fun h => h.isSome (by simp)
  rw [hd, admits_text_iff]
  have hvalue := hs.field hd
  have hwritable : value.isWritable = true := hvalue.inRange.isWritable
  have hshown : ∀ d ∈ [s.shownKind, value], d.Fits short s.parts (s.room + 1) :=
    by simp [hs.shownKind, hs.field_succ hd]
  cases value
  case null | list | mapping | part => exact Accepts.refuse hshown rfl id
  all_goals
    simp only [hwritable, if_true]
    exact Accepts.pure trivial

theorem Site.Reads.number : Accepts short (Admits s.parts .number (Data.field? s.entries name))
    (fun _ => True) (s.number name) := by
  have hspelled (x : Float) :
      Accepts short True (fun _ => True) (do return ⟨x, ← freshOrigin⟩ : Build NumberLiteral) :=
    fun n => .accepted trivial trivial (n + 1)
  refine hs.required (fun value hd => ?_) fun h => h.isSome (by simp)
  rw [hd, admits_number_iff]
  have hshown : ∀ d ∈ [s.kindOf "node", value], d.Fits short s.parts (s.room + 1) :=
    by simp [hs.kindOf "node", hs.field_succ hd]
  cases value with
  | float x origin => exact Accepts.pure trivial
  | integer i =>
    obtain ⟨x, hx⟩ := Option.isSome_iff_exists.mp ((hs.field hd).inRange i .here)
    simp only [hx]
    exact Accepts.pure trivial
  | text spelling =>
    simp only [Data.SpellsNumber]
    cases Decimal.ofText? spelling with
    | some x => exact (hspelled x).congr (by simp)
    | none => exact Accepts.refuse hshown rfl (by simp)
  | bytes b =>
    simp only [Data.SpellsNumber]
    cases numberOfBytes? b with
    | some x => exact (hspelled x).congr (by simp)
    | none => exact Accepts.refuse hshown rfl (by simp)
  | _ => exact Accepts.refuse hshown rfl id

theorem Site.Reads.functionName :
    Accepts short (Admits s.parts .optionalName (Data.field? s.entries "name")) (fun _ => True)
      s.functionName := by
  unfold Site.functionName
  cases hd : Data.field? s.entries "name" with
  | none => exact Accepts.done .noName trivial
  | some d =>
    have hshown : ∀ e ∈ [d], e.Fits short s.parts (s.room + 1) :=
      List.forall_mem_singleton.mpr (hs.field_succ hd)
    cases d with
    | null => exact Accepts.done .nullName trivial
    | text name => exact Accepts.done (.optionalName name) trivial
    | _ => exact Accepts.refuse hshown rfl fun h => by cases h

theorem Site.Reads.location : Accepts short (GivesPlace s.entries) (fun _ => True) s.location := by
  unfold Site.location GivesPlace
  cases hline : Data.field? s.entries "line" with
  | none => exact Accepts.pure trivial
  | some line =>
    have hshown : ∀ e ∈ [line], e.Fits short s.parts (s.room + 1) :=
      List.forall_mem_singleton.mpr (hs.field_succ hline)
    cases line with
    | null => exact Accepts.pure trivial
    | integer line =>
      cases horigin : Data.field? s.entries "origin" with
      | none => exact Accepts.pure trivial
      | some origin =>
        have hshown : ∀ e ∈ [origin], e.Fits short s.parts (s.room + 1) :=
          List.forall_mem_singleton.mpr (hs.field_succ horigin)
        cases origin with
        | text => exact Accepts.pure trivial
        | _ => exact Accepts.refuse hshown rfl id
    | _ => exact Accepts.refuse hshown rfl id

/-- What comes after the kind of a node or parameter depends on the kind. -/
theorem Site.Reads.kind {κ : Type} {key : String} {ofName? : String → Option κ}
    {keyword : κ → String} (hname : ∀ s k, ofName? s = some k ↔ s = keyword k)
    {absent unknown : Data → BuildFault}
    (habsent : ∀ d, (absent d).shown = [d] ∧ DocumentFault.kind (.building (absent d)) = .invalid)
    (hunknown : ∀ d,
      (unknown d).shown = [d] ∧ DocumentFault.kind (.building (unknown d)) = .invalid)
    {P : κ → Prop} {Q : α → Prop} {g : κ → Build α}
    (hg : ∀ k, Data.field? s.entries key = some (.text (keyword k)) → Accepts short (P k) Q (g k)) :
    Accepts short (∃ k, Data.field? s.entries key = some (.text (keyword k)) ∧ P k) Q
      (s.kind key ofName? absent unknown >>= g) := by
  have hrefused {fault : Data → BuildFault} {d : Data} (hd : d.Fits short s.parts (s.room + 1))
      (hfault : (fault d).shown = [d] ∧ DocumentFault.kind (.building (fault d)) = .invalid)
      (hno : ∀ k, Data.field? s.entries key ≠ some (.text (keyword k))) :
      Accepts short (∃ k, Data.field? s.entries key = some (.text (keyword k)) ∧ P k) Q
        (s.refuse (fault d) >>= g) :=
    Accepts.refuse_bind (by simpa [hfault.1] using hd) hfault.2 fun ⟨k, hk, _⟩ => hno k hk
  have hkind := hs.kindOf key
  unfold Site.kind
  unfold Site.kindOf at hkind ⊢
  generalize Data.field? s.entries key = field at hg hrefused hkind ⊢
  cases field with
  | none => exact hrefused hs.fits (habsent _) (by simp)
  | some d =>
    cases d with
    | null => exact hrefused hs.fits (habsent _) (by simp)
    | text word =>
      simp only [Option.getD_some]
      cases hword : ofName? word with
      | none =>
        refine hrefused hkind (hunknown _) fun k hk => ?_
        have hsome := (hname word k).mpr (Data.text.inj (Option.some.inj hk))
        rw [hword] at hsome
        cases hsome
      | some k =>
        obtain rfl := (hname word k).mp hword
        refine (hg k rfl).congr ⟨fun h => ⟨k, rfl, h⟩, ?_⟩
        rintro ⟨k', hk', h⟩
        have hsame : some k = some k' :=
          hword.symm.trans ((hname _ k').mpr (Data.text.inj (Option.some.inj hk')))
        exact Option.some.inj hsame ▸ h
    | _ => exact hrefused hkind (hunknown _) (by simp)

/-! ### Fields that hold code -/

variable {f : Data → Build α} {P : Data → Prop} {Q : α → Prop}

theorem Site.Reads.child
    (hf : ∀ d, d.Fits short s.parts (s.room - 1) → Accepts short (d.IsNode s.parts) Q (f d)) :
    Accepts short (Admits s.parts .node (Data.field? s.entries name)) Q (s.required name >>= f) := by
  refine hs.required (fun d hd => ?_) fun h => h.isSome (by simp)
  rw [hd]
  exact (hf d (hs.field hd)).congr admits_node_iff.symm

/-- What is built for the target of an assignment tells whether the target is a name or member. -/
theorem Site.Reads.target {f : Data → Build Expr}
    (hf : ∀ d, d.Fits short s.parts (s.room - 1) →
      Accepts short (d.IsNode s.parts) (fun e => e.isAssignable = true ↔ d.IsTarget s.parts) (f d)) :
    Accepts short (Admits s.parts .node (Data.field? s.entries name))
      (fun e => e.isAssignable = true ↔ ∃ d ∈ Data.field? s.entries name, d.IsTarget s.parts)
      (s.required name >>= f) := by
  refine hs.required (fun d hd => ?_) fun h => h.isSome (by simp)
  rw [hd]
  refine ((hf d (hs.field hd)).congr admits_node_iff.symm).mono fun e he => ?_
  simpa using he

omit hs in
/-- A field that may be absent is none if it is absent or null. -/
theorem Site.optional_cases (s : Site) (name : String) :
    s.optional name = none ∧
        (Data.field? s.entries name = none ∨ Data.field? s.entries name = some .null) ∨
      ∃ d, s.optional name = some d ∧ Data.field? s.entries name = some d ∧ d ≠ .null := by
  unfold Site.optional
  cases Data.field? s.entries name with
  | none => exact .inl ⟨rfl, .inl rfl⟩
  | some d =>
    cases d
    case null => exact .inl ⟨rfl, .inr rfl⟩
    all_goals exact .inr ⟨_, rfl, rfl, by simp⟩

theorem Site.Reads.optionalChild
    (hf : ∀ d, d.Fits short s.parts (s.room - 1) →
      Accepts short (d.IsNode s.parts) (fun _ => True) (f d)) :
    Accepts short (Admits s.parts .optionalNode (Data.field? s.entries name)) (fun _ => True)
      (match s.optional name with
        | some d => some <$> f d
        | none => pure none) := by
  rcases s.optional_cases name with ⟨hnone, hfield | hfield⟩ | ⟨d, hsome, hfield, -⟩
  · rw [hnone, hfield]
    exact Accepts.done .noNode trivial
  · rw [hnone, hfield]
    exact Accepts.done (.optionalNode (.literal trivial)) trivial
  · rw [hsome, hfield]
    refine Accepts.congr ((hf d (hs.field hfield)).bind fun _ _ => Accepts.pure trivial) ?_
    rw [and_true, admits_optionalNode_iff]

theorem Site.Reads.items {fault : Data → BuildFault}
    (hfault : ∀ d, (fault d).shown = [] ∧ DocumentFault.kind (.building (fault d)) = .invalid)
    (hf : ∀ d, d.Fits short s.parts (s.room - 3) → Accepts short (P d) (fun _ => True) (f d)) :
    Accepts short (ListsOnly s.parts P (Data.field? s.entries name)) (fun _ => True)
      (s.items name fault >>= fun items => items.mapM f) := by
  unfold Site.items
  rcases s.optional_cases name with ⟨hnone, hfield | hfield⟩ | ⟨d, hsome, hfield, hd⟩
  · rw [hnone, hfield]
    exact Accepts.pure trivial
  · rw [hnone, hfield]
    exact Accepts.pure trivial
  · have hfits := (hs.field hfield).look
    rw [hsome, hfield, Option.map_some]
    cases hlook : s.parts.look d with
    | list items =>
      rw [hlook] at hfits
      exact (Accepts.mapM fun e hmem => hf e (hfits.item hmem)).congr (listsOnly_list_iff hlook).symm
    | _ =>
      refine Accepts.refuse_bind (by simp [(hfault _).1]) (hfault _).2 fun h => ?_
      obtain ⟨items, hitems, -⟩ := h.list hd
      cases hlook.symm.trans hitems

end Fields

/-! ## Code -/

/-- With so much room or less, data that fits is accepted as code by the rules of the grammar. -/
structure AcceptsWithin (short : Prop) (origin : String) (parts : Parts) (room : ℕ) : Prop where
  expr : ∀ n ≤ room, ∀ d : Data, d.Fits short parts n →
    Accepts short (d.IsNode parts) (fun e => e.isAssignable = true ↔ d.IsTarget parts)
      (expr origin d parts n)
  pattern : ∀ n ≤ room, ∀ d : Data, d.Fits short parts n →
    Accepts short (d.IsParameter parts) (fun _ => True) (pattern origin d parts n)

section Step

variable {short : Prop} {origin : String} {parts : Parts} {room : ℕ}
  (hbelow : AcceptsWithin short origin parts room)

include hbelow

theorem AcceptsWithin.node {n : ℕ} (hn : n ≤ room) {d : Data} (h : d.Fits short parts n) :
    Accepts short (d.IsNode parts) (fun _ => True) (Build.expr origin d parts n) :=
  (hbelow.expr n hn d h).mono fun _ _ => trivial

/-- A parameter in a list of parameters. -/
theorem AcceptsWithin.parameter {d : Data} (h : d.Fits short parts (room - 3)) :
    Accepts short (d.IsParameter parts) (fun _ => True) (Build.pattern origin d parts (room - 1)) :=
  hbelow.pattern (room - 1) (Nat.sub_le _ _) d (h.mono (by omega))

/-- Each field of a kind of node is accepted by its rule. -/
theorem accepts_node {data : Data} {entries : List (Data × Data)}
    (hdata : parts.look data = .mapping entries) (h : data.Fits short parts (room + 1)) :
    Accepts short (data.IsNode parts) (fun e => e.isAssignable = true ↔ data.IsTarget parts)
      (expr origin data parts (room + 1)) := by
  rw [expr, hdata]
  have hs : Site.Reads short ⟨origin, parts, room, data, entries⟩ := ⟨hdata, h⟩
  have hchild (d : Data) (h : d.Fits short parts (room - 1)) :
      Accepts short (d.IsNode parts) (fun _ => True) (expr origin d parts room) :=
    hbelow.node le_rfl (h.mono (Nat.sub_le _ _))
  have hoptional (d : Data) (h : d.Fits short parts (room - 1)) :
      Accepts short (d.IsNode parts) (fun _ => True) (expr origin d parts (room - 1)) :=
    hbelow.node (Nat.sub_le _ _) h
  have hitem (d : Data) (h : d.Fits short parts (room - 3)) :
      Accepts short (d.IsNode parts) (fun _ => True) (expr origin d parts (room - 2)) :=
    hbelow.node (Nat.sub_le _ _) (h.mono (by omega))
  refine Accepts.congr (hs.location.bind fun loc _ =>
    hs.kind NodeKind.ofName?_eq_some_iff (fun _ => ⟨rfl, rfl⟩) (fun _ => ⟨rfl, rfl⟩)
      (P := fun kind => ∀ f ∈ kind.fields, Admits parts f.2 (Data.field? entries f.1))
      fun kind hkind => ?_) (isNode_mapping_iff hdata).symm
  -- the kind is settled, and what is left is to read its fields in the order of `NodeKind.fields`
  simp only [isTarget_iff hdata hkind]
  cases kind with
  | number =>
    refine Accepts.congr (hs.number.bind fun _ _ => Accepts.pure ?_) ?_
    · simp [Expr.isAssignable]
    · simp [NodeKind.fields]
  | string | template | name =>
    refine Accepts.congr (hs.text.bind fun _ _ => Accepts.pure ?_) ?_
    · simp [Expr.isAssignable]
    · simp [NodeKind.fields]
  | boolean =>
    refine Accepts.congr (hs.anything.bind fun _ _ => Accepts.pure ?_) ?_
    · simp [Expr.isAssignable]
    · simp [NodeKind.fields]
  | null =>
    refine Accepts.congr (Accepts.pure ?_) ?_
    · simp [Expr.isAssignable]
    · simp [NodeKind.fields]
  | assign =>
    have htarget (d : Data) (h : d.Fits short parts (room - 1)) :=
      hbelow.expr room le_rfl d (h.mono (Nat.sub_le _ _))
    refine Accepts.congr ((hs.target htarget).bind
      (R := (∃ d ∈ Data.field? entries "target", d.IsTarget parts) ∧
        Admits parts .node (Data.field? entries "value")) fun target hassignable => ?_) ?_
    · split
      · next h =>
        refine Accepts.congr ((hs.child hchild).bind fun _ _ => Accepts.pure ?_) ?_
        · simp [Expr.isAssignable]
        · rw [and_true, and_iff_right (hassignable.mp h)]
      · next h => exact Accepts.throw rfl fun hp => h (hassignable.mpr hp.1)
    · simp only [NodeKind.fields, List.forall_mem_cons, admits_target_iff]
      tauto
  | block | list =>
    refine Accepts.congr ((hs.items (fun _ => ⟨rfl, rfl⟩) hitem).bind fun _ _ =>
      Accepts.pure ?_) ?_
    · simp [Expr.isAssignable]
    · simp [NodeKind.fields, admits_nodes_iff]
  | branch =>
    refine Accepts.congr ((hs.child hchild).bind fun _ _ =>
      (hs.child hchild).bind fun _ _ =>
        (hs.optionalChild hoptional).bind fun _ _ => Accepts.pure ?_) ?_
    · simp [Expr.isAssignable]
    · simp [NodeKind.fields]
  | loop | index =>
    refine Accepts.congr ((hs.child hchild).bind fun _ _ =>
      (hs.child hchild).bind fun _ _ => Accepts.pure ?_) ?_
    · simp [Expr.isAssignable]
    · simp [NodeKind.fields]
  | function =>
    refine Accepts.congr (hs.functionName.bind
      (R := Admits parts .parameters (Data.field? entries "params") ∧
        Admits parts .node (Data.field? entries "body")) fun _ _ => ?_) ?_
    · -- parameters are listed and then read, which `Site.Reads.items` takes together
      rw [← bind_assoc]
      refine Accepts.congr ((hs.items (fun _ => ⟨rfl, rfl⟩) fun _ => hbelow.parameter).bind fun _ _ =>
        (hs.child hchild).bind fun _ _ => Accepts.pure ?_) ?_
      · simp [Expr.isAssignable]
      · simp [admits_parameters_iff]
    · simp [NodeKind.fields]
  | call =>
    refine Accepts.congr ((hs.child hchild).bind fun _ _ =>
      (hs.items (fun _ => ⟨rfl, rfl⟩) hitem).bind fun _ _ => Accepts.pure ?_) ?_
    · simp [Expr.isAssignable]
    · simp [NodeKind.fields, admits_nodes_iff]
  | operator =>
    refine Accepts.congr (hs.text.bind fun _ _ =>
      (hs.child hchild).bind fun _ _ =>
        (hs.child hchild).bind fun _ _ => Accepts.pure ?_) ?_
    · simp [Expr.isAssignable]
    · simp [NodeKind.fields]
  | unary =>
    refine Accepts.congr (hs.text.bind fun _ _ =>
      (hs.child hchild).bind fun _ _ => Accepts.pure ?_) ?_
    · simp [Expr.isAssignable]
    · simp [NodeKind.fields]
  | member =>
    refine Accepts.congr ((hs.child hchild).bind fun _ _ =>
      hs.text.bind fun _ _ => Accepts.pure ?_) ?_
    · simp [Expr.isAssignable]
    · simp [NodeKind.fields]
  | classDef =>
    refine Accepts.congr (hs.text.bind fun _ _ =>
      (hs.optionalChild hoptional).bind fun _ _ =>
        (hs.items (fun _ => ⟨rfl, rfl⟩) hitem).bind fun _ _ => Accepts.pure ?_) ?_
    · simp [Expr.isAssignable]
    · simp [NodeKind.fields, admits_nodes_iff]

/-- The fields of a kind of parameter likewise. -/
theorem accepts_parameter {data : Data} {entries : List (Data × Data)}
    (hdata : parts.look data = .mapping entries) (h : data.Fits short parts (room + 1)) :
    Accepts short (data.IsParameter parts) (fun _ => True)
      (pattern origin data parts (room + 1)) := by
  rw [pattern, hdata]
  have hs : Site.Reads short ⟨origin, parts, room, data, entries⟩ := ⟨hdata, h⟩
  have hbuilt {g : Expr → Pattern} (d : Data) (h : d.Fits short parts (room - 1)) :
      Accepts short (d.IsNode parts) (fun _ => True)
        (expr origin d parts room >>= fun e => pure (g e)) :=
    ((hbelow.node le_rfl (h.mono (Nat.sub_le _ _))).bind fun _ _ => Accepts.pure trivial).congr
      (by simp)
  refine Accepts.congr (hs.location.bind fun loc _ =>
    hs.kind PatternKind.ofName?_eq_some_iff (fun _ => ⟨rfl, rfl⟩) (fun _ => ⟨rfl, rfl⟩)
      (P := fun kind => ∀ f ∈ kind.fields, Admits parts f.2 (Data.field? entries f.1))
      fun kind hkind => ?_) (isParameter_mapping_iff hdata).symm
  cases kind with
  | wildcard => exact (Accepts.pure trivial).congr (by simp [PatternKind.fields])
  | name =>
    refine Accepts.congr (hs.text.bind fun _ _ => Accepts.pure trivial) ?_
    simp [PatternKind.fields]
  | literal =>
    refine Accepts.congr (hs.child hbuilt) ?_
    simp [PatternKind.fields]
  | typed =>
    refine Accepts.congr (hs.text.bind fun _ _ => hs.child hbuilt) ?_
    simp [PatternKind.fields]
  | list =>
    dsimp only
    rw [← bind_assoc]
    refine Accepts.congr ((hs.items (fun _ => ⟨rfl, rfl⟩) fun _ => hbelow.parameter).bind fun _ _ =>
      Accepts.pure trivial) ?_
    simp [PatternKind.fields, admits_parameters_iff]

/-- One level more of room. -/
theorem AcceptsWithin.expr_succ {d : Data} (h : d.Fits short parts (room + 1)) :
    Accepts short (d.IsNode parts) (fun e => e.isAssignable = true ↔ d.IsTarget parts)
      (Build.expr origin d parts (room + 1)) := by
  have hliteral (hlook : (parts.look d).IsLiteral) {e : Expr} (he : e.isAssignable = false) :
      Accepts short (d.IsNode parts) (fun e => e.isAssignable = true ↔ d.IsTarget parts)
        (pure e : Build Expr) := by
    refine Accepts.done (.literal hlook) (iff_of_false (by simp [he]) ?_)
    rintro ⟨entries, hentries, -⟩
    rw [hentries] at hlook
    exact hlook
  cases hlook : parts.look d with
  | mapping entries => exact accepts_node hbelow hlook h
  | integer i =>
    have hrange := h.inRange.look
    rw [hlook] at hrange hliteral
    obtain ⟨x, hx⟩ := Option.isSome_iff_exists.mp (hrange i .here)
    simp only [Build.expr, hlook, hx]
    exact hliteral trivial rfl
  | null | boolean | float =>
    rw [hlook] at hliteral
    rw [Build.expr, hlook]
    exact hliteral trivial rfl
  | _ =>
    rw [Build.expr, hlook]
    refine Accepts.refuse (List.forall_mem_singleton.mpr h) rfl fun hnode => ?_
    cases hnode with
    | literal hd => exact (hlook ▸ hd : Data.IsLiteral _)
    | mapping hd => cases hlook.symm.trans hd

theorem AcceptsWithin.pattern_succ {d : Data} (h : d.Fits short parts (room + 1)) :
    Accepts short (d.IsParameter parts) (fun _ => True)
      (Build.pattern origin d parts (room + 1)) := by
  cases hlook : parts.look d with
  | mapping entries => exact accepts_parameter hbelow hlook h
  | text name =>
    rw [Build.pattern, hlook]
    exact Accepts.done (.text hlook) trivial
  | _ =>
    rw [Build.pattern, hlook]
    refine Accepts.refuse (List.forall_mem_singleton.mpr h) rfl fun hparameter => ?_
    cases hparameter with
    | text hd => cases hlook.symm.trans hd
    | mapping hd => cases hlook.symm.trans hd

end Step

/-- By induction on the room. -/
theorem acceptsWithin (short : Prop) (origin : String) (parts : Parts) (room : ℕ) :
    AcceptsWithin short origin parts room := by
  induction room with
  | zero =>
    have hbroken {n : ℕ} (hn : n ≤ 0) {d : Data} (h : d.Fits short parts n) : short := by
      refine h.room.resolve_left fun hroom => ?_
      have hzero := hroom 0 (.zero d)
      omega
    refine ⟨fun n hn d h => ?_, fun n hn d h => ?_⟩
    · obtain rfl := Nat.le_zero.mp hn
      rw [expr]
      exact fun _ => .broken (hbroken hn h)
    · obtain rfl := Nat.le_zero.mp hn
      rw [pattern]
      exact fun _ => .broken (hbroken hn h)
  | succ room ih =>
    refine ⟨fun n hn d h => ?_, fun n hn d h => ?_⟩
    · rcases Nat.le_succ_iff.mp hn with hle | rfl
      · exact ih.expr n hle d h
      · exact ih.expr_succ h
    · rcases Nat.le_succ_iff.mp hn with hle | rfl
      · exact ih.pattern n hle d h
      · exact ih.pattern_succ h

variable {short : Prop}

theorem accepts_expr (origin : String) (data : Data) (parts : Parts) (calls : ℕ)
    (h : data.Fits short parts calls) :
    Accepts short (data.IsNode parts) (fun e => e.isAssignable = true ↔ data.IsTarget parts)
      (expr origin data parts calls) :=
  (acceptsWithin short origin parts calls).expr calls le_rfl data h

theorem accepts_pattern (origin : String) (data : Data) (parts : Parts) (calls : ℕ)
    (h : data.Fits short parts calls) :
    Accepts short (data.IsParameter parts) (fun _ => True) (pattern origin data parts calls) :=
  (acceptsWithin short origin parts calls).pattern calls le_rfl data h

theorem accepts_program (origin : String) (data : Data) (parts : Parts) (calls : ℕ)
    (h : data.Fits short parts calls) :
    Accepts short (data.IsProgram parts) (fun _ => True) (program origin data parts calls) := by
  have hone : Accepts short (data.IsNode parts) (fun _ => True)
      (do return [← expr origin data parts calls] : Build (List Expr)) :=
    ((accepts_expr origin data parts calls h).bind fun _ _ => Accepts.pure trivial).congr (by simp)
  unfold program
  cases hlook : parts.look data with
  | null => exact Accepts.done (.node (.literal (by rw [hlook]; trivial))) trivial
  | list nodes =>
    have hfits := h.look
    rw [hlook] at hfits
    refine Accepts.congr (Accepts.mapM fun d hd => (accepts_expr origin d parts (calls - 1)
      ((hfits.item hd).mono (by omega))).mono fun _ _ => trivial) ⟨.nodes hlook, fun h => ?_⟩
    cases h with
    | nodes hd h => exact Data.list.inj (hlook.symm.trans hd) ▸ h
    | node h => exact absurd h (not_isNode_of_list hlook)
  | _ =>
    refine hone.congr ⟨.node, fun h => ?_⟩
    cases h with
    | nodes hd h => cases hlook.symm.trans hd
    | node h => exact h

end Build

end TreeScript
