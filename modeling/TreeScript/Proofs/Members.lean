import TreeScript.Proofs.ClassOrder

/-!
# Members as programs see them

A member of a value is read once the value is there, and written once both the
value and what is written to it are there. What a class shows as its members
depends on the classes of the heap alone; what any other value shows depends on
the fields of one object as well.
-/

namespace TreeScript

namespace Run

variable {evaluate : Evaluator} {m₀ m : Machine} {r v : Ref} {target value : Expr}

/-- Once its target is evaluated, a member is read from it. -/
theorem evaluateLevel_member (rounds : Nat) (loc : Option Loc) (name : String)
    (h : evaluate target m₀ = .done r m) :
    evaluateLevel evaluate rounds (.member loc target name) m₀ =
      readMember evaluate.room r name m :=
  bind_done h _

/-- Once target and value are evaluated, an assignment writes the member and gives the value. -/
theorem evaluateLevel_assign_member (rounds : Nat) (loc loc' : Option Loc) (name : String)
    (h : Operands evaluate target value m₀ r v m) :
    evaluateLevel evaluate rounds (.assign loc (.member loc' target name) value) m₀ =
      .done v { m with heap := m.heap.setMember r name v } := by
  obtain ⟨m₁, htarget, hvalue⟩ := h
  exact (bind_done htarget _).trans (bind_done hvalue _)

end Run

namespace Machine

/-- Reading a member gives a value that the machine holds, and makes nothing. -/
def Reads (m : Machine) (r : Ref) (name : String) (v : Ref) : Prop :=
  ∀ evaluate rounds loc target m₀, evaluate target m₀ = .done r m →
    Run.evaluateLevel evaluate rounds (.member loc target name) m₀ = .done v m

theorem reads_iff {m : Machine} {r v : Ref} {name : String} :
    m.Reads r name v ↔ m.heap.member? r name = some (v, m.heap) := by
  constructor
  · intro h
    let room : Room := Limits.standard.room 0
    have hread : Run.readMember room r name m = .done v m :=
      h ⟨fun _ _ => .done r m, room⟩ 0 none (.null none) m rfl
    unfold Run.readMember at hread
    cases hmember : m.heap.member? r name with
    | none =>
      rw [hmember] at hread
      dsimp only at hread
      rw [Run.display, Run.lookDeep_bind] at hread
      cases hshown : m.heap.display? room.shown r <;> rw [hshown] at hread <;> cases hread
    | some found =>
      obtain ⟨w, k⟩ := found
      rw [hmember] at hread
      injection hread with hw hk
      rw [hw, ← congrArg Machine.heap hk]
  · intro hmember evaluate rounds loc target m₀ htarget
    rw [Run.evaluateLevel_member rounds loc name htarget]
    unfold Run.readMember
    rw [hmember]

end Machine

namespace Heap

variable {h k : Heap} {r c v : Ref} {name : String}

theorem findMethod?_eq_none_iff :
    h.findMethod? c name = none ↔ ∀ d ∈ h.ancestry c, h.methodOf? d name = none := by
  simp [findMethod?, List.findSome?_eq_none_iff]

/-- A field of an instance is found before any method. -/
theorem member?_of_field {cls : Ref} (hr : h.payload r = .instance cls)
    (hv : (h.fields r).get? name = some v) : h.member? r name = some (v, h) := by
  unfold member? fieldOrMethod?
  rw [hr]
  dsimp only
  rw [hv]

/-! ## Heaps with the same classes -/

section

variable (hk : ∀ d, k.class? d = h.class? d)

include hk

theorem ancestry_congr_of_classes (c : Ref) : k.ancestry c = h.ancestry c :=
  ancestry_congr fun d _ => hk d

theorem findMethod?_congr_of_classes (c : Ref) (name : String) :
    k.findMethod? c name = h.findMethod? c name := by
  simp only [findMethod?, methodOf?, ancestry_congr_of_classes hk, hk]

theorem findDefault?_congr_of_classes (c : Ref) (name : String) :
    k.findDefault? c name = h.findDefault? c name := by
  simp only [findDefault?, defaultOf?, ancestry_congr_of_classes hk, hk]

/-- What a class shows depends on classes alone. -/
theorem member?_congr_of_classes (hc : (h.class? c).isSome = true) (name : String) :
    k.member? c name = (h.member? c name).map fun read => (read.1, k) := by
  obtain ⟨info, hinfo⟩ := Option.isSome_iff_exists.mp hc
  unfold member?
  rw [payload_of_class? hinfo, payload_of_class? ((hk c).trans hinfo)]
  dsimp only
  rw [findMethod?_congr_of_classes hk, findDefault?_congr_of_classes hk]
  cases h.findMethod? c name with
  | some found => rfl
  | none => cases h.findDefault? c name <;> rfl

end

end Heap

/-- What a class shows is shown on every machine with the same classes. -/
theorem Machine.reads_congr_of_classes {m m' : Machine} {c v : Ref} {name : String}
    (hk : ∀ d, m'.heap.class? d = m.heap.class? d) (hc : (m.heap.class? c).isSome = true) :
    m'.Reads c name v ↔ m.Reads c name v := by
  have hread := Heap.member?_congr_of_classes hk hc name
  have hself := Heap.member?_congr_of_classes (fun _ => rfl) hc name
  rw [reads_iff, reads_iff, hread]
  cases hfound : m.heap.member? c name with
  | none => simp
  | some found =>
    obtain ⟨w, k⟩ := found
    rw [hfound] at hself
    obtain rfl : k = m.heap := congrArg Prod.snd (Option.some.inj hself)
    simp

end TreeScript
