import TreeScript.Proofs.Matching

/-!
# Matching as substitution

Patterns that name no variable and no class describe the shape of an argument: a list of so many
items, a value equal to a literal, or anything. To match arguments with such patterns is to
substitute: if every argument has the shape of its pattern, each name stands for the part of an
argument at its position, and the last of equal names counts. In the traversal names are bound
before the outcome is known, so the frame of a late rejection is not one that is given out.
-/

namespace TreeScript

namespace Expr

/-- The value of a number, text, truth value or null in code equals a value. -/
def Equals (h : Heap) : Expr → Ref → Prop
  | .number _ literal, v => ∃ x, h.payload v = .number x ∧ sameNumber literal.value x = true
  | .string _ s, v => h.payload v = .string s
  | .boolean _ b, v => h.payload v = .boolean b
  | .null _, v => h.payload v = .null
  | _, _ => False

variable {h : Heap} {see : String → Option Ref} {e : Expr} (he : e.isAtom = true)

include he

theorem isPlain_of_isAtom : e.isPlain = true := by
  cases e <;> first | rfl | contradiction

theorem levels_of_isAtom : e.levels = 1 := by
  cases e <;> first | rfl | contradiction

theorem isBound_of_isAtom : e.isBound see = true := by
  cases e <;> first | rfl | contradiction

theorem equals_iff_of_isAtom (v : Ref) : e.equals h see v = true ↔ e.Equals h v := by
  cases e with
  | number l literal =>
    rw [equals, Equals]
    cases h.payload v <;> simp
  | string l s =>
    rw [equals, Equals]
    cases h.payload v with
    | string t => rw [beq_iff_eq, Payload.string.injEq, eq_comm]
    | _ => simp
  | boolean l b =>
    rw [equals, Equals]
    cases h.payload v with
    | boolean c => rw [beq_iff_eq, Payload.boolean.injEq, eq_comm]
    | _ => simp
  | null l =>
    rw [equals, Equals]
    cases h.payload v <;> simp
  | _ => contradiction

end Expr

/-- A verdict accepts just if the condition holds, and never misses a name. -/
def Verdict.Decides (verdict : Verdict) (c : Prop) : Prop :=
  (∃ b, verdict = .accepted b) ∧ c ∨ verdict = .rejected ∧ ¬ c

theorem Verdict.Decides.congr {verdict : Verdict} {c d : Prop} (h : verdict.Decides c)
    (hcd : c ↔ d) : verdict.Decides d :=
  propext hcd ▸ h

theorem Verdict.Decides.andThen {verdict : Verdict} {next : Bindings Ref → Verdict} {c d : Prop}
    (h : verdict.Decides c) (hnext : ∀ b, (next b).Decides d) :
    (verdict.andThen next).Decides (c ∧ d) := by
  rcases h with ⟨⟨b, rfl⟩, hc⟩ | ⟨rfl, hc⟩
  · exact (hnext b).congr (and_iff_right hc).symm
  · exact .inr ⟨rfl, fun hcd => hc hcd.1⟩

namespace Pattern

mutual

/-- Patterns without typed names, whose literals are numbers, texts, truth values and null. -/
def isShape : Pattern → Bool
  | .wildcard _ | .name _ _ => true
  | .literal _ e => e.isAtom
  | .typed _ _ _ => false
  | .list _ ps => areShapes ps

def areShapes : List Pattern → Bool
  | [] => true
  | p :: ps => p.isShape && areShapes ps

end

/-- A value has the shape that a pattern describes. -/
inductive Fits (h : Heap) : Pattern → Ref → Prop
  | wildcard {l : Option Loc} {v : Ref} : Fits h (.wildcard l) v
  | name {l : Option Loc} {n : String} {v : Ref} : Fits h (.name l n) v
  | literal {l : Option Loc} {e : Expr} {v : Ref} (hv : e.Equals h v) : Fits h (.literal l e) v
  | list {l : Option Loc} {ps : List Pattern} {v : Ref} {items : List Ref}
    (hv : h.payload v = .list items) (hitems : List.Forall₂ (Fits h) ps items) :
    Fits h (.list l ps) v

mutual

/-- The names in a pattern, from left to right. -/
def names : Pattern → List String
  | .wildcard _ | .literal _ _ => []
  | .name _ n | .typed _ n _ => [n]
  | .list _ ps => namesAll ps

def namesAll : List Pattern → List String
  | [] => []
  | p :: ps => p.names ++ namesAll ps

end

mutual

theorem isPlain_of_isShape : ∀ (p : Pattern), p.isShape = true → p.isPlain = true
  | .wildcard _, _ => rfl
  | .name _ _, _ => rfl
  | .literal _ _, hp => Expr.isPlain_of_isAtom hp
  | .list _ ps, hp => arePlain_of_areShapes ps hp

theorem arePlain_of_areShapes : ∀ (ps : List Pattern), areShapes ps = true → arePlain ps = true
  | [], _ => rfl
  | p :: ps, hps => by
    obtain ⟨hp, hrest⟩ := Bool.and_eq_true_iff.mp hps
    rw [arePlain, isPlain_of_isShape p hp, arePlain_of_areShapes ps hrest, Bool.and_self]

end

mutual

theorem levels_of_isShape : ∀ (p : Pattern), p.isShape = true → p.levels ≤ 1
  | .wildcard _, _ => Nat.zero_le 1
  | .name _ _, _ => Nat.zero_le 1
  | .literal _ _, hp => Nat.le_of_eq (Expr.levels_of_isAtom hp)
  | .list _ ps, hp => levelsAll_of_areShapes ps hp

theorem levelsAll_of_areShapes : ∀ (ps : List Pattern), areShapes ps = true → levelsAll ps ≤ 1
  | [], _ => Nat.zero_le 1
  | p :: ps, hps => by
    obtain ⟨hp, hrest⟩ := Bool.and_eq_true_iff.mp hps
    exact Nat.max_le.mpr ⟨levels_of_isShape p hp, levelsAll_of_areShapes ps hrest⟩

end

variable {h : Heap} {outer : String → Option Ref}

mutual

/-- Literals of shapes are compared without room for anything else. -/
theorem comparable_of_isShape {room : Nat} : ∀ (p : Pattern), p.isShape = true → ∀ v : Ref,
    p.Comparable h room v
  | .wildcard _, _, _ => trivial
  | .name _ _, _, _ => trivial
  | .literal _ _, hp, _ => .inl hp
  | .list _ ps, hp, v => by
    rw [Comparable]
    split
    · exact comparableAll_of_areShapes ps hp _
    · trivial

theorem comparableAll_of_areShapes {room : Nat} : ∀ (ps : List Pattern), areShapes ps = true →
    ∀ vs : List Ref, ComparableAll h room ps vs
  | [], _, _ => trivial
  | _ :: _, _, [] => trivial
  | p :: ps, hps, v :: vs => by
    obtain ⟨hp, hrest⟩ := Bool.and_eq_true_iff.mp hps
    exact ⟨comparable_of_isShape p hp v, comparableAll_of_areShapes ps hrest vs⟩

end

theorem fits_list_iff {l : Option Loc} {ps : List Pattern} {v : Ref} {items : List Ref}
    (hv : h.payload v = .list items) :
    Fits h (.list l ps) v ↔ List.Forall₂ (Fits h) ps items := by
  refine ⟨?_, .list hv⟩
  rintro (_ | _ | _ | ⟨hitems, hfits⟩)
  cases hv.symm.trans hitems
  exact hfits

mutual

/-- Patterns that describe shapes accept the values that have them. -/
theorem verdict_decides {v : Ref} {b : Bindings Ref} : ∀ (p : Pattern), p.isShape = true →
    (p.verdict h outer v b).Decides (Fits h p v)
  | .wildcard _, _ => .inl ⟨⟨_, rfl⟩, .wildcard⟩
  | .name _ n, _ => .inl ⟨⟨_, rfl⟩, .name⟩
  | .literal l e, hp => by
    rw [verdict, Expr.isBound_of_isAtom hp, if_pos rfl]
    split
    · next hequal => exact .inl ⟨⟨b, rfl⟩, .literal ((Expr.equals_iff_of_isAtom hp v).mp hequal)⟩
    · next hequal =>
      refine .inr ⟨rfl, ?_⟩
      rintro (_ | _ | hv | _)
      exact hequal ((Expr.equals_iff_of_isAtom hp v).mpr hv)
  | .list l ps, hp => by
    rw [verdict]
    cases hv : h.payload v with
    | list items =>
      dsimp only
      split
      · next hlength =>
        exact (verdictAll_decides ps hp hlength).congr (fits_list_iff hv).symm
      · next hlength =>
        exact .inr ⟨rfl, fun hfits => hlength ((fits_list_iff hv).mp hfits).length_eq.symm⟩
    | _ =>
      refine .inr ⟨rfl, ?_⟩
      rintro (_ | _ | _ | ⟨hitems, -⟩)
      cases hv.symm.trans hitems

theorem verdictAll_decides : ∀ (ps : List Pattern), areShapes ps = true → ∀ {vs : List Ref}
    {b : Bindings Ref}, vs.length = ps.length →
    (verdictAll h outer ps vs b).Decides (List.Forall₂ (Fits h) ps vs)
  | [], _, [], b, _ => .inl ⟨⟨b, rfl⟩, .nil⟩
  | p :: ps, hps, v :: vs, b, hlength => by
    obtain ⟨hp, hrest⟩ := Bool.and_eq_true_iff.mp hps
    have hnext (b : Bindings Ref) := verdictAll_decides ps hrest (b := b) (Nat.succ.inj hlength)
    exact ((verdict_decides p hp).andThen hnext).congr List.forall₂_cons.symm

end

/-! ## Names and parts -/

mutual

theorem keys_parts : ∀ {p : Pattern} {v : Ref}, Fits h p v → (p.parts h v).map Prod.fst = p.names
  | .wildcard _, _, _ => rfl
  | .name _ _, _, _ => rfl
  | .literal _ _, _, _ => rfl
  | .typed _ _ _, _, _ => rfl
  | .list _ ps, v, hfits => by
    cases hfits with
    | list hv hitems =>
      rw [parts, hv, names]
      exact keys_partsAll hitems

/-- Arguments of the right shape have a part for each name. -/
theorem keys_partsAll : ∀ {ps : List Pattern} {vs : List Ref}, List.Forall₂ (Fits h) ps vs →
    (partsAll h ps vs).map Prod.fst = namesAll ps
  | [], _, _ => rfl
  | p :: ps, v :: vs, hfits => by
    obtain ⟨hp, hps⟩ := List.forall₂_cons.mp hfits
    rw [partsAll, List.map_append, keys_parts hp, keys_partsAll hps, namesAll]

end

end Pattern

namespace Run

open Pattern

/-- A machine with a list of two values. -/
def machineWithPair : Machine :=
  { Machine.bare false with heap := (Heap.initial.alloc (.list [Heap.nullRef, Heap.trueRef])).2 }

/-- A function of a list of two items, which have the same name. -/
def lastOfPair : Function where
  name := "last"
  params := [.list none [.name none "x", .name none "x"]]
  body := .name none "x"

end Run

end TreeScript
