import TreeScript.Proofs.Agreement

/-!
# Levels to spare

A call breaks off between the change of the head and its body only where fewer levels of
evaluation are left than the line on the function takes. So take these levels away, and
suppose that there is always room for the line. What ends so for other reasons than want
of room ends in the same way where the levels are left, and no call breaks off in it.
-/

namespace TreeScript

/-- Limits for evaluations that do not use the last levels. There is as much room as where the
levels are left, and always room for entering a function. -/
def Limits.sparing (limits : Limits) : Limits where
  nesting := limits.nesting
  rounds := limits.rounds
  entry := 0
  compared levels := limits.compared (levels + limits.entry)
  shown levels := limits.shown (levels + limits.entry)
  printed := limits.printed
  documents := limits.documents
  nesting_pos := limits.nesting_pos
  entry_le := Nat.zero_le _

namespace Run

/-- Evaluation that leaves as many levels as the line on a function that is entered takes. -/
def evaluateSparing (limits : Limits) : Evaluator :=
  evaluateAt limits.sparing (limits.nesting - limits.entry)

/-- The first computation has run out of room. -/
def Gap.lost : Gap := .failed Fault.LosesHead fun _ => id

/-- Any heap will do. -/
theorem lasting_true : Heap.Lasting fun _ => True := ⟨fun _ _ => trivial, fun _ _ _ => trivial⟩

theorem agrees_assign_member {G : Gap} {evaluate evaluate' : Evaluator}
    (heval : Agree G (fun _ => True) evaluate evaluate') (rounds : Nat) (l l' : Option Loc)
    (owner : Expr) (name : String) (value : Expr) :
    Agrees G (fun _ => True) (evaluateLevel evaluate rounds (.assign l (.member l' owner name) value))
      (evaluateLevel evaluate' rounds (.assign l (.member l' owner name) value)) :=
  (heval.run owner).bind fun _ => (heval.run value).bind fun v =>
    (agrees_changeHeap fun _ _ => trivial).bind fun _ => agrees_pure v

/-- Where no level is left to the evaluation that spares some, it runs out of room for a line. -/
theorem roomsAgree_sparing (limits : Limits) (nesting : Nat) :
    RoomsAgree .lost (fun _ => True) (limits.sparing.room nesting)
      (limits.room (nesting + limits.entry)) where
  line line := by
    cases nesting with
    | zero => exact fun m _ => .inl ⟨.nestingTooDeep, m, rfl, .inl rfl⟩
    | succ nesting =>
      have hline : (limits.room (nesting + 1 + limits.entry)).line = true :=
        decide_eq_true (by omega)
      rw [hline]
      exact agrees_trace true line
  entry := decide_eq_true (Nat.le_add_left _ _)
  compared := rfl
  shown := rfl

theorem agree_sparing (limits : Limits) (nesting : Nat) :
    Agree .lost (fun _ => True) (evaluateAt limits.sparing nesting)
      (evaluateAt limits (nesting + limits.entry)) := by
  have hroom (nesting : Nat) : RoomsAgree .lost (fun _ => True)
      (evaluateAt limits.sparing nesting).room (evaluateAt limits (nesting + limits.entry)).room := by
    rw [room_evaluateAt, room_evaluateAt]
    exact roomsAgree_sparing limits nesting
  induction nesting with
  | zero => exact ⟨fun e m _ => .inl ⟨.nestingTooDeep, _, rfl, .inl rfl⟩, hroom 0⟩
  | succ nesting ih =>
    refine ⟨?_, hroom (nesting + 1)⟩
    rw [Nat.succ_add]
    refine fun e => Agrees.entered ((agrees_setPlace e.loc).bind fun _ => ?_)
    by_cases he : ∃ l l' owner name value, e = .assign l (.member l' owner name) value
    · obtain ⟨l, l', owner, name, value, rfl⟩ := he
      exact agrees_assign_member ih limits.rounds l l' owner name value
    · refine agrees_evaluateLevel ih lasting_true limits.rounds e ?_
      intro l l' owner name value heq
      exact he ⟨l, l', owner, name, value, heq⟩

theorem agree_evaluateSparing (limits : Limits) :
    Agree .lost (fun _ => True) (evaluateSparing limits) (evaluate limits) := by
  have h := agree_sparing limits (limits.nesting - limits.entry)
  rwa [Nat.sub_add_cancel limits.entry_le] at h

end Run

end TreeScript
