import TreeScript.Proofs.Correspondence.Evaluation
import TreeScript.Runner

/-!
# Places are inert

Moving code to other places, in programs, in stored functions and in the place
that a report would name, changes nothing but these places. So two programs that
are the same but for their places, run from machines that are the same but for
places, end alike, and their reports differ at most in the line that names a
place.

Tracing is left out of the comparison, since its lines are no part of what a
program does. A place is compared by whether it can be written at all: the
parameters of a chosen overload are written out, so a place that cannot be
written is noticed.
-/

namespace TreeScript

/-- The machine with all code moved, and with nothing traced. -/
def Machine.moved (place : Option Loc → Option Loc) (m : Machine) : Machine :=
  { m with
    heap := m.heap.revise (.moving place)
    place := place m.place
    tracing := false
    traced := #[] }

namespace Outcome

variable {α : Type} (place : Option Loc → Option Loc)

def moved : Outcome α → Outcome α
  | .done a m => .done a (m.moved place)
  | .failed e m => .failed e (m.moved place)
  | .exhausted => .exhausted

end Outcome

namespace Run

variable {α β : Type} (place : Option Loc → Option Loc)

/-- The second computation does on moved machines what the first does, moved. -/
def Mirrors (x y : Run α) : Prop := ∀ m : Machine, y (m.moved place) = (x m).moved place

variable {place}

theorem Mirrors.bind {x y : Run α} {f g : α → Run β} (hx : Mirrors place x y)
    (hf : ∀ a, Mirrors place (f a) (g a)) : Mirrors place (x >>= f) (y >>= g) := by
  intro m
  rw [bind_apply, bind_apply, hx m]
  cases x m with
  | done a m' => exact hf a m'
  | failed e m' => rfl
  | exhausted => rfl

theorem Mirrors.ensuring {x y : Run α} {last last' : Run Unit} (hx : Mirrors place x y)
    (hlast : Mirrors place last last') :
    Mirrors place (ensuring x last) (ensuring y last') := by
  intro m
  unfold Run.ensuring
  rw [hx m]
  cases x m with
  | done a m' =>
    simp only [Outcome.moved, hlast m']
    cases last m' <;> rfl
  | failed e m' =>
    simp only [Outcome.moved, hlast m']
    cases last m' <;> rfl
  | exhausted => rfl

theorem Mirrors.entered {x y : Run α} (hx : Mirrors place x y) :
    Mirrors place (entered x) (entered y) :=
  Mirrors.bind (fun _ => rfl) fun _ => hx.ensuring fun _ => rfl

theorem mirrors_trace (fits : Bool) (line line' : Machine → String) :
    Mirrors place (trace fits line) (trace fits line') := by
  cases fits with
  | true =>
    intro m
    show Outcome.done () (m.moved place) =
      .done () (Machine.moved place (if m.tracing then { m with traced := _ } else m))
    split <;> rfl
  | false => exact fun _ => rfl

theorem Mirrors.bracketed {x y : Run Ref} (hx : Mirrors place x y) (frame : FrameId) (name : String)
    (count : Nat) : Mirrors place (bracketed frame name count x) (bracketed frame name count y) := by
  refine Mirrors.ensuring (Mirrors.bind (fun _ => rfl) fun head => ?_) (mirrors_trace true _ _)
  refine Mirrors.bind (fun _ => rfl) fun _ => Mirrors.ensuring ?_ fun _ => rfl
  exact (mirrors_trace true _ _).bind fun _ => hx

theorem mirrors_popFrame : Mirrors place popFrame popFrame := by
  intro m
  simp only [popFrame, Machine.moved]
  cases m.scope.pop <;> rfl

theorem Mirrors.listed {x y : Run Ref} (hx : Mirrors place x y) (room : Room) (callee : Ref)
    (args : List Ref) (site : Option (Option Loc)) :
    Mirrors place (listed room callee args site x) (listed room callee args (site.map place) y) := by
  have hsite : Mirrors place (visitSite site) (visitSite (site.map place)) := by
    cases site with
    | none => exact fun _ => rfl
    | some l => exact fun _ => rfl
  have hname :
      Mirrors place (lookDeep (callName? room · callee)) (lookDeep (callName? room · callee)) := by
    intro m
    have hsame := m.heap.callName?_revise (.moving place) room callee
    simp only [lookDeep, Machine.moved, hsame]
    cases callName? room m.heap callee <;> rfl
  refine Mirrors.entered (hname.bind fun name => (mirrors_trace _ _ _).bind fun _ => ?_)
  refine Mirrors.bind (fun _ => rfl) fun _ => hsite.bind fun _ => hx.bind fun result => ?_
  exact Mirrors.bind (fun _ => rfl) fun _ _ => rfl

/-- Evaluation of moved code on moved machines mirrors evaluation. -/
def mirror (place : Option Loc → Option Loc) (h : KeepsWritable place) : Correspondence where
  place := place
  keepsWritable := h
  Rel := Mirrors place
  pure _ _ := rfl
  bind hx hf := hx.bind hf
  complain _ _ := rfl
  fail _ _ := rfl
  exhausted _ := rfl
  ensuring hx hlast := hx.ensuring hlast
  look hf hk m := by
    rw [look_bind, look_bind, Machine.moved, hf]
    exact hk _ m
  lookScope _ _ := rfl
  make {f g} hf m := by
    show Outcome.done (g (m.heap.revise (.moving place))).1
      { m.moved place with heap := (g (m.heap.revise (.moving place))).2 } = _
    rw [hf]
    rfl
  changeHeap {f} hf m := by
    show Outcome.done () { m.moved place with heap := f (m.heap.revise (.moving place)) } = _
    rw [hf]
    rfl
  changeScope _ _ := rfl
  newFrame _ _ _ := rfl
  popFrame := mirrors_popFrame
  emit _ _ := rfl
  choice _ _ _ _ := mirrors_trace _ _ _
  body frame name count hx := hx.bracketed frame name count
  setPlace _ _ := rfl
  entered hx := hx.entered
  listed room callee args site hx := hx.listed room callee args site

end Run

/-! ## Programs that are the same but for places -/

/-- A place of which only is left whether it can be written. -/
def hidden (l : Option Loc) : Option Loc :=
  if l.all (·.isWritable) then none else some ⟨Nat.pow 10 Text.mostDigits, ""⟩

theorem keepsWritable_hidden : KeepsWritable hidden := by
  intro l
  unfold hidden
  split
  · next h => exact h.symm
  · next h =>
    rw [Bool.not_eq_true] at h
    rw [h, Option.all_some, Loc.isWritable, Text.isWritable]
    generalize Nat.pow 10 Text.mostDigits = limit
    simp

theorem hidden_of_writable {l : Option Loc} (h : l.all (·.isWritable) = true) : hidden l = none :=
  if_pos h

/-- Two machines that differ at most in the places in stored code, in the place of the expression
taken up last, and in what has been traced. -/
structure Machine.SameButPlaces (m₁ m₂ : Machine) : Prop where
  heap : m₁.heap.revise (.moving hidden) = m₂.heap.revise (.moving hidden)
  scope : m₁.scope = m₂.scope
  effects : m₁.effects = m₂.effects
  calls : m₁.calls = m₂.calls
  active : m₁.active = m₂.active
  place : hidden m₁.place = hidden m₂.place

theorem Machine.moved_eq_iff (m₁ m₂ : Machine) :
    m₁.moved hidden = m₂.moved hidden ↔ m₁.SameButPlaces m₂ := by
  constructor
  · intro h
    injection h with hheap hscope heffects hcalls hactive hplace
    exact ⟨hheap, hscope, heffects, hcalls, hactive, hplace⟩
  · rintro ⟨hheap, hscope, heffects, hcalls, hactive, hplace⟩
    simp only [moved, hheap, hscope, heffects, hcalls, hactive, hplace]

/-- Two outcomes with the same value or fault, and machines that differ at most in places. -/
inductive Outcome.SameButPlaces {α : Type} : Outcome α → Outcome α → Prop
  | done (a : α) {m₁ m₂ : Machine} (hm : m₁.SameButPlaces m₂) :
    SameButPlaces (.done a m₁) (.done a m₂)
  | failed (e : Fault) {m₁ m₂ : Machine} (hm : m₁.SameButPlaces m₂) :
    SameButPlaces (.failed e m₁) (.failed e m₂)
  | exhausted : SameButPlaces .exhausted .exhausted

theorem Outcome.sameButPlaces_of_moved {α : Type} {o₁ o₂ : Outcome α}
    (h : o₁.moved hidden = o₂.moved hidden) : o₁.SameButPlaces o₂ := by
  cases o₁ <;> cases o₂ <;> injection h
  case done.done a m₁ b m₂ ha hm => exact ha ▸ .done a ((Machine.moved_eq_iff m₁ m₂).mp hm)
  case failed.failed e m₁ f m₂ he hm => exact he ▸ .failed e ((Machine.moved_eq_iff m₁ m₂).mp hm)
  case exhausted.exhausted => exact .exhausted

/-- Two programs that differ at most in places. -/
def SameProgram (p₁ p₂ : List Expr) : Prop :=
  Expr.reviseAll (.moving hidden) p₁ = Expr.reviseAll (.moving hidden) p₂

namespace Run

open Correspondence

theorem sameButPlaces_of_mirrors {α : Type} {x y : Run α} {z : Run α} (hx : Mirrors hidden x z)
    (hy : Mirrors hidden y z) {m₁ m₂ : Machine} (hm : m₁.SameButPlaces m₂) :
    (x m₁).SameButPlaces (y m₂) := by
  apply Outcome.sameButPlaces_of_moved
  rw [← hx, ← hy, (Machine.moved_eq_iff m₁ m₂).mpr hm]

theorem sameButPlaces_evaluateProgram (limits : Limits) {p₁ p₂ : List Expr}
    (hp : SameProgram p₁ p₂) {m₁ m₂ : Machine} (hm : m₁.SameButPlaces m₂) :
    (Runner.evaluateProgram limits p₁ m₁).SameButPlaces (Runner.evaluateProgram limits p₂ m₂) := by
  let C := mirror hidden keepsWritable_hidden
  have h₁ := rel_evaluateLast (C := C) (rel_evaluate limits) Heap.nullRef p₁
  have h₂ := rel_evaluateLast (C := C) (rel_evaluate limits) Heap.nullRef p₂
  rw [← show Expr.reviseAll C.moved p₁ = Expr.reviseAll C.moved p₂ from hp] at h₂
  exact sameButPlaces_of_mirrors h₁ h₂ hm

end Run

/-! ## Runs -/

namespace Runner

/-- Two runners that differ at most in places, in what the runs before have recorded, and in the
origin that nodes without one are given. -/
structure SameButPlaces (r₁ r₂ : Runner) : Prop where
  machine : { r₁.machine with effects := #[] }.SameButPlaces { r₂.machine with effects := #[] }
  nans : r₁.nans = r₂.nans
  limits : r₁.limits = r₂.limits

/-- The report of a fault that arose in a place. -/
def reportAt (fault : Fault) (calls : String) (place : Option Loc) : String :=
  fault.summary ++ placeLine place ++ calls

/-- Two ends of runs that differ at most in places: the values or faults are the same, and so are
the effects, but for the line of a report that names a place. -/
inductive EndsAlike : Except RunFault RunResult × Runner → Except RunFault RunResult × Runner → Prop
  | success (v : Ref) {r₁ r₂ : Runner} (hr : r₁.SameButPlaces r₂)
    (heffects : r₁.machine.effects = r₂.machine.effects) :
    EndsAlike (.ok (.success v), r₁) (.ok (.success v), r₂)
  | failure (fault : Fault) (calls : String) (place₁ place₂ : Option Loc) {r₁ r₂ : Runner}
    (hr : r₁.SameButPlaces r₂) {effects : Array Effect}
    (heffects₁ : r₁.machine.effects = effects.push ⟨.stderr, reportAt fault calls place₁⟩)
    (heffects₂ : r₂.machine.effects = effects.push ⟨.stderr, reportAt fault calls place₂⟩) :
    EndsAlike (.ok (.failure fault (reportAt fault calls place₁)), r₁)
      (.ok (.failure fault (reportAt fault calls place₂)), r₂)
  | unreported (e : RunFault) {r₁ r₂ : Runner} (hr : r₁.SameButPlaces r₂)
    (heffects : r₁.machine.effects = r₂.machine.effects) : EndsAlike (.error e, r₁) (.error e, r₂)
  | exhausted {r₁ r₂ : Runner} (hr : r₁.SameButPlaces r₂) :
    EndsAlike (.error .exhausted, r₁) (.error .exhausted, r₂)

theorem callsLine?_moved (place : Option Loc → Option Loc) (limits : Limits) (m : Machine) :
    callsLine? limits (m.moved place) = callsLine? limits m := by
  have hprinted (v : Ref) :
      (m.moved place).heap.printed? v limits.printed = m.heap.printed? v limits.printed :=
    m.heap.printed?_revise (.moving place) v limits.printed
  have htext : callText? limits (m.moved place).heap = callText? limits m.heap := by
    funext c
    simp only [callText?, hprinted]
  unfold callsLine?
  rw [htext]
  rfl

/-- Reports of the same fault exist or not alike, and differ only in the line of the place. -/
theorem report_cases (limits : Limits) {m₁ m₂ : Machine} (hm : m₁.SameButPlaces m₂)
    (fault : Fault) :
    (∃ calls, report limits m₁ fault = .ok (reportAt fault calls m₁.place) ∧
      report limits m₂ fault = .ok (reportAt fault calls m₂.place)) ∨
    ∃ e, report limits m₁ fault = .error e ∧ report limits m₂ fault = .error e := by
  have hwritable : m₁.place.all (·.isWritable) = m₂.place.all (·.isWritable) := by
    rw [← keepsWritable_hidden m₁.place, hm.place, keepsWritable_hidden]
  have hcalls : callsLine? limits m₁ = callsLine? limits m₂ := by
    rw [← callsLine?_moved hidden limits m₁, (Machine.moved_eq_iff m₁ m₂).mpr hm, callsLine?_moved]
  unfold report
  rw [hwritable, hcalls]
  split
  · cases callsLine? limits m₂ with
    | some calls => exact .inl ⟨calls, rfl, rfl⟩
    | none => exact .inr ⟨_, rfl, rfl⟩
  · exact .inr ⟨_, rfl, rfl⟩

/-- Machines stay the same but for places when their effects are replaced by the same ones. -/
theorem sameButPlaces_withEffects {m₁ m₂ : Machine} (hm : m₁.SameButPlaces m₂)
    (effects : Array Effect) :
    { m₁ with effects }.SameButPlaces { m₂ with effects } :=
  ⟨hm.heap, hm.scope, rfl, hm.calls, hm.active, hm.place⟩

/-- Programs that are the same but for places, run on runners that are the same but for places, end
alike. -/
theorem run_endsAlike {r₁ r₂ : Runner} (hr : r₁.SameButPlaces r₂) {p₁ p₂ : List Expr}
    (hp : SameProgram p₁ p₂) : EndsAlike (r₁.run p₁) (r₂.run p₂) := by
  obtain ⟨m₁, origin₁, nans, limits⟩ := r₁
  obtain ⟨m₂, origin₂, nans', limits'⟩ := r₂
  obtain ⟨hm, hnans, hlimits⟩ := hr
  have hnans : nans = nans' := hnans
  have hlimits : limits = limits' := hlimits
  subst hnans hlimits
  have hstart : { m₁ with effects := #[], calls := [] }.SameButPlaces
      { m₂ with effects := #[], calls := [] } :=
    ⟨hm.heap, hm.scope, rfl, rfl, hm.active, hm.place⟩
  have hrunners {m m' : Machine} (h : m.SameButPlaces m') :
      SameButPlaces ⟨m, origin₁, nans, limits⟩ ⟨m', origin₂, nans, limits⟩ :=
    ⟨sameButPlaces_withEffects h #[], rfl, rfl⟩
  have hend := Run.sameButPlaces_evaluateProgram limits hp hstart
  unfold run
  dsimp only
  generalize evaluateProgram limits p₁ _ = o₁ at hend ⊢
  generalize evaluateProgram limits p₂ _ = o₂ at hend ⊢
  cases hend with
  | done v h => exact .success v (hrunners h) h.effects
  | @failed fault m m' h =>
    rcases report_cases limits h fault with ⟨calls, hreport, hreport'⟩ | ⟨e, hreport, hreport'⟩
    · simp only [hreport, hreport']
      refine .failure fault calls m.place m'.place ?_ rfl ?_
      · exact ⟨sameButPlaces_withEffects h #[], rfl, rfl⟩
      · show m'.effects.push _ = m.effects.push _
        rw [h.effects]
    · simp only [hreport, hreport']
      exact .unreported e (hrunners h) h.effects
  | exhausted => exact .exhausted ⟨hm, rfl, rfl⟩

end Runner

end TreeScript
