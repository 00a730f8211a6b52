import TreeScript.Machine.Eval
import TreeScript.Machine.Laws
import TreeScript.Proofs.Correspondence
import TreeScript.Proofs.Ingredients

/-!
# Causes of faults

A fault has its cause in the code. Division fails only where code divides, an
unknown operator is one that is written somewhere, and some complaints are made
only where the machine stands at a place in the code, because nothing has been
evaluated since the machine came there. What is said here of one computation
leads from the primitive operations to evaluation as a whole. The places at which
the machine may stand are kept track of along the way.
-/

namespace TreeScript

/-- Complaints that are made before anything is evaluated where the machine stands. -/
def Complaint.isPrompt : Complaint → Bool
  | .notCallable _ | .cannotInstantiate _ | .functionArity _ | .classArity _ | .notANumber _
  | .unboundVariable _ | .unknownOperator _ | .invalidTarget => true
  | _ => false

/-- Complaints that are made where a finished evaluation has left the machine. -/
def Complaint.isLate : Complaint → Bool
  | .indexOutOfBounds | .unboundMember _ _ => true
  | _ => false

/-- What a complaint takes in the code. -/
def Complaint.HasCause (K : Ingredient → Prop) : Complaint → Prop
  | .unknownOperator symbol =>
    K (.operator symbol) ∧ Operator.ofSymbol? symbol = none ∨
      K (.unary symbol) ∧ UnaryOperator.ofSymbol? symbol = none
  | .invalidTarget => K .oddTarget
  | .notEvaluable _ => False
  | _ => True

namespace Fault

/-- Faults that arise before anything is evaluated where the machine stands. -/
def isPrompt : Fault → Bool
  | .complaint c _ => c.isPrompt
  | .templateSyntax _ | .noSuchTemplate _ => true
  | _ => false

/-- Faults that arise where a finished evaluation has left the machine. -/
def isLate : Fault → Bool
  | .complaint c _ => c.isLate
  | .divisionByZero | .powerUndefined | .powerTooLarge => true
  | _ => false

/-- What a fault takes in the code. -/
def HasCodeCause (K : Ingredient → Prop) : Fault → Prop
  | .complaint c _ => c.HasCause K
  | .divisionByZero => K (.operator "/")
  | .powerUndefined | .powerTooLarge => K (.operator "^")
  | .templateSyntax _ | .noSuchTemplate _ => K .template
  | .placeUnwritable => ∃ ps, K (.params ps) ∧ ps.all (·.isWritable) = false
  | .emptyStack _ | .nestingTooDeep => True

/-- What a fault takes that arises where the machine stands at a place, if finished evaluations leave
the machine at certain places. -/
structure HasCause (K : Ingredient → Prop) (after : Option Loc → Prop) (place : Option Loc)
    (f : Fault) : Prop where
  prompt : f.isPrompt = true → K (.place place)
  late : f.isLate = true → after place
  code : f.HasCodeCause K

theorem hasCause_of {K : Ingredient → Prop} {after : Option Loc → Prop} {place : Option Loc}
    {f : Fault} (hprompt : f.isPrompt = false ∨ K (.place place))
    (hlate : f.isLate = false ∨ after place) (hcode : f.HasCodeCause K) : f.HasCause K after place where
  prompt h := hprompt.resolve_left (by simp [h])
  late h := hlate.resolve_left (by simp [h])
  code := hcode

end Fault

/-- Where the machine may stand during evaluations, and where it may stand after finished ones. -/
structure Standing where
  during : Option Loc → Prop
  after : Option Loc → Prop

def Standing.anywhere : Standing := ⟨fun _ => True, fun _ => True⟩

/-- All code that is stored is made of certain ingredients, and the machine stands at one of certain
places. -/
structure Machine.Fits (K : Ingredient → Prop) (P : Option Loc → Prop) (m : Machine) : Prop where
  stores : m.heap.StoresOnly K
  stands : P m.place

theorem Machine.Fits.of_eq {K : Ingredient → Prop} {P : Option Loc → Prop} {m m' : Machine}
    (hm : m.Fits K P) (hsame : m'.heap = m.heap ∧ m'.place = m.place) : m'.Fits K P :=
  ⟨hsame.1 ▸ hm.stores, hsame.2 ▸ hm.stands⟩

namespace Run

variable {α β : Type} {K : Ingredient → Prop} {S : Standing} {x : Run α} {m : Machine}

/-- If all code that is stored is made of certain ingredients, and the machine stands at one of
certain places, then so it is at the end, and a fault has its cause among the ingredients. -/
def Caused (K : Ingredient → Prop) (S : Standing) (x : Run α) (m : Machine) : Prop :=
  m.Fits K S.during → (x m).Ends (fun _ m' => m'.Fits K S.during) fun e m' =>
    m'.Fits K S.during ∧ e.HasCause K S.after m'.place

/-- Moreover, the machine is left where finished evaluations leave it. -/
structure CausedLeaving (K : Ingredient → Prop) (S : Standing) (x : Run α) (m : Machine) : Prop where
  caused : Caused K S x m
  leaves : (x m).Ends (fun _ m' => S.after m'.place) fun _ _ => True

/-- A step leaves the machine at its place, stores no other code, and fails only for want of room. -/
def Steps (K : Ingredient → Prop) (x : Run α) : Prop :=
  ∀ m : Machine, (x m).Ends
    (fun _ m' => m'.place = m.place ∧ (m.heap.StoresOnly K → m'.heap.StoresOnly K))
    fun e m' => e = .nestingTooDeep ∧ m'.place = m.place ∧
      (m.heap.StoresOnly K → m'.heap.StoresOnly K)

/-! ## Steps -/

theorem steps_of_heap (h : ∀ m, ∃ a m', x m = .done a m' ∧ m'.place = m.place ∧ m'.heap = m.heap) :
    Steps K x := by
  intro m
  obtain ⟨a, m', hx, hplace, hheap⟩ := h m
  rw [hx]
  exact ⟨hplace, fun hm => hheap ▸ hm⟩

theorem steps_pure (a : α) : Steps K (Pure.pure a) := steps_of_heap fun m => ⟨a, m, rfl, rfl, rfl⟩

theorem steps_look (f : Heap → α) : Steps K (look f) :=
  steps_of_heap fun m => ⟨_, m, rfl, rfl, rfl⟩

theorem steps_lookDeep (f : Heap → Option α) : Steps K (lookDeep f) := by
  intro m
  unfold lookDeep
  cases f m.heap with
  | some a => exact ⟨rfl, id⟩
  | none => exact ⟨rfl, rfl, id⟩

theorem steps_lookScope (f : Scope Ref → α) : Steps K (lookScope f) :=
  steps_of_heap fun m => ⟨_, m, rfl, rfl, rfl⟩

theorem steps_change {f : Machine → Machine} (hplace : ∀ m, (f m).place = m.place)
    (hheap : ∀ m, (f m).heap = m.heap) : Steps K (change f) :=
  steps_of_heap fun m => ⟨(), f m, rfl, hplace m, hheap m⟩

theorem steps_changeScope (f : Scope Ref → Scope Ref) : Steps K (changeScope f) :=
  steps_change (fun _ => rfl) fun _ => rfl

theorem steps_trace (fits : Bool) (line : Machine → String) : Steps K (trace fits line) := by
  unfold trace
  split
  · exact steps_change (fun m => by split <;> rfl) fun m => by split <;> rfl
  · exact fun m => ⟨rfl, rfl, id⟩

theorem steps_newFrame (name : String) (parent : FrameId) : Steps K (newFrame name parent) :=
  steps_of_heap fun _ => ⟨_, _, rfl, rfl, rfl⟩

theorem steps_make {f : Heap → Ref × Heap} (hf : ∀ h, h.StoresOnly K → (f h).2.StoresOnly K) :
    Steps K (make f) :=
  fun m => ⟨rfl, hf m.heap⟩

theorem steps_alloc {p : Payload} (hp : p.MadeOf K) : Steps K (alloc p) :=
  steps_make fun _ hh => hh.alloc hp

theorem steps_changeHeap {f : Heap → Heap} (hf : ∀ h, h.StoresOnly K → (f h).StoresOnly K) :
    Steps K (changeHeap f) :=
  fun m => ⟨rfl, hf m.heap⟩

/-! ## Sequences -/

theorem Steps.caused (hx : Steps K x) (m : Machine) : Caused K S x m := by
  intro hm
  refine (hx m).imp (fun a m' ⟨hplace, hstores⟩ => ⟨hstores hm.stores, hplace ▸ hm.stands⟩) ?_
  rintro e m' ⟨rfl, hplace, hstores⟩
  exact ⟨⟨hstores hm.stores, hplace ▸ hm.stands⟩, Fault.hasCause_of (.inl rfl) (.inl rfl) trivial⟩

/-- A value without code may be made anywhere. -/
theorem caused_allocPlain {p : Payload} (hp : p.functions = []) (m : Machine) :
    Caused K S (alloc p) m :=
  (steps_alloc (Payload.madeOf_of_plain hp)).caused m

theorem caused_pure (a : α) (m : Machine) : Caused K S (Pure.pure a : Run α) m := id

theorem Caused.bind {f : α → Run β} (hx : Caused K S x m) (hf : ∀ a m', Caused K S (f a) m') :
    Caused K S (x >>= f) m := by
  intro hm
  have hend := hx hm
  rw [bind_apply]
  cases h : x m with
  | done a m' =>
    rw [h] at hend
    exact hf a m' hend
  | failed e m' =>
    rw [h] at hend
    exact hend
  | exhausted => trivial

theorem CausedLeaving.bind {f : α → Run β} (hx : CausedLeaving K S x m)
    (hf : ∀ a m', Caused K S (f a) m') : Caused K S (x >>= f) m :=
  hx.caused.bind hf

/-- What comes after a finished evaluation begins where that has left the machine. -/
theorem CausedLeaving.andThen {f : α → Run β} (hx : CausedLeaving K S x m)
    (hf : ∀ a m', S.after m'.place → Caused K S (f a) m') : Caused K S (x >>= f) m := by
  intro hm
  have hend := hx.caused hm
  have hleaves := hx.leaves
  rw [bind_apply]
  cases h : x m with
  | done a m' =>
    rw [h] at hend hleaves
    exact hf a m' hleaves hend
  | failed e m' =>
    rw [h] at hend
    exact hend
  | exhausted => trivial

/-- After a step the machine still stands at its place. -/
theorem Caused.after {f : α → Run β} (hx : Steps K x)
    (hf : ∀ a m', m'.place = m.place → Caused K S (f a) m') : Caused K S (x >>= f) m := by
  intro hm
  have hstep := hx m
  have hend := hx.caused (S := S) m hm
  rw [bind_apply]
  cases h : x m with
  | done a m' =>
    rw [h] at hstep hend
    exact hf a m' hstep.1 hend
  | failed e m' =>
    rw [h] at hend
    exact hend
  | exhausted => trivial

/-- What is seen is what is stored. -/
theorem Caused.look {f : Heap → α} {k : α → Run β} (h : Caused K S (k (f m.heap)) m) :
    Caused K S (Run.look f >>= k) m := h

theorem Caused.of_stores (h : m.heap.StoresOnly K → Caused K S x m) : Caused K S x m :=
  fun hm => h hm.stores hm

theorem caused_fail {e : Fault} (hprompt : e.isPrompt = false ∨ K (.place m.place))
    (hlate : e.isLate = false ∨ S.after m.place) (hcode : e.HasCodeCause K) :
    Caused K S (fail e : Run α) m :=
  fun hm => ⟨hm, Fault.hasCause_of hprompt hlate hcode⟩

theorem caused_complain {c : Complaint} (hprompt : c.isPrompt = false ∨ K (.place m.place))
    (hlate : c.isLate = false ∨ S.after m.place) (hc : c.HasCause K) :
    Caused K S (complain c : Run α) m :=
  fun hm => ⟨hm, Fault.hasCause_of hprompt hlate hc⟩

theorem caused_exhausted : Caused K S (fun _ => (.exhausted : Outcome α)) m := fun _ => trivial

/-! ## Ends that are made sure of -/

/-- What closes a computation leaves the heap and the place alone, and fails only on an empty stack. -/
def Closes (last : Run Unit) : Prop :=
  ∀ m : Machine, (last m).Ends (fun _ m' => m'.heap = m.heap ∧ m'.place = m.place)
    fun e m' => (m'.heap = m.heap ∧ m'.place = m.place) ∧ ∃ stack, e = .emptyStack stack

theorem closes_change {f : Machine → Machine} (hheap : ∀ m, (f m).heap = m.heap)
    (hplace : ∀ m, (f m).place = m.place) : Closes (change f) :=
  fun m => ⟨hheap m, hplace m⟩

theorem closes_popFrame : Closes popFrame := by
  intro m
  unfold popFrame
  cases m.scope.pop with
  | ok scope => exact ⟨rfl, rfl⟩
  | error stack => exact ⟨⟨rfl, rfl⟩, stack, rfl⟩

/-- What comes after a computation that closes another begins where that one ended. -/
theorem Closes.caused_bind {last : Run Unit} (hlast : Closes last) {f : Unit → Run α}
    (hf : ∀ m', m'.place = m.place → Caused K S (f ()) m') : Caused K S (last >>= f) m := by
  intro hm
  have hclose := hlast m
  rw [bind_apply]
  cases h : last m with
  | done _ m' =>
    rw [h] at hclose
    exact hf m' hclose.2 (hm.of_eq hclose)
  | failed e m' =>
    rw [h] at hclose
    obtain ⟨hsame, stack, rfl⟩ := hclose
    exact ⟨hm.of_eq hsame, Fault.hasCause_of (.inl rfl) (.inl rfl) trivial⟩
  | exhausted => trivial

theorem Caused.ensuring {last : Run Unit} (hx : Caused K S x m) (hlast : Closes last) :
    Caused K S (ensuring x last) m := by
  intro hm
  have hend := hx hm
  rw [ensuring_apply]
  cases h : x m with
  | done a m₁ =>
    rw [h] at hend
    exact hlast.caused_bind (fun m' _ => caused_pure a m') hend
  | failed e m₁ =>
    rw [h] at hend
    -- the fault is that of the computation, and the machine has not been moved since
    exact hlast.caused_bind (fun m' hplace hm' => ⟨hm', hplace ▸ hend.2⟩) hend.1
  | exhausted => trivial

theorem Caused.entered (hx : ∀ m', m'.place = m.place → Caused K S x m') : Caused K S (entered x) m :=
  .after (steps_change (fun _ => rfl) fun _ => rfl) fun _ m' hm' =>
    (hx m' hm').ensuring (closes_change (fun _ => rfl) fun _ => rfl)

theorem Caused.inFrame {f : FrameId} (hx : ∀ m', Caused K S x m') : Caused K S (inFrame f x) m := by
  refine .after (steps_lookScope _) fun head m₁ _ => .after (steps_changeScope _) fun _ m₂ _ => ?_
  exact (hx m₂).ensuring (closes_change (fun _ => rfl) fun _ => rfl)

theorem Caused.inNewFrame {name : String} (hx : ∀ m', Caused K S x m') :
    Caused K S (inNewFrame name x) m :=
  .after (steps_changeScope _) fun _ m' _ => (hx m').ensuring closes_popFrame

end Run

end TreeScript
