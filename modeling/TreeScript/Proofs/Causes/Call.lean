import TreeScript.Machine.CallLaws
import TreeScript.Proofs.Causes

/-!
# Causes of faults of calls

If the faults of evaluation have their causes in the code, then so have those of
matching, dispatch and calls. A call stands at its place until it has matched an
argument.
-/

namespace TreeScript.Run

variable {K : Ingredient → Prop} {S : Standing} {evaluate : Evaluator} {m : Machine}

/-- Code that is made of certain ingredients fails with a cause among them. -/
def CausedEvaluation (K : Ingredient → Prop) (S : Standing) (evaluate : Evaluator) : Prop :=
  ∀ e : Expr, e.MadeOf K → ∀ m, CausedLeaving K S (evaluate e) m

theorem steps_defineIn (frame : FrameId) (name : String) (v : Ref) :
    Steps K (defineIn frame name v) :=
  steps_changeScope _

theorem steps_defineSome (frame : FrameId) (name : String) (v : Option Ref) :
    Steps K (defineSome frame name v) := by
  cases v with
  | none => exact steps_pure ()
  | some v => exact steps_defineIn frame name v

/-! ## Matching -/

section Matching

mutual

theorem caused_accepts (heval : CausedEvaluation K S evaluate) (frame : FrameId) :
    ∀ (p : Pattern) (v : Ref), p.MadeOf K → ∀ m, Caused K S (accepts evaluate frame p v) m
  | .wildcard _, v, _, m => by
    rw [accepts]
    exact caused_pure true m
  | .name _ name, v, _, m => by
    rw [accepts]
    exact .after (steps_defineIn frame name v) fun _ m' _ => caused_pure true m'
  | .literal _ literal, v, hp, m => by
    rw [accepts]
    exact (heval literal hp m).bind fun expected m' => (steps_lookDeep _).caused m'
  | .typed _ name cls, v, hp, m => by
    rw [accepts]
    refine (heval cls hp m).bind fun c m' => .look ?_
    split
    · exact .after (steps_defineIn frame name v) fun _ m' _ => caused_pure true m'
    · exact caused_pure false m'
  | .list _ patterns, v, hp, m => by
    rw [accepts]
    refine .look ?_
    split
    · split
      · exact caused_acceptsAll heval frame patterns _ (Pattern.forall_allIngredients.mp hp) m
      · exact caused_pure false m
    · exact caused_pure false m

theorem caused_acceptsAll (heval : CausedEvaluation K S evaluate) (frame : FrameId) :
    ∀ (ps : List Pattern) (vs : List Ref), (∀ p ∈ ps, p.MadeOf K) → ∀ m,
      Caused K S (acceptsAll evaluate frame ps vs) m
  | [], _, _, m => by
    rw [acceptsAll.eq_def]
    exact caused_pure true m
  | _ :: _, [], _, m => by
    rw [acceptsAll.eq_def]
    exact caused_pure true m
  | p :: ps, v :: vs, hps, m => by
    rw [acceptsAll]
    rw [List.forall_mem_cons] at hps
    refine (caused_accepts heval frame p v hps.1 m).bind fun accepted m' => ?_
    split
    · exact caused_acceptsAll heval frame ps vs hps.2 m'
    · exact caused_pure false m'

end

theorem caused_matchArgs (heval : CausedEvaluation K S evaluate) {fn : Function} (hfn : fn.MadeOf K)
    (args : List Ref) (m : Machine) : Caused K S (matchArgs evaluate fn args) m := by
  obtain ⟨-, hparams, -⟩ := Function.madeOf_iff.mp hfn
  unfold matchArgs
  split
  · refine .after (steps_look _) fun name _ _ => .after (steps_lookScope _) fun parent _ _ => ?_
    refine .after (steps_newFrame name parent) fun frame m' _ => ?_
    refine Caused.bind (.inFrame fun m'' => ?_) fun accepted m'' => caused_pure _ m''
    exact caused_acceptsAll heval frame fn.params args hparams m''
  · exact caused_pure none m

end Matching

/-! ## Running -/

section Running

/-- A place without a written form is a fault only if a function has it in a parameter. -/
theorem caused_traceChoice (room : Room) (name : String) {params : List Pattern}
    (hparams : K (.params params)) (m : Machine) :
    Caused K S (traceChoice room name params) m := by
  unfold traceChoice
  split
  · exact (steps_trace _ _).caused m
  · next hwritable =>
    exact caused_fail (.inl rfl) (.inl rfl) ⟨params, hparams, Bool.not_eq_true _ ▸ hwritable⟩

theorem caused_toNumber (v : Ref) (hplace : K (.place m.place)) : Caused K S (toNumber v) m := by
  refine .look ?_
  split
  · exact caused_pure v m
  · next text _ =>
    cases Decimal.ofText? text with
    | some x => exact caused_allocPlain rfl m
    | none => exact caused_complain (.inr hplace) (.inl rfl) trivial
  · exact caused_complain (.inl rfl) (.inl rfl) trivial

theorem caused_length (v : Ref) (m : Machine) : Caused K S (length v) m := by
  refine .look ?_
  split
  · exact caused_allocPlain rfl m
  · exact caused_allocPlain rfl m
  · exact caused_complain (.inl rfl) (.inl rfl) trivial

theorem caused_applyIntrinsic (room : Room) (name : String) (code : Intrinsic) (args : List Ref)
    (hplace : K (.place m.place)) : Caused K S (applyIntrinsic room name code args) m := by
  have hemit (message : String) : Steps K (emit .stdout message) :=
    steps_change (fun _ => rfl) fun _ => rfl
  unfold applyIntrinsic
  split
  · exact caused_length _ m
  · exact caused_toNumber _ hplace
  · exact .after (steps_lookDeep _) fun _ _ _ => .after (hemit _) fun _ m' _ => caused_pure _ m'
  · exact .after (steps_lookDeep _) fun _ m' _ => caused_allocPlain rfl m'
  · exact (steps_look _).caused m
  · exact caused_allocPlain rfl m
  · exact caused_complain (.inr hplace) (.inl rfl) trivial

/-- A call is made at its site, or where the machine stands if it has none. -/
theorem caused_listed {x : Run Ref} (room : Room) (callee : Ref) (args : List Ref)
    (site : Option (Option Loc))
    (hsite : ∀ l, site = some l → S.during l)
    (hx : ∀ m', m'.place = site.getD m.place → Caused K S x m') :
    Caused K S (listed room callee args site x) m := by
  have hpop : Steps K (change fun m => { m with calls := m.calls.dropLast }) :=
    steps_change (fun _ => rfl) fun _ => rfl
  have hend (m' : Machine) (hm' : m'.place = site.getD m.place) : Caused K S (do
      let result ← x
      change fun m => { m with calls := m.calls.dropLast }
      return result) m' :=
    (hx m' hm').bind fun v m'' => .after hpop fun _ m'' _ => caused_pure v m''
  refine Caused.entered fun m₁ hm₁ => .after (steps_lookDeep _) fun name m₂ hm₂ => ?_
  refine .after (steps_trace _ _) fun _ m₃ hm₃ => ?_
  refine .after (steps_change (fun _ => rfl) fun _ => rfl) fun _ m₄ hm₄ => ?_
  cases site with
  | none =>
    exact .after (steps_pure ()) fun _ m₅ hm₅ => hend _ (by rw [hm₅, hm₄, hm₃, hm₂, hm₁]; rfl)
  | some place =>
    exact fun hm => hend { m₄ with place } rfl ⟨hm.stores, hsite place rfl⟩

variable (heval : CausedEvaluation K S evaluate)

include heval

theorem caused_invoke {fn : Function} (hfn : fn.MadeOf K) (frame : FrameId) (m : Machine) :
    Caused K S (invoke evaluate fn frame) m := by
  obtain ⟨-, -, hbody⟩ := Function.madeOf_iff.mp hfn
  cases hroom : evaluate.room.entry with
  | false =>
    rw [invoke_of_cramped hroom]
    exact .after (steps_changeScope _) fun _ m' _ => caused_fail (.inl rfl) (.inl rfl) trivial
  | true =>
    rw [invoke_of_fits hroom]
    refine .after (steps_lookScope _) fun name m₁ _ => Caused.ensuring (.inFrame fun m₂ => ?_)
      (closes_change (fun m => by split <;> rfl) fun m => by split <;> rfl)
    refine .after (steps_trace _ _) fun _ _ _ => .after (steps_defineSome frame _ _) fun _ _ _ => ?_
    exact .after (steps_defineSome frame _ _) fun _ m' _ => (heval fn.body hbody m').caused

theorem caused_applyFunction {fn : Function} (hfn : fn.MadeOf K) (args : List Ref)
    (hplace : K (.place m.place)) : Caused K S (applyFunction evaluate fn args) m := by
  unfold applyFunction
  split
  · refine (caused_matchArgs heval hfn args m).bind fun frame? m' => ?_
    cases frame? with
    | some frame => exact caused_invoke heval hfn frame m'
    | none => exact caused_complain (.inl rfl) (.inl rfl) trivial
  · exact caused_complain (.inr hplace) (.inl rfl) trivial

theorem caused_dispatch (name : String) (args : List Ref) {fns : List Function}
    (hfns : ∀ fn ∈ fns, fn.MadeOf K) (m : Machine) :
    Caused K S (dispatch evaluate name args fns) m := by
  induction fns generalizing m with
  | nil => exact caused_complain (.inl rfl) (.inl rfl) trivial
  | cons fn fns ih =>
    rw [List.forall_mem_cons] at hfns
    refine (caused_matchArgs heval hfns.1 args m).bind fun frame? m' => ?_
    cases frame? with
    | some frame =>
      have hparams := (Function.madeOf_iff.mp hfns.1).1
      exact (caused_traceChoice _ name hparams m').bind fun _ => caused_invoke heval hfns.1 frame
    | none => exact ih hfns.2 m'

theorem caused_applyPlain (callee : Ref) (args : List Ref) (hplace : K (.place m.place)) :
    Caused K S (applyPlain evaluate callee args) m := by
  refine .of_stores fun hm => .look ?_
  have hcallee := hm callee
  split
  · next fn hp =>
    rw [hp] at hcallee
    exact caused_applyFunction heval (hcallee fn (List.mem_singleton_self fn)) args hplace
  · next name fns hp =>
    rw [hp] at hcallee
    exact caused_dispatch heval name args hcallee m
  · split
    · exact caused_applyIntrinsic _ _ _ args hplace
    · exact caused_complain (.inr hplace) (.inl rfl) trivial
  · exact .after (steps_lookDeep _) fun _ m' hm' =>
      caused_complain (.inr (hm' ▸ hplace)) (.inl rfl) trivial

theorem caused_instantiate (cls : Ref) (info : ClassInfo) (args : List Ref)
    (hplace : K (.place m.place)) : Caused K S (instantiate evaluate cls info args) m := by
  unfold instantiate
  split
  · refine .after (steps_make fun h hh => hh.allocInstance cls) fun inst m₁ hm₁ => .look ?_
    split
    · next owner init _ =>
      refine .after (steps_make fun h hh => hh.bindMethod init inst owner) fun bound m₂ hm₂ => ?_
      refine Caused.bind ?_ fun _ m' => caused_pure inst m'
      refine caused_listed _ bound args none (fun _ h => by cases h) fun m₃ hm₃ => ?_
      refine caused_applyPlain heval bound args ?_
      rw [hm₃, Option.getD_none, hm₂, hm₁]
      exact hplace
    · split
      · exact caused_pure inst m₁
      · exact caused_complain (.inr (hm₁ ▸ hplace)) (.inl rfl) trivial
  · exact caused_complain (.inr hplace) (.inl rfl) trivial

theorem caused_apply (callee : Ref) (args : List Ref) (hplace : K (.place m.place)) :
    Caused K S (apply evaluate callee args) m := by
  refine .look ?_
  split
  · next info _ => exact caused_instantiate heval callee info args hplace
  · exact caused_applyPlain heval callee args hplace

theorem caused_call (callee : Ref) (args : List Ref) {site : Option (Option Loc)}
    (hsite : ∀ l, site = some l → S.during l) (hplace : K (.place (site.getD m.place))) :
    Caused K S (call evaluate callee args site) m :=
  caused_listed _ callee args site hsite fun _ hm' => caused_apply heval callee args (hm' ▸ hplace)

end Running

end TreeScript.Run
