import TreeScript.Proofs.DeclaredFaults
import TreeScript.Proofs.Matching

/-!
# Choosing among overloads

An overload set runs the first of its functions that accepts the arguments. To ask whether a value
is applicable is to match the arguments in the same way and to stop before any body is run. With
plain parameters neither disturbs what was there: each function is tried in a frame of its own, and
what a function that rejects has bound is seen by no other. So a probe before a call tells how the
call will go.

There is one exception. The choice is written out for the trace, even if nothing is traced, and the
places in the parameters of the chosen function may have no written form.
-/

namespace TreeScript

namespace Function

def withBody (fn : Function) (body : Expr) : Function := { fn with body }

@[simp] theorem params_withBody (fn : Function) (body : Expr) :
    (fn.withBody body).params = fn.params := rfl

theorem map_withBody_body (fns : List Function) : (fns.map fun g => g.withBody g.body) = fns :=
  List.map_id fns

/-- What is wrong with arguments that a function does not accept. -/
def misfit (fn : Function) (args : List Ref) : Complaint :=
  if args.length = fn.params.length then .argument fn.name else .functionArity fn.name

end Function

/-- The parameters are plain, and not deeper than evaluations may nest. -/
structure Function.HasPlainParams (limits : Limits) (fn : Function) : Prop where
  plain : Pattern.arePlain fn.params = true
  levels : Pattern.levelsAll fn.params ≤ limits.nesting

/-- There is room to compare the arguments with what the parameters ask for. -/
def Function.HasRoom (limits : Limits) (h : Heap) (args : List Ref) (fn : Function) : Prop :=
  Pattern.ComparableAll h (Run.evaluate limits).room.compared fn.params args

/-- Functions and arguments that there are, and that can be matched. -/
structure Store.CanTry (limits : Limits) (s : Store) (fns : List Function) (args : List Ref) :
    Prop where
  wellFormed : s.WellFormed
  has : ∀ fn ∈ fns, ∀ p ∈ fn.places, s.Has p
  plain : ∀ fn ∈ fns, fn.HasPlainParams limits
  room : ∀ fn ∈ fns, fn.HasRoom limits s.heap args
  args : ∀ v ∈ args, s.Has (.object v)

/-- The first function that does not reject the arguments decides. -/
inductive Function.Choice (s : Store) (args : List Ref) (fns : List Function) : Prop
  | accepted (before : List Function) (fn : Function) (after : List Function) (b : Bindings Ref)
    (hfns : fns = before ++ fn :: after) (hbefore : ∀ g ∈ before, g.verdict s args = .rejected)
    (hfn : fn.verdict s args = .accepted b)
  | unbound (before : List Function) (fn : Function) (after : List Function)
    (hfns : fns = before ++ fn :: after) (hbefore : ∀ g ∈ before, g.verdict s args = .rejected)
    (hfn : fn.verdict s args = .unbound)
  | none (hfns : ∀ g ∈ fns, g.verdict s args = .rejected)

theorem Function.choice (s : Store) (args : List Ref) (fns : List Function) :
    Choice s args fns := by
  induction fns with
  | nil => exact .none fun g hg => absurd hg List.not_mem_nil
  | cons fn fns ih =>
    cases hfn : fn.verdict s args with
    | accepted b => exact .accepted [] fn fns b rfl (fun g hg => absurd hg List.not_mem_nil) hfn
    | unbound => exact .unbound [] fn fns rfl (fun g hg => absurd hg List.not_mem_nil) hfn
    | rejected =>
      cases ih with
      | accepted before g after b hfns hbefore hg =>
        exact .accepted (fn :: before) g after b (congrArg (fn :: ·) hfns)
          (List.forall_mem_cons.mpr ⟨hfn, hbefore⟩) hg
      | unbound before g after hfns hbefore hg =>
        exact .unbound (fn :: before) g after (congrArg (fn :: ·) hfns)
          (List.forall_mem_cons.mpr ⟨hfn, hbefore⟩) hg
      | none hfns => exact .none (List.forall_mem_cons.mpr ⟨hfn, hfns⟩)

namespace Run

variable {limits : Limits} {m m₁ : Machine} {fns : List Function} {fn : Function} {args : List Ref}

/-- Each function comes to its own verdict, whatever was tried before. -/
theorem matches_of_canTry (h : m.store.CanTry limits fns args) (hfn : fn ∈ fns)
    (hm₁ : m.Undisturbed m₁) :
    (matchArgs (evaluate limits) fn args m₁).Matches m fn (fn.verdict m.store args) :=
  matches_matchArgs h.wellFormed (h.has fn hfn) (h.plain fn hfn).plain (h.plain fn hfn).levels
    (h.room fn hfn) h.args hm₁

/-- Functions that reject the arguments are passed over, whatever their bodies are. -/
theorem pass_rejected {before rest : List Function}
    (h : m.store.CanTry limits (before ++ rest) args)
    (hbefore : ∀ g ∈ before, g.verdict m.store args = .rejected) (hm₁ : m.Undisturbed m₁) :
    ∃ m₂, m.Undisturbed m₂ ∧
      anyAccepts (evaluate limits) args (before ++ rest) m₁ =
        anyAccepts (evaluate limits) args rest m₂ ∧
      ∀ (name : String) (body : Function → Expr),
        dispatch (evaluate limits) name args (before.map (fun g => g.withBody (body g)) ++ rest)
            m₁ =
          dispatch (evaluate limits) name args rest m₂ := by
  induction before generalizing m₁ with
  | nil => exact ⟨m₁, hm₁, rfl, fun _ _ => rfl⟩
  | cons g before ih =>
    obtain ⟨hg, hbefore⟩ := List.forall_mem_cons.mp hbefore
    have hmatches := matches_of_canTry h List.mem_cons_self hm₁
    rw [hg] at hmatches
    obtain ⟨m', hdone, hm'⟩ := hmatches
    have htail : m.store.CanTry limits (before ++ rest) args :=
      ⟨h.wellFormed, fun fn hfn => h.has fn (List.mem_cons_of_mem g hfn),
        fun fn hfn => h.plain fn (List.mem_cons_of_mem g hfn),
        fun fn hfn => h.room fn (List.mem_cons_of_mem g hfn), h.args⟩
    obtain ⟨m₂, hm₂, hany, hdispatch⟩ := ih htail hbefore hm'
    refine ⟨m₂, hm₂, ?_, fun name body => ?_⟩
    · rw [← hany]
      exact bind_done hdone _
    · -- matching looks at the parameters only, so another body makes no difference to it
      rw [← hdispatch name body]
      exact bind_done (x := matchArgs (evaluate limits) (g.withBody (body g)) args) hdone _

/-! ## By choice -/

section Choosing

variable {before after : List Function} {b : Bindings Ref}

/-- The first function that is not passed over is tried as if it were the only one. -/
theorem tried_first (h : m.store.CanTry limits (before ++ fn :: after) args)
    (hbefore : ∀ g ∈ before, g.verdict m.store args = .rejected) :
    ∃ m₁, anyAccepts (evaluate limits) args (before ++ fn :: after) m =
        anyAccepts (evaluate limits) args (fn :: after) m₁ ∧
      (∀ name, dispatch (evaluate limits) name args (before ++ fn :: after) m =
        dispatch (evaluate limits) name args (fn :: after) m₁) ∧
      (matchArgs (evaluate limits) fn args m₁).Matches m fn (fn.verdict m.store args) := by
  obtain ⟨m₁, hm₁, hany, hdispatch⟩ := pass_rejected h hbefore (.refl m)
  refine ⟨m₁, hany, fun name => ?_, matches_of_canTry h (by simp) hm₁⟩
  have hpass := hdispatch name Function.body
  rwa [Function.map_withBody_body] at hpass

theorem anyAccepts_accepted (h : m.store.CanTry limits (before ++ fn :: after) args)
    (hbefore : ∀ g ∈ before, g.verdict m.store args = .rejected)
    (hfn : fn.verdict m.store args = .accepted b) :
    ∃ m', anyAccepts (evaluate limits) args (before ++ fn :: after) m = .done true m' ∧
      m.Undisturbed m' := by
  obtain ⟨m₁, hany, -, hmatches⟩ := tried_first h hbefore
  rw [hfn] at hmatches
  obtain ⟨f, m', hdone, hm'⟩ := hmatches
  exact ⟨m', hany.trans (bind_done hdone _), hm'.toUndisturbed⟩

theorem anyAccepts_unbound (h : m.store.CanTry limits (before ++ fn :: after) args)
    (hbefore : ∀ g ∈ before, g.verdict m.store args = .rejected)
    (hfn : fn.verdict m.store args = .unbound) :
    ∃ n t m', anyAccepts (evaluate limits) args (before ++ fn :: after) m =
      .failed (.complaint (.unboundVariable n) t) m' := by
  obtain ⟨m₁, hany, -, hmatches⟩ := tried_first h hbefore
  rw [hfn] at hmatches
  obtain ⟨n, t, m', hfailed⟩ := hmatches
  exact ⟨n, t, m', hany.trans (bind_failed hfailed _)⟩

theorem dispatch_accepted (name : String)
    (h : m.store.CanTry limits (before ++ fn :: after) args)
    (hbefore : ∀ g ∈ before, g.verdict m.store args = .rejected)
    (hfn : fn.verdict m.store args = .accepted b) :
    ∃ f m₁, m.OpensFrame fn b f m₁ ∧
      dispatch (evaluate limits) name args (before ++ fn :: after) m =
        (do
          traceChoice (evaluate limits).room name fn.params
          invoke (evaluate limits) fn f) m₁ := by
  obtain ⟨m₁, -, hdispatch, hmatches⟩ := tried_first h hbefore
  rw [hfn] at hmatches
  obtain ⟨f, m', hdone, hm'⟩ := hmatches
  exact ⟨f, m', hm', (hdispatch name).trans (bind_done hdone _)⟩

/-- A function that accepts the arguments is left with its frame and its body. -/
theorem applyFunction_accepted (h : m.store.CanTry limits [fn] args)
    (hfn : fn.verdict m.store args = .accepted b) :
    ∃ f m₁, m.OpensFrame fn b f m₁ ∧
      applyFunction (evaluate limits) fn args m = invoke (evaluate limits) fn f m₁ := by
  have hmatches := matches_of_canTry h List.mem_cons_self (.refl m)
  obtain ⟨hlength, -⟩ := Function.bindings_of_verdict hfn
  rw [hfn] at hmatches
  obtain ⟨f, m₁, hdone, hm₁⟩ := hmatches
  refine ⟨f, m₁, hm₁, ?_⟩
  rw [applyFunction, if_pos hlength]
  exact bind_done hdone _

/-- If a function rejects the arguments, its body has no part in the complaint. -/
theorem applyFunction_rejected (h : m.store.CanTry limits [fn] args)
    (hfn : fn.verdict m.store args = .rejected) :
    ∃ m₁, m.Undisturbed m₁ ∧ ∀ body,
      applyFunction (evaluate limits) (fn.withBody body) args m = complain (fn.misfit args) m₁ := by
  by_cases hlength : args.length = fn.params.length
  · have hmatches := matches_of_canTry h List.mem_cons_self (.refl m)
    rw [hfn] at hmatches
    obtain ⟨m₁, hdone, hm₁⟩ := hmatches
    refine ⟨m₁, hm₁, fun body => ?_⟩
    rw [applyFunction, Function.params_withBody, if_pos hlength, Function.misfit, if_pos hlength]
    exact bind_done (x := matchArgs (evaluate limits) (fn.withBody body) args) hdone _
  · -- the arguments are counted before they are matched
    refine ⟨m, .refl m, fun body => ?_⟩
    rw [applyFunction, Function.params_withBody, if_neg hlength, Function.misfit, if_neg hlength]
    rfl

theorem anyAccepts_none (h : m.store.CanTry limits fns args)
    (hfns : ∀ g ∈ fns, g.verdict m.store args = .rejected) :
    ∃ m', anyAccepts (evaluate limits) args fns m = .done false m' ∧ m.Undisturbed m' := by
  rw [← List.append_nil fns] at h
  obtain ⟨m₁, hm₁, hany, -⟩ := pass_rejected h hfns (.refl m)
  rw [List.append_nil] at hany
  exact ⟨m₁, hany, hm₁⟩

/-- If all functions reject the arguments, no body has a part in the complaint. -/
theorem dispatch_none (name : String) (h : m.store.CanTry limits fns args)
    (hfns : ∀ g ∈ fns, g.verdict m.store args = .rejected) :
    ∃ m₁, m.Undisturbed m₁ ∧ ∀ body : Function → Expr,
      dispatch (evaluate limits) name args (fns.map fun g => g.withBody (body g)) m =
        complain (.noOverload name) m₁ := by
  rw [← List.append_nil fns] at h
  obtain ⟨m₁, hm₁, -, hdispatch⟩ := pass_rejected h hfns (.refl m)
  refine ⟨m₁, hm₁, fun body => ?_⟩
  rw [← List.append_nil (fns.map _)]
  exact hdispatch name body

end Choosing

end Run

/-! ## Probing and calling -/

open Run

/-- A function accepts arguments in a machine: they are bound in a frame. -/
def Function.Accepts (limits : Limits) (args : List Ref) (m : Machine) (fn : Function) : Prop :=
  ∃ f m', matchArgs (evaluate limits) fn args m = .done (some f) m'

def Function.Rejects (limits : Limits) (args : List Ref) (m : Machine) (fn : Function) : Prop :=
  ∃ m', matchArgs (evaluate limits) fn args m = .done none m'

/-- The body of a function is run, after a note, in a new frame that binds the parts of the
arguments to the names of its own parameters, and no other names. -/
def Function.RunsAfter (note : Run Unit) (limits : Limits) (args : List Ref) (m : Machine)
    (fn : Function) (o : Outcome Ref) : Prop :=
  ∃ f m₁, m.OpensFrame fn (Bindings.empty.merge ⟨Pattern.partsAll m.heap fn.params args⟩) f m₁ ∧
    o = (do note; invoke (evaluate limits) fn f) m₁

namespace Run

variable {limits : Limits} {m m₀ : Machine} {args : List Ref} {fn : Function} {fns : List Function}
  {callee : Ref} {name : String}

theorem accepts_of_verdict {b : Bindings Ref} (h : m.store.CanTry limits fns args) (hmem : fn ∈ fns)
    (hfn : fn.verdict m.store args = .accepted b) : fn.Accepts limits args m := by
  have hmatches := matches_of_canTry h hmem (.refl m)
  rw [hfn] at hmatches
  obtain ⟨f, m', hdone, -⟩ := hmatches
  exact ⟨f, m', hdone⟩

theorem rejects_of_verdict (h : m.store.CanTry limits fns args) (hmem : fn ∈ fns)
    (hfn : fn.verdict m.store args = .rejected) : fn.Rejects limits args m := by
  have hmatches := matches_of_canTry h hmem (.refl m)
  rw [hfn] at hmatches
  obtain ⟨m', hdone, -⟩ := hmatches
  exact ⟨m', hdone⟩

section Applying

variable (evaluate : Evaluator)

theorem isApplicable?_function (hcallee : m.heap.payload callee = .function fn) :
    isApplicable? evaluate callee args m =
      (do return some (← matchArgs evaluate fn args).isSome : Run (Option Bool)) m := by
  rw [isApplicable?, look_bind, hcallee]

theorem isApplicable?_overloads (hcallee : m.heap.payload callee = .overloads name fns) :
    isApplicable? evaluate callee args m =
      (do return some (← anyAccepts evaluate args fns) : Run (Option Bool)) m := by
  rw [isApplicable?, look_bind, hcallee]

theorem apply_function (hcallee : m.heap.payload callee = .function fn) :
    apply evaluate callee args m = applyFunction evaluate fn args m := by
  rw [apply, look_bind, hcallee]
  dsimp only
  rw [applyPlain, look_bind, hcallee]

theorem apply_overloads (hcallee : m.heap.payload callee = .overloads name fns) :
    apply evaluate callee args m = dispatch evaluate name args fns m := by
  rw [apply, look_bind, hcallee]
  dsimp only
  rw [applyPlain, look_bind, hcallee]

end Applying

/-- No name that plain code needs is missing when the arguments are probed. -/
def ProbesBound (limits : Limits) (callee : Ref) (args : List Ref) (m : Machine) : Prop :=
  ∀ n t m', isApplicable? (evaluate limits) callee args m ≠
    .failed (.complaint (.unboundVariable n) t) m'

theorem probe_function (h : m.store.CanTry limits [fn] args)
    (hcallee : m.heap.payload callee = .function fn) (hbound : ProbesBound limits callee args m)
    (hm₀ : m₀.store = m.store) :
    ∃ ok m', isApplicable? (evaluate limits) callee args m = .done (some ok) m' ∧
      m.Undisturbed m' ∧
      (ok = true → fn.RunsAfter (pure ()) limits args m₀ (apply (evaluate limits) callee args m₀)) ∧
      (ok = false → ∃ m₁, m₀.Undisturbed m₁ ∧
        apply (evaluate limits) callee args m₀ = complain (fn.misfit args) m₁ ∧
        ∀ body, applyFunction (evaluate limits) (fn.withBody body) args m₀ =
          complain (fn.misfit args) m₁) := by
  have h₀ : m₀.store.CanTry limits [fn] args := hm₀ ▸ h
  have hcallee₀ : m₀.heap.payload callee = .function fn :=
    (congrArg (·.heap.payload callee) hm₀).trans hcallee
  have hprobe := matches_of_canTry h List.mem_cons_self (.refl m)
  rw [isApplicable?_function _ hcallee, apply_function _ hcallee₀]
  cases hverdict : fn.verdict m.store args with
  | accepted b =>
    rw [hverdict] at hprobe
    obtain ⟨f, m', hdone, hm'⟩ := hprobe
    rw [← hm₀] at hverdict
    obtain ⟨f₀, m₁, hm₁, hcall⟩ := applyFunction_accepted h₀ hverdict
    obtain ⟨-, rfl⟩ := Function.bindings_of_verdict hverdict
    exact ⟨true, m', bind_done hdone _, hm'.toUndisturbed, fun _ => ⟨f₀, m₁, hm₁, hcall⟩, by simp⟩
  | rejected =>
    rw [hverdict] at hprobe
    obtain ⟨m', hdone, hm'⟩ := hprobe
    obtain ⟨m₁, hm₁, hbodies⟩ := applyFunction_rejected h₀ (hm₀ ▸ hverdict)
    exact ⟨false, m', bind_done hdone _, hm', by simp, fun _ => ⟨m₁, hm₁, hbodies fn.body, hbodies⟩⟩
  | unbound =>
    rw [hverdict] at hprobe
    obtain ⟨n, t, m', hfailed⟩ := hprobe
    exact absurd ((isApplicable?_function _ hcallee).trans (bind_failed hfailed _)) (hbound n t m')

theorem probe_overloads (h : m.store.CanTry limits fns args)
    (hcallee : m.heap.payload callee = .overloads name fns)
    (hbound : ProbesBound limits callee args m) (hm₀ : m₀.store = m.store) :
    ∃ ok m', isApplicable? (evaluate limits) callee args m = .done (some ok) m' ∧
      m.Undisturbed m' ∧
      (ok = true → ∃ before fn after, fns = before ++ fn :: after ∧
        (∀ g ∈ before, g.Rejects limits args m) ∧ fn.Accepts limits args m ∧
        fn.RunsAfter (traceChoice (evaluate limits).room name fn.params) limits args m₀
          (apply (evaluate limits) callee args m₀)) ∧
      (ok = false → ∃ m₁, m₀.Undisturbed m₁ ∧
        apply (evaluate limits) callee args m₀ = complain (.noOverload name) m₁ ∧
        ∀ body : Function → Expr,
          dispatch (evaluate limits) name args (fns.map fun g => g.withBody (body g)) m₀ =
            complain (.noOverload name) m₁) := by
  have hcallee₀ : m₀.heap.payload callee = .overloads name fns :=
    (congrArg (·.heap.payload callee) hm₀).trans hcallee
  rw [isApplicable?_overloads _ hcallee, apply_overloads _ hcallee₀]
  cases Function.choice m.store args fns with
  | accepted before fn after b hfns hbefore hfn =>
    subst hfns
    have h₀ : m₀.store.CanTry limits (before ++ fn :: after) args := hm₀ ▸ h
    have hmem : fn ∈ before ++ fn :: after := by simp
    obtain ⟨m', hdone, hm'⟩ := anyAccepts_accepted h hbefore hfn
    obtain ⟨f, m₁, hm₁, hdispatch⟩ := dispatch_accepted name h₀ (hm₀ ▸ hbefore) (hm₀ ▸ hfn)
    refine ⟨true, m', bind_done hdone _, hm', fun _ => ⟨before, fn, after, rfl, ?_, ?_, f, m₁, ?_⟩,
      by simp⟩
    · exact fun g hg => rejects_of_verdict h (List.mem_append_left _ hg) (hbefore g hg)
    · exact accepts_of_verdict h hmem hfn
    · rw [← hm₀] at hfn
      obtain ⟨-, rfl⟩ := Function.bindings_of_verdict hfn
      exact ⟨hm₁, hdispatch⟩
  | unbound before fn after hfns hbefore hfn =>
    -- the probe would fail at the name as well, against `hbound`
    subst hfns
    obtain ⟨n, t, m', hfailed⟩ := anyAccepts_unbound h hbefore hfn
    exact absurd ((isApplicable?_overloads _ hcallee).trans (bind_failed hfailed _)) (hbound n t m')
  | none hfns =>
    obtain ⟨m', hdone, hm'⟩ := anyAccepts_none h hfns
    refine ⟨false, m', bind_done hdone _, hm', by simp, fun _ => ?_⟩
    obtain ⟨m₁, hm₁, hbodies⟩ := dispatch_none name (hm₀ ▸ h) (hm₀ ▸ hfns)
    exact ⟨m₁, hm₁, Function.map_withBody_body fns ▸ hbodies Function.body, hbodies⟩

/-- A machine with an overload set. -/
def machineWith (fns : List Function) : Machine :=
  { Machine.bare false with heap := (Heap.initial.alloc (.overloads "f" fns)).2 }

/-- A function that takes a list after its first argument, and one that takes any two arguments. -/
def listOrAny : List Function :=
  [{ name := "f", params := [.name none "x", .list none [.name none "y"]], body := .name none "y" },
    { name := "f", params := [.wildcard none, .name none "z"], body := .name none "z" }]

end Run

end TreeScript
