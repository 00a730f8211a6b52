import TreeScript.Proofs.AcceptedCode
import TreeScript.Runner

/-!
# Reports

Running a document ends in a value or in a report, unless it escapes: reading the
document or building its code breaks off, or the report of a fault would have to
show a place or an argument that has no written form. A report is never empty,
and it is the last thing recorded.
-/

namespace TreeScript

namespace Runner

/-! ## What has a report -/

/-- A call that the report of a fault lists, with an argument that has no printed form. -/
def HasUnprintableCall (limits : Limits) (m : Machine) : Prop :=
  ∃ c ∈ lastCalls m.calls, ∃ v ∈ c.args, m.heap.printed? v limits.printed = none

/-- A machine from which no fault can be reported. -/
def Unreportable (limits : Limits) (m : Machine) : Prop :=
  m.place.all (·.isWritable) = false ∨ HasUnprintableCall limits m

variable (limits : Limits)

theorem callText?_eq_none_iff (h : Heap) (c : Call) :
    callText? limits h c = none ↔ ∃ v ∈ c.args, h.printed? v limits.printed = none := by
  rw [← mapM_eq_none_iff (f := (h.printed? · limits.printed))]
  unfold callText?
  cases c.args.mapM (h.printed? · limits.printed) <;> simp

theorem callsLine?_eq_none_iff (m : Machine) :
    callsLine? limits m = none ↔ HasUnprintableCall limits m := by
  have hmap : (lastCalls m.calls).mapM (callText? limits m.heap) = none ↔
      HasUnprintableCall limits m := by
    simp only [mapM_eq_none_iff, callText?_eq_none_iff, HasUnprintableCall]
  rw [← hmap]
  unfold callsLine?
  split
  · next hempty =>
    rw [List.isEmpty_iff] at hempty
    simp [hempty, lastCalls]
  · cases (lastCalls m.calls).mapM (callText? limits m.heap) <;> simp

variable {limits}

/-- A fault has a report unless that cannot be written, and the report says something. -/
theorem report_of_reportable {m : Machine} (h : ¬ Unreportable limits m) (fault : Fault) :
    ∃ text, report limits m fault = .ok text ∧ text ≠ "" := by
  rw [Unreportable, not_or, ← callsLine?_eq_none_iff, Bool.not_eq_false] at h
  obtain ⟨hplace, hcalls⟩ := h
  obtain ⟨calls, hcalls⟩ := Option.ne_none_iff_exists'.mp hcalls
  have hsummary : fault.summary ≠ "" := by
    unfold Fault.summary
    split <;> simp [toString]
  refine ⟨fault.summary ++ placeLine m.place ++ calls, ?_, by simp [hsummary]⟩
  rw [report, if_pos hplace, hcalls]

theorem report_of_unreportable {m : Machine} (h : Unreportable limits m) (fault : Fault) :
    ∃ e, report limits m fault = .error e := by
  unfold report
  rcases h with hplace | hcalls
  · rw [if_neg (by simp [hplace])]
    exact ⟨_, rfl⟩
  · rw [(callsLine?_eq_none_iff limits m).mpr hcalls]
    split <;> exact ⟨_, rfl⟩

/-! ## Stages of running a document -/

section Stages

variable {r : Runner} {text : String} {format : Option String} {d : Document}

/-- The code that is built from a document that has been read. -/
def building (r : Runner) (d : Document) : Except BuildFault (List Expr × Nat) :=
  Build.program r.origin d.root d.parts r.limits.documents.calls r.nans

/-- What is said of a document that is refused. -/
def rejection (fault : DocumentFault) : String := s!"DocumentError: {fault.message}"

/-- The end of a run whose document is at fault. -/
def refuse (r : Runner) (fault : DocumentFault) : Except RunFault RunResult × Runner :=
  let m := { r.machine with effects := #[] }
  if fault.kind = .invalid then
    (.ok (.rejected fault (rejection fault)), { r with machine := record m (rejection fault) })
  else (.error (.document fault), { r with machine := m })

theorem runDocument_of_unread {fault : DecodeFault}
    (h : readDocument text format none r.limits.documents = .error fault) :
    r.runDocument text format = r.refuse (.decoding fault) := by
  have hload : loadProgram text format r.origin r.nans r.limits.documents =
      .error (.decoding fault) := by
    unfold loadProgram
    rw [h]
    rfl
  unfold runDocument
  rw [hload]
  rfl

theorem loadProgram_of_read (h : readDocument text format none r.limits.documents = .ok d) :
    loadProgram text format r.origin r.nans r.limits.documents =
      (r.building d).mapError .building := by
  unfold loadProgram
  rw [h]
  rfl

theorem runDocument_of_unbuilt (h : readDocument text format none r.limits.documents = .ok d)
    {fault : BuildFault} (hbuild : r.building d = .error fault) :
    r.runDocument text format = r.refuse (.building fault) := by
  unfold runDocument
  rw [loadProgram_of_read h, hbuild]
  rfl

theorem runDocument_of_built (h : readDocument text format none r.limits.documents = .ok d)
    {program : List Expr} {nans : Nat} (hbuild : r.building d = .ok (program, nans)) :
    r.runDocument text format =
      run { r with machine := { r.machine with effects := #[] }, nans } program := by
  unfold runDocument
  rw [loadProgram_of_read h, hbuild]
  rfl

/-- Data in range is refused as invalid, unless it is too deep. -/
theorem tooDeep_of_building {fault : BuildFault} (hbuild : r.building d = .error fault)
    (hkind : DocumentFault.kind (.building fault) ≠ .invalid) (hrange : d.root.InRange d.parts) :
    fault = .tooDeep ∧ ¬ d.root.HasRoom d.parts r.limits.documents.calls := by
  have hend := Build.accepts_program r.origin d.root d.parts r.limits.documents.calls
    ⟨hrange, Classical.em _⟩ r.nans
  change Build.AcceptEnd _ _ _ (r.building d) at hend
  rw [hbuild] at hend
  cases hend with
  | refused _ hfault => exact absurd hfault hkind
  | broken hshort => exact ⟨rfl, hshort⟩

end Stages

/-! ## Ends -/

/-- A run ends in a value, or in a report that is not empty and has been recorded last. -/
def Reports : Except RunFault RunResult × Runner → Prop
  | (.ok (.success _), _) => True
  | (.ok (.failure _ report), r) | (.ok (.rejected _ report), r) =>
    report ≠ "" ∧ ∃ effects : Array Effect, r.machine.effects = effects.push ⟨.stderr, report⟩
  | (.error _, _) => False

/-- How running a document escapes from being reported. -/
inductive Escapes (r : Runner) (text : String) (format : Option String) : Prop
  /-- A part of the decoder of YAML breaks off, or the stack of the host ends. -/
  | reading {fault : DecodeFault}
    (h : readDocument text format none r.limits.documents = .error fault)
    (hkind : DocumentFault.kind (.decoding fault) ≠ .invalid)
  /-- Building breaks off: unless there is an integer beyond the range of numbers, it does so only
  where the data is nested too deep. -/
  | building {d : Document} (h : readDocument text format none r.limits.documents = .ok d)
    {fault : BuildFault} (hbuild : r.building d = .error fault)
    (hkind : DocumentFault.kind (.building fault) ≠ .invalid)
    (hd : d.root.InRange d.parts →
      fault = .tooDeep ∧ ¬ d.root.HasRoom d.parts r.limits.documents.calls)
  /-- The program fails where its fault cannot be reported. -/
  | reporting {d : Document} (h : readDocument text format none r.limits.documents = .ok d)
    {program : List Expr} {nans : Nat} (hbuild : r.building d = .ok (program, nans)) {fault : Fault}
    {m : Machine}
    (heval : evaluateProgram r.limits program { r.machine with effects := #[], calls := [] } =
      .failed fault m)
    (hm : Unreportable r.limits m)
  /-- The program does not end within the limits. -/
  | running {d : Document} (h : readDocument text format none r.limits.documents = .ok d)
    {program : List Expr} {nans : Nat} (hbuild : r.building d = .ok (program, nans))
    (heval : evaluateProgram r.limits program { r.machine with effects := #[], calls := [] } =
      .exhausted)

theorem reports_refuse (r : Runner) (fault : DocumentFault) :
    Reports (r.refuse fault) ↔ fault.kind = .invalid := by
  unfold refuse
  split
  · next h =>
    have hreport : rejection fault ≠ "" := by
      unfold rejection
      simp [toString]
    exact iff_of_true ⟨hreport, _, rfl⟩ h
  · next h => exact iff_of_false id h

variable (r : Runner) (text : String) (format : Option String)

theorem not_reports_of_escapes (h : Escapes r text format) :
    ¬ Reports (r.runDocument text format) := by
  cases h with
  | reading h hkind =>
    rw [runDocument_of_unread h, reports_refuse]
    exact hkind
  | building h hbuild hkind hd =>
    rw [runDocument_of_unbuilt h hbuild, reports_refuse]
    exact hkind
  | @reporting d h program nans hbuild fault m heval hm =>
    obtain ⟨e, he⟩ := report_of_unreportable hm fault
    rw [runDocument_of_built h hbuild]
    unfold run
    simp only [heval, he]
    exact id
  | running h hbuild heval =>
    rw [runDocument_of_built h hbuild]
    unfold run
    simp only [heval]
    exact id

theorem reports_of_not_escapes (h : ¬ Escapes r text format) :
    Reports (r.runDocument text format) := by
  cases hread : readDocument text format none r.limits.documents with
  | error fault =>
    rw [runDocument_of_unread hread, reports_refuse]
    exact Decidable.byContradiction fun hkind => h (.reading hread hkind)
  | ok d =>
    cases hbuild : r.building d with
    | error fault =>
      rw [runDocument_of_unbuilt hread hbuild, reports_refuse]
      exact Decidable.byContradiction fun hkind =>
        h (.building hread hbuild hkind (tooDeep_of_building hbuild hkind))
    | ok built =>
      obtain ⟨program, nans⟩ := built
      rw [runDocument_of_built hread hbuild]
      unfold run
      dsimp only
      cases heval : evaluateProgram r.limits program
          { r.machine with effects := #[], calls := [] } with
      | done v m => exact trivial
      | failed fault m =>
        have hm : ¬ Unreportable r.limits m := fun hm => h (.reporting hread hbuild heval hm)
        obtain ⟨report, hreport, hne⟩ := report_of_reportable hm fault
        simp only [hreport]
        exact ⟨hne, _, rfl⟩
      | exhausted => exact absurd (.running hread hbuild heval) h

/-- A document that is one integer of 310 digits. -/
def largeNumber : List Char := '1' :: List.replicate 309 '0'

/-- The digits are read by themselves: as a text they would be taken apart again at each step. -/
theorem read_largeNumber :
    readDocument (String.ofList largeNumber) (some "json") none =
      .ok { root := .integer (.ofNat (Nat.pow 10 309)) } := by
  have hdigits : (match Json.document Depths.standard.json largeNumber with
      | .ok (.integer i) => i == .ofNat (Nat.pow 10 309)
      | _ => false) = true := by decide +kernel
  have hdocument : Json.document Depths.standard.json largeNumber =
      .ok (.integer (.ofNat (Nat.pow 10 309))) := by
    split at hdigits
    · next i heq => rw [heq, eq_of_beq hdigits]
    · contradiction
  rw [readDocument_json, Json.decode, String.toList_ofList, hdocument]
  rfl

end Runner

end TreeScript
