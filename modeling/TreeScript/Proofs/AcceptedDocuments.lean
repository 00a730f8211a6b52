import TreeScript.Proofs.Reports

/-!
# Which documents are programs

What is accepted as code makes up a program, and a document that is a program is
run. A document that is refused is reported, and leaves everything else as it was.
-/

namespace TreeScript

namespace Build

/-- Building gives something exactly if `P`, and else ends in a fault that makes a document invalid.
Only if there is not enough room may it break off instead. -/
def AcceptsExactly {α : Type} (P enough : Prop) (x : Build α) : Prop :=
  ∀ nans, (P ∧ ∃ a nans', x nans = .ok (a, nans')) ∨
    (¬ P ∧ ∃ fault, x nans = .error fault ∧ DocumentFault.kind (.building fault) = .invalid) ∨
    (¬ enough ∧ x nans = .error .tooDeep)

theorem Accepts.exactly {α : Type} {P enough : Prop} {Q : α → Prop} {x : Build α}
    (hx : Accepts (¬ enough) P Q x) : AcceptsExactly P enough x := by
  intro nans
  have hend := hx nans
  generalize x nans = e at hend ⊢
  cases hend with
  | accepted h hq nans' => exact .inl ⟨h, _, _, rfl⟩
  | refused h hfault => exact .inr (.inl ⟨h, _, rfl, hfault⟩)
  | broken hshort => exact .inr (.inr ⟨hshort, rfl⟩)

end Build

namespace Runner

/-- Data without integers beyond the range of numbers is accepted exactly if it is in the grammar: as
an expression if it is a node, as a parameter if it is one. A document of such data is run if it is a
program. If not, it ends in a report, and all that is changed is that the report is recorded. Two
calls of the host for each level of the data are enough room; with less, building may break off
instead. -/
theorem documents_accepted {d : Data} {parts : Parts} (hrange : d.InRange parts) :
    (∀ origin room, Build.AcceptsExactly (d.IsNode parts) (d.HasRoom parts room)
      (Build.expr origin d parts room)) ∧
    (∀ origin room, Build.AcceptsExactly (d.IsParameter parts) (d.HasRoom parts room)
      (Build.pattern origin d parts room)) ∧
    ∀ (r : Runner) text format,
      readDocument text format none r.limits.documents = .ok ⟨d, parts⟩ →
      (d.IsProgram parts ∧ ∃ program nans, r.building ⟨d, parts⟩ = .ok (program, nans) ∧
        r.runDocument text format =
          run { r with machine := { r.machine with effects := #[] }, nans } program) ∨
      (¬ d.IsProgram parts ∧ ∃ fault report,
        report = s!"DocumentError: {DocumentFault.message fault}" ∧ r.runDocument text format =
          (.ok (.rejected fault report),
            { r with machine := { r.machine with effects := #[⟨.stderr, report⟩] } })) ∨
      (¬ d.HasRoom parts r.limits.documents.calls ∧ r.runDocument text format =
        (.error (.document (.building .tooDeep)),
          { r with machine := { r.machine with effects := #[] } })) := by
  have hfits (room : ℕ) : d.Fits (¬ d.HasRoom parts room) parts room := ⟨hrange, Classical.em _⟩
  refine ⟨fun origin room => (Build.accepts_expr origin d parts room (hfits room)).exactly,
    fun origin room => (Build.accepts_pattern origin d parts room (hfits room)).exactly,
    fun r text format hread => ?_⟩
  have hend := (Build.accepts_program r.origin d parts r.limits.documents.calls (hfits _)).exactly
    r.nans
  rcases hend with ⟨hprogram, program, nans, hbuild⟩ | ⟨hprogram, fault, hbuild, hkind⟩ |
    ⟨hshort, hbuild⟩
  · exact .inl ⟨hprogram, program, nans, hbuild, runDocument_of_built hread hbuild⟩
  · refine .inr (.inl ⟨hprogram, .building fault, _, rfl, ?_⟩)
    rw [runDocument_of_unbuilt hread hbuild, refuse, if_pos hkind]
    rfl
  · refine .inr (.inr ⟨hshort, ?_⟩)
    rw [runDocument_of_unbuilt hread hbuild, refuse, if_neg (by simp [DocumentFault.kind])]

/-- A document whose second node is a name that is not given. -/
def namelessDocument : String := "[1, \x7b\"node\": \"name\"\x7d]"

/-- The nodes of the document. -/
def namelessNodes : List Data := [.integer 1, .mapping [(.text "node", .text "name")]]

theorem read_namelessDocument :
    readDocument namelessDocument (some "json") none = .ok { root := .list namelessNodes } := rfl

/-- The only integer in the nodes is one. -/
theorem inRange_namelessNodes : (Data.list namelessNodes).InRange [] := by
  intro i hi
  cases hi with
  | item he h =>
    rcases List.mem_pair.mp he with rfl | rfl
    · cases h
      decide +kernel
    · cases h with
      | key hmem h | value hmem h =>
        cases List.mem_singleton.mp hmem
        cases h

/-- The nodes are a list of mappings, and that is two levels. -/
theorem hasRoom_namelessNodes : (Data.list namelessNodes).HasRoom [] Depths.standard.calls := by
  intro n hn
  cases hn with
  | zero => decide
  | item he h =>
    rcases List.mem_pair.mp he with rfl | rfl
    · cases h
      decide
    · cases h with
      | zero => decide
      | value hmem h =>
        cases List.mem_singleton.mp hmem
        cases h
        decide

theorem not_isProgram_namelessNodes : ¬ (Data.list namelessNodes).IsProgram [] := by
  intro h
  cases h with
  | nodes hd h =>
    obtain rfl := Data.list.inj hd
    have hmem : .mapping [(.text "node", .text "name")] ∈ namelessNodes := by simp [namelessNodes]
    obtain ⟨-, kind, hkind, hfields⟩ := (Data.isNode_mapping_iff rfl).mp (h _ hmem)
    have hname : kind = .name := by
      have hof := (NodeKind.ofName?_eq_some_iff _ kind).mpr (Data.text.inj (Option.some.inj hkind))
      exact (Option.some.inj hof).symm
    subst hname
    have hmissing := (hfields ("name", .text) (by simp [NodeKind.fields])).isSome (by simp)
    cases hmissing
  | node h => exact Data.not_isNode_of_list rfl h

theorem documents_accepted_nameless :
    (Data.list namelessNodes).InRange [] ∧
    readDocument namelessDocument (some "json") none = .ok { root := .list namelessNodes } ∧
    ¬ (Data.list namelessNodes).IsProgram [] ∧
    ∃ fault report, ((new true false).runDocument namelessDocument (some "json")).1 =
      .ok (.rejected fault report) := by
  refine ⟨inRange_namelessNodes, read_namelessDocument, not_isProgram_namelessNodes, ?_⟩
  rcases (documents_accepted inRange_namelessNodes).2.2 (new true false) _ _
    read_namelessDocument with ⟨hprogram, -⟩ | ⟨-, fault, report, -, hrun⟩ | ⟨hshort, -⟩
  · exact absurd hprogram not_isProgram_namelessNodes
  · exact ⟨fault, report, congrArg Prod.fst hrun⟩
  · exact absurd hasRoom_namelessNodes hshort

end Runner

end TreeScript
