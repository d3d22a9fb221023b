import AppManifest.Report.Check
/-!
# Which lints find errors

Among the standard lints only the one for references that do not resolve finds errors, and it runs
first. The others warn (`severity_of_mem_warnings`), so the errors of a report are what that lint
finds (`Document.exists_report`).
-/

namespace AppManifest

namespace Lint

/-- What the standard lints behind the first one find. -/
def warnings (document : Document) (app : Application) : List Diagnostic :=
  DuplicateBlock.findings [] [] document.blocks ++
    (DefaultProvider.check app ++ EmptyWorkflow.check document app)

theorem checkAll_standard (document : Document) (app : Application) :
    checkAll standard document app =
      DanglingReference.check document app ++ warnings document app := by
  show _ ++ (_ ++ (_ ++ (_ ++ []))) = _
  rw [List.append_nil]
  rfl

theorem severity_of_mem_findings {d : Diagnostic} {blocks : List Block} :
    ∀ {seen reported : List (String × String)},
      d ∈ DuplicateBlock.findings seen reported blocks → d.severity = .warning := by
  induction blocks with
  | nil => exact fun hmem ↦ absurd hmem List.not_mem_nil
  | cons block rest ih =>
    intro seen reported hmem
    rw [DuplicateBlock.findings] at hmem
    split at hmem
    · split at hmem
      · exact ih hmem
      · rcases List.mem_cons.1 hmem with rfl | hmem
        · rfl
        · exact ih hmem
    · exact ih hmem

/-- **The lints behind the first one only warn.** So whether a report has errors is decided by the
first lint alone. -/
theorem severity_of_mem_warnings {document : Document} {app : Application} {d : Diagnostic}
    (hmem : d ∈ warnings document app) : d.severity = .warning := by
  rw [warnings, List.mem_append, List.mem_append] at hmem
  rcases hmem with hmem | hmem | hmem
  · exact severity_of_mem_findings hmem
  · rw [DefaultProvider.check] at hmem
    split at hmem
    · exact absurd hmem List.not_mem_nil
    · rw [List.mem_singleton.1 hmem]
  · rw [EmptyWorkflow.check] at hmem
    split at hmem
    · exact absurd hmem List.not_mem_nil
    · split at hmem
      · exact absurd hmem List.not_mem_nil
      · split at hmem
        · rw [List.mem_singleton.1 hmem]
          rfl
        · exact absurd hmem List.not_mem_nil

end Lint

/-- **The errors of a report are the errors of the first lint.** There is a report whenever the
application resolves, whatever the lints find. -/
theorem Document.exists_report {document : Document} {app : Application}
    (h : document.resolveApplication = .ok app) (path : String) :
    ∃ report, document.check path = .ok report ∧
      report.errors = CheckReport.entries .error (Lint.DanglingReference.check document app) := by
  have hnone : CheckReport.entries .error (Lint.warnings document app) = [] := by
    rw [CheckReport.entries, List.map_eq_nil_iff, List.filter_eq_nil_iff]
    intro d hmem
    simp [Lint.severity_of_mem_warnings hmem]
  have hrun : Lint.run Lint.standard document =
      .ok ⟨app, Lint.checkAll Lint.standard document app⟩ := by
    rw [Lint.run, h]
    rfl
  rw [Document.check, hrun]
  refine ⟨_, rfl, ?_⟩
  show CheckReport.entries .error (Lint.checkAll Lint.standard document app) = _
  rw [Lint.checkAll_standard, CheckReport.entries, List.filter_append, List.map_append,
    ← CheckReport.entries, ← CheckReport.entries, hnone, List.append_nil]

end AppManifest
