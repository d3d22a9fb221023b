import AppManifest.Lint
/-!
# Workflows without functions

A workflow that orchestrates nothing is probably a mistake. A workflow that does not resolve is
left to the lint for dangling references.
-/

namespace AppManifest.Lint.EmptyWorkflow

/-- The name of the lint. -/
def name : String := "empty-workflow"

/-- The finding for a workflow. -/
def finding (workflow : String) : Diagnostic :=
  ⟨.warning, name, "workflow '" ++ workflow ++ "' has no functions",
    some ("workflow." ++ workflow ++ ".functions")⟩

/-- The finding, if there is one. -/
def check (document : Document) (app : Application) : List Diagnostic :=
  match app.workflow with
  | none => []
  | some reference =>
    match document.resolve reference with
    | .error _ => []
    | .ok target =>
      if (Workflow.functions target).isEmpty then [finding reference.name] else []

/-- The lint. -/
def lint : Lint := ⟨name, "Warn about workflows with no functions", check⟩

end AppManifest.Lint.EmptyWorkflow
