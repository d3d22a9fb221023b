import AppManifest.Lint.Diagnostic
import AppManifest.Resolution
/-!
# Lints

A lint looks at a whole document and its resolved application and lists what it finds. Findings
never stop a run; only an application that does not resolve does.
-/

namespace AppManifest

/-- A check of a whole document. -/
structure Lint where
  name : String
  description : String
  check : Document → Application → List Diagnostic

/-- The resolved application and what the lints found. -/
structure Analysis where
  application : Application
  diagnostics : List Diagnostic

namespace Lint

/-- What several lints find, in their order. -/
def checkAll (lints : List Lint) (document : Document) (app : Application) : List Diagnostic :=
  lints.flatMap fun lint ↦ lint.check document app

/-- Resolve the application and run the lints on it. -/
def run (lints : List Lint) (document : Document) : Checked Analysis := do
  let app ← document.resolveApplication
  .ok ⟨app, checkAll lints document app⟩

end Lint

namespace Analysis

/-- The number of errors. -/
def errorCount (analysis : Analysis) : Nat := analysis.diagnostics.countP (·.isError)

/-- The number of warnings. -/
def warningCount (analysis : Analysis) : Nat := analysis.diagnostics.countP (·.isWarning)

/-- Whether there is an error. -/
def hasErrors (analysis : Analysis) : Bool := analysis.diagnostics.any (·.isError)

/-- Whether there is a warning. -/
def hasWarnings (analysis : Analysis) : Bool := analysis.diagnostics.any (·.isWarning)

end Analysis

end AppManifest
