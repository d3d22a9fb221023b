import AppManifest.Lint.Collection
import AppManifest.Report.Line
/-!
# The report of a check

The application is resolved, every standard lint is run, and the findings are sorted by severity.
The document is valid if there is no error among them.
-/

namespace AppManifest

/-- What a check found in a document. -/
structure CheckReport where
  /-- The path of the document. -/
  path : String
  /-- The name of the application block. -/
  application : String
  errors : List String
  warnings : List String
  infos : List String

namespace CheckReport

/-- A finding as a report shows it: the message, and the location on a line of its own. -/
def entry (diagnostic : Diagnostic) : String :=
  match diagnostic.location with
  | some location => diagnostic.message ++ "\n  --> " ++ location
  | none => diagnostic.message

/-- The findings of a severity as a report shows them. -/
def entries (severity : Severity) (diagnostics : List Diagnostic) : List String :=
  (diagnostics.filter (·.severity = severity)).map entry

/-- Whether the check found no error. -/
def isValid (report : CheckReport) : Bool := report.errors.isEmpty

/-- The last line of a report. -/
def verdict (report : CheckReport) : String :=
  if report.isValid then
    "✓ application '" ++ report.application ++ "' in " ++ report.path ++ " is valid"
  else
    "✗ " ++ toString report.errors.length ++ " error" ++
      (if report.errors.length = 1 then "" else "s") ++ " in " ++ report.path

/-- The lines of a report: errors, warnings, other findings, and the verdict, which an empty line
sets apart from errors and warnings. -/
def lines (report : CheckReport) : List Report.Line :=
  report.errors.map (fun e ↦ .warning ("error: " ++ e)) ++
  report.warnings.map (fun w ↦ .warning ("warning: " ++ w)) ++
  report.infos.map (fun i ↦ .preformatted ("info: " ++ i)) ++
  (if report.errors.isEmpty && report.warnings.isEmpty then [] else [.newline]) ++
  [.preformatted report.verdict]

end CheckReport

/-- Check a document: its application must resolve, then the lints are run. -/
def Document.check (document : Document) (path : String) : Checked CheckReport := do
  let analysis ← Lint.run Lint.standard document
  .ok {
    path
    application := document.applicationName?.getD ""
    errors := CheckReport.entries .error analysis.diagnostics
    warnings := CheckReport.entries .warning analysis.diagnostics
    infos := CheckReport.entries .info analysis.diagnostics }

end AppManifest
