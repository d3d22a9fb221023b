import AppManifest.Resolution
import AppManifest.Report.Line
/-!
# The summary of an application

The summary names the providers, the functions and the workflow of an application with what is
known of them, and counts the blocks of the document. A reference that does not resolve is shown
as such and does not stop the summary.
-/

namespace AppManifest

/-- A provider in a summary; without a kind if it does not resolve. -/
structure ProviderInfo where
  name : String
  kind : Option String
  deriving DecidableEq, Repr

/-- A function in a summary; without a runtime if it does not resolve. -/
structure FunctionInfo where
  name : String
  runtime : Option String
  triggers : List String
  deriving DecidableEq, Repr

/-- A workflow in a summary; without functions if it does not resolve. -/
structure WorkflowInfo where
  name : String
  functions : List FunctionInfo
  deriving DecidableEq, Repr

/-- The size of a document: its packages, and its blocks by kind in the order of the first block
of each. -/
structure Stats where
  packages : Nat
  blocks : Entries Nat
  deriving DecidableEq, Repr

/-- The summary of an application. -/
structure InfoReport where
  name : String
  path : String
  defaultProvider : ProviderInfo
  /-- The providers other than the default one. -/
  providers : List ProviderInfo
  functions : List FunctionInfo
  workflow : Option WorkflowInfo
  inputExamples : Nat
  stats : Stats
  deriving DecidableEq, Repr

/-- What is written for something that does not resolve. -/
def unresolved : String := "<unresolved>"

namespace Document

/-- What is known of a provider. -/
def providerInfo (document : Document) (reference : Reference .provider) : ProviderInfo :=
  match document.resolve reference with
  | .ok provider => ⟨reference.name, some (Provider.kind provider)⟩
  | .error _ => ⟨reference.name, none⟩

/-- What is known of a function. -/
def functionInfo (document : Document) (reference : Reference .function) : FunctionInfo :=
  match document.resolve reference with
  | .ok function =>
    ⟨reference.name, some (Function.runtime function),
      (Function.triggers function).map (·.name)⟩
  | .error _ => ⟨reference.name, none, []⟩

/-- What is known of a workflow. -/
def workflowInfo (document : Document) (reference : Reference .workflow) : WorkflowInfo :=
  match document.resolve reference with
  | .ok workflow => ⟨reference.name, (Workflow.functions workflow).map document.functionInfo⟩
  | .error _ => ⟨reference.name, []⟩

/-- One more block of a kind. -/
def countKind (counts : Entries Nat) (kind : String) : Entries Nat :=
  counts.insert kind ((counts.get? kind).getD 0 + 1)

/-- The size of a document. -/
def stats (document : Document) : Stats :=
  ⟨document.packages.length, (document.blocks.map (·.kind)).foldl countKind []⟩

/-- Summarise the application of a document. -/
def info (document : Document) (path : String) : Checked InfoReport := do
  let app ← document.resolveApplication
  .ok {
    name := (app.name.or document.applicationName?).getD ""
    path
    defaultProvider := document.providerInfo app.defaultProvider
    providers := (app.providers.filter (· ≠ app.defaultProvider)).map document.providerInfo
    functions := app.functions.map document.functionInfo
    workflow := app.workflow.map document.workflowInfo
    inputExamples := app.inputExamples.length
    stats := document.stats }

end Document

/-- How a summary shows a provider. -/
def ProviderInfo.describe (info : ProviderInfo) : String :=
  info.name ++ " (" ++ info.kind.getD unresolved ++ ")"

/-- How a summary shows a function. -/
def FunctionInfo.describe (info : FunctionInfo) : String :=
  info.name ++ " (" ++ info.runtime.getD unresolved ++ ")" ++
    if info.triggers.isEmpty then "" else " [" ++ ", ".intercalate info.triggers ++ "]"

namespace InfoReport

/-- A line under a heading, as long as the heading. -/
def rule (length : Nat) : String := String.ofList (List.replicate length '─')

/-- Text filled up with spaces to a width. -/
def padded (width : Nat) (text : String) : String :=
  text ++ String.ofList (List.replicate (width - text.length) ' ')

/-- A heading with items under it, left out if there are none. -/
def itemLines (heading : String) (items : List String) : List Report.Line :=
  if items.isEmpty then []
  else
    [.preformatted ("  " ++ heading), .preformatted ("  " ++ rule heading.length)] ++
      items.map .listItem ++ [.newline]

/-- The workflow with its functions under it. -/
def workflowLines (workflow : WorkflowInfo) : List Report.Line :=
  let heading := "Workflow " ++ workflow.name
  [.preformatted ("  " ++ heading), .preformatted ("  " ++ rule heading.length)] ++
    workflow.functions.map (fun f ↦ .listItem f.describe) ++ [.newline]

/-- The lines of a summary. -/
def lines (report : InfoReport) : List Report.Line :=
  [.newline, .preformatted ("  " ++ report.name),
    .preformatted ("  " ++ rule report.name.length), .newline,
    .preformatted ("  Kind        " ++ if report.workflow.isSome then "workflow" else "functions"),
    .preformatted ("  Provider    " ++ report.defaultProvider.describe),
    .preformatted ("  IR          " ++ report.path)] ++
  (if report.inputExamples = 0 then []
    else [.preformatted ("  Examples    " ++ toString report.inputExamples)]) ++
  [.newline] ++
  itemLines "Providers" (report.providers.map (·.describe)) ++
  itemLines "Functions" (report.functions.map (·.describe)) ++
  (match report.workflow with
    | some workflow => workflowLines workflow
    | none => []) ++
  [.preformatted "  Statistics", .preformatted ("  " ++ rule "Statistics".length),
    .preformatted ("  Packages    " ++ toString report.stats.packages)] ++
  report.stats.blocks.map fun entry ↦
    .preformatted ("  " ++ padded 12 entry.1 ++ toString entry.2)

end InfoReport

end AppManifest
