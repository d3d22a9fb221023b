import AppManifest.Lint
/-!
# References that do not resolve

Every reference that can be reached from the application must resolve to a valid block. The walk
visits the default provider, the other providers, the functions, and the workflow; behind a
function that resolves it visits its events, and behind a workflow that resolves its functions.
-/

namespace AppManifest.Lint.DanglingReference

/-- The name of the lint. -/
def name : String := "dangling-reference"

/-- The text of an index behind the name of a list. -/
def element (list : String) (i : Nat) : String := list ++ "[" ++ toString i ++ "]"

/-- The finding for a reference that fails to resolve. -/
def finding (error : Error) (location : String) : Diagnostic :=
  ⟨.error, name, error.message, some location⟩

/-- Visit a reference, and go on with its target if it resolves. -/
def visit (document : Document) {kind : Kind} (reference : Reference kind) (location : String)
    (next : Entity kind → List Diagnostic) : List Diagnostic :=
  match document.resolve reference with
  | .ok target => next target
  | .error error => [finding error location]

/-- Visit the references of a list, each at its index. -/
def visitEach {α : Type} (visitOne : α → String → List Diagnostic) (list : String) :
    Nat → List α → List Diagnostic
  | _, [] => []
  | i, one :: rest => visitOne one (element list i) ++ visitEach visitOne list (i + 1) rest

/-- Visit a function and the events that it subscribes to. -/
def visitFunction (document : Document) (reference : Reference .function) (location : String) :
    List Diagnostic :=
  visit document reference location fun target ↦
    visitEach (fun event place ↦ visit document event place fun _ ↦ [])
      ("function." ++ reference.name ++ ".pubsub.events") 0 (Function.events target)

/-- Visit a workflow and its functions. -/
def visitWorkflow (document : Document) (reference : Reference .workflow) : List Diagnostic :=
  visit document reference "application.workflow" fun target ↦
    visitEach (visitFunction document) ("workflow." ++ reference.name ++ ".functions") 0
      (Workflow.functions target)

/-- All findings, in the order of the walk. -/
def check (document : Document) (app : Application) : List Diagnostic :=
  visit document app.defaultProvider "application.defaultProvider" (fun _ ↦ []) ++
  visitEach (fun provider place ↦ visit document provider place fun _ ↦ [])
    "application.providers" 0 app.providers ++
  visitEach (visitFunction document) "application.functions" 0 app.functions ++
  match app.workflow with
  | some workflow => visitWorkflow document workflow
  | none => []

/-- The lint. -/
def lint : Lint :=
  ⟨name, "Check that every reachable reference resolves to a valid block", check⟩

end AppManifest.Lint.DanglingReference
