import AppManifest.Json.Printer
import AppManifest.Resolution
/-!
# Applications with their references expanded

The references of an application itself are replaced by the blocks that they name; references
inside those blocks stay as they are. Expansion stops at the first reference that fails.
-/

namespace AppManifest

/-- An entity together with the name of its block. -/
structure Named (kind : Kind) where
  name : String
  entity : Entity kind

/-- An application whose references are replaced by what they name. -/
structure ExpandedApplication where
  name : Option String
  defaultProvider : Named .provider
  providers : List (Named .provider)
  functions : List (Named .function)
  workflow : Option (Named .workflow)
  inputExamples : List InputExample
  options : Option Fields

namespace Named

variable {kind : Kind}

/-- The JSON form: the name, then the members of the entity. -/
def toJson (named : Named kind) : Json :=
  .object (("name", .string named.name) :: Entity.toMembers kind named.entity)

/-- The reference that was replaced. -/
def reference (named : Named kind) : Reference kind := ⟨named.name⟩

end Named

namespace Document

/-- The entity that a reference names, with its name. -/
def expandReference (document : Document) {kind : Kind} (reference : Reference kind) :
    Checked (Named kind) := do
  let entity ← document.resolve reference
  .ok ⟨reference.name, entity⟩

/-- The entities that references name, with their names, up to the first one that fails. -/
def expandAll (document : Document) {kind : Kind} :
    List (Reference kind) → Checked (List (Named kind))
  | [] => .ok []
  | reference :: rest => do
    let first ← document.expandReference reference
    let others ← document.expandAll rest
    .ok (first :: others)

/-- An optional reference with its entity. -/
def expandOption (document : Document) {kind : Kind} :
    Option (Reference kind) → Checked (Option (Named kind))
  | none => .ok none
  | some reference => do
    let named ← document.expandReference reference
    .ok (some named)

/-- An application with its references expanded. -/
def expand (document : Document) (app : Application) : Checked ExpandedApplication := do
  let defaultProvider ← document.expandReference app.defaultProvider
  let providers ← document.expandAll app.providers
  let functions ← document.expandAll app.functions
  let workflow ← document.expandOption app.workflow
  .ok {
    name := app.name
    defaultProvider, providers, functions, workflow
    inputExamples := app.inputExamples
    options := app.options }

end Document

namespace ExpandedApplication

/-- The JSON form of an expanded application. -/
def toJson (app : ExpandedApplication) : Json :=
  .object (Json.Members.given "name" .string app.name ++
    [("defaultProvider", app.defaultProvider.toJson),
      ("providers", .array (app.providers.map Named.toJson)),
      ("functions", .array (app.functions.map Named.toJson))] ++
    Json.Members.given "workflow" Named.toJson app.workflow ++
    [("inputExamples", .array (app.inputExamples.map fun e ↦ .object e.toMembers))] ++
    Json.Members.given "options" (fun options ↦ .object (Value.toMembers options)) app.options)

end ExpandedApplication

/-- The application of a document as JSON, with its references expanded if that is asked for. -/
def Document.applicationJson (document : Document) (expanded : Bool) : Checked Json := do
  let app ← document.resolveApplication
  if expanded then
    let app ← document.expand app
    .ok app.toJson
  else .ok (.object app.toMembers)

/-- The application of a document as JSON text, on one line or on several. -/
def Document.applicationText (document : Document) (expanded pretty : Bool) : Checked String := do
  let tree ← document.applicationJson expanded
  .ok (if pretty then tree.pretty else tree.compact)

end AppManifest
