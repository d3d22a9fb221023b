import AppManifest.Entity.Provider
/-!
# Applications

An application is the root of what is deployed: the providers that it can run on, its functions,
and perhaps a workflow over them.
-/

namespace AppManifest

/-- A sample input. -/
structure InputExample where
  value : Option Value

/-- The root of what is deployed. -/
structure Application where
  /-- The name to display. -/
  name : Option String
  /-- The provider that is used when no other is chosen. -/
  defaultProvider : Reference .provider
  providers : List (Reference .provider)
  functions : List (Reference .function)
  workflow : Option (Reference .workflow)
  inputExamples : List InputExample
  options : Option Fields

namespace InputExample

/-- The JSON members of a sample input. -/
def toMembers (sample : InputExample) : Json.Members :=
  Json.Members.given "value" Value.toJson sample.value

/-- The sample input that members stand for. -/
def ofMembers? (members : Json.Members) : Option InputExample := do
  let value ← members.optional "value" fun value ↦ some (Value.ofJson value)
  some ⟨value⟩

/-- Equality of sample inputs. -/
def same (a b : InputExample) : Bool := sameOption Value.same a.value b.value

end InputExample

namespace Application

/-- Whether the application is orchestrated by a workflow. -/
def isWorkflow (app : Application) : Bool := app.workflow.isSome

/-- The list with one more element, unless it is there already. -/
def addNew {α : Type} [DecidableEq α] (seen : List α) (next : α) : List α :=
  if next ∈ seen then seen else seen ++ [next]

/-- The providers that the application may run on: the default one first, then the others in
order, each once. -/
def candidateProviders (app : Application) : List (Reference .provider) :=
  app.providers.foldl addNew [app.defaultProvider]

/-- A free-form option. -/
def option? (app : Application) (key : String) : Option Value :=
  app.options.bind fun options ↦ Entries.get? options key

/-- The JSON members of an application. -/
def toMembers (app : Application) : Json.Members :=
  Json.Members.given "name" .string app.name ++
  [("defaultProvider", app.defaultProvider.toJson),
    ("providers", .array (app.providers.map Reference.toJson)),
    ("functions", .array (app.functions.map Reference.toJson))] ++
  Json.Members.given "workflow" Reference.toJson app.workflow ++
  [("inputExamples", .array (app.inputExamples.map fun e ↦ .object e.toMembers))] ++
  Json.Members.given "options" (fun options ↦ .object (Value.toMembers options)) app.options

/-- The application that members stand for. -/
def ofMembers? (members : Json.Members) : Option Application := do
  let name ← members.optional "name" Json.string?
  let defaultProvider ← members.required "defaultProvider" (Reference.ofJson? .provider)
  let providers ← members.withDefault "providers" [] (Json.listOf? (Reference.ofJson? .provider))
  let functions ← members.withDefault "functions" [] (Json.listOf? (Reference.ofJson? .function))
  let workflow ← members.optional "workflow" (Reference.ofJson? .workflow)
  let inputExamples ← members.withDefault "inputExamples" []
    (Json.listOf? fun value ↦ value.members? >>= InputExample.ofMembers?)
  let options ← members.optional "options" Fields.ofJson?
  some ⟨name, defaultProvider, providers, functions, workflow, inputExamples, options⟩

/-- Equality of lists, given the equality of elements. -/
def sameList {α : Type} (same : α → α → Bool) : List α → List α → Bool
  | [], [] => true
  | a :: as, b :: bs => same a b && sameList same as bs
  | _, _ => false

/-- Equality of applications. -/
def same (a b : Application) : Bool :=
  a.name == b.name && a.defaultProvider == b.defaultProvider && a.providers == b.providers &&
  a.functions == b.functions && a.workflow == b.workflow &&
  sameList InputExample.same a.inputExamples b.inputExamples &&
  sameOption Fields.same a.options b.options

end Application

end AppManifest
