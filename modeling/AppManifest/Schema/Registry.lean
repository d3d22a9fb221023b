import AppManifest.Schema
/-!
# The schema of every kind

Providers accept fields beyond the declared ones; all other kinds are closed.
-/

namespace AppManifest

namespace Field

/-- A field that must be given. -/
def required (name : String) (shape : Shape) : Field := ⟨name, shape, .required⟩

/-- A field that may be left out. -/
def optional (name : String) (shape : Shape) : Field := ⟨name, shape, .optional⟩

/-- A list that is empty where it is left out. -/
def optionalList (name : String) (inner : Shape) : Field := ⟨name, .list inner, .default (.list [])⟩

end Field

namespace Schema

open AppManifest.Field

/-- The number of copies of a function or workflow. -/
def replicas : Shape := .integer 4294967295

/-- The resources of a function or workflow: a number of cores and a whole number of megabytes. -/
def resource : Schema :=
  .closed [optional "cpu" .number, optional "memory" .naturalNumber]

/-- A trigger, as a block or as an element of a function. -/
def trigger : Schema :=
  .closed [required "name" .string, required "kind" .string]

/-- A sample input. -/
def inputExample : Schema := .closed [optional "value" .any]

/-- The subscriptions of a function. -/
def pubSub : Schema := .closed [required "events" (.list (.reference .event))]

/-- The deployment settings of a provider. -/
def deployment : Schema :=
  .closed [optional "runtimeClass" .string, optional "startMode" .string]

/-- The place of a key-value store. -/
def redisLocation : Schema :=
  .closed [optional "host" .string, optional "port" (.integer 65535)]

/-- The schema of applications. -/
def application : Schema :=
  .closed [
    optional "name" .string,
    required "defaultProvider" (.reference .provider),
    optionalList "providers" (.reference .provider),
    optionalList "functions" (.reference .function),
    optional "workflow" (.reference .workflow),
    optionalList "inputExamples" (.object inputExample),
    optional "options" (.map .any)]

/-- The schema of functions. -/
def function : Schema :=
  .closed [
    required "runtime" .string,
    optional "image" .string,
    optional "baseImage" .string,
    ⟨"codeDir", .string, .default (.string "")⟩,
    optional "handler" .string,
    optional "replicas" replicas,
    optional "resource" (.object resource),
    optionalList "triggers" (.object trigger),
    optional "pubsub" (.object pubSub),
    optional "role" .string]

/-- The schema of workflows. -/
def workflow : Schema :=
  .closed [
    required "functions" (.list (.reference .function)),
    required "runtime" .string,
    optional "image" .string,
    optional "baseImage" .string,
    required "codeDir" .string,
    optional "handler" .string,
    optional "replicas" replicas,
    optional "resource" (.object resource),
    optional "role" .string]

/-- The schema of providers. -/
def provider : Schema :=
  .opened [
    required "kind" .string,
    optional "bucket" .string,
    optional "region" .string,
    optional "deployment" (.object deployment),
    optional "invoke" (.map .string),
    optional "registry" .string,
    optional "redis" (.object redisLocation)]

/-- The schema of events. -/
def event : Schema := .closed [required "type" .string, required "data" .structType]

/-- The schema of secrets. -/
def secret : Schema := .closed [required "name" .string, required "value" .string]

end Schema

/-- The schema of a kind. -/
def Kind.schema : Kind → Schema
  | .application => Schema.application
  | .function => Schema.function
  | .workflow => Schema.workflow
  | .provider => Schema.provider
  | .event => Schema.event
  | .secret => Schema.secret
  | .trigger => Schema.trigger

end AppManifest
