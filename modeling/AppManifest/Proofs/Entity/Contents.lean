import AppManifest.Proofs.Entity.Decoding
import AppManifest.Proofs.Entity.Reading
/-!
# What entities hold

For each record, `Holds` is the relation between a field bag and what was read from it, field by
field: the strings, numbers, references, lists and nested records of the bag are those of the
record, a field that is not given is absent or takes its default, and `null` counts as not given.
All of it is said of the bag as it was given, before validation and decoding.

Three things are held in another form. A number of cores is rounded (`Value.cores?`), a sample input
is held as its normal form (`Value.kept?`), and so are free settings, the options of an application
and the undeclared fields of a provider (`Value.normalizeFields`).

Each field is the slot of its layout, read as its shape reads it. `Entity.holds_of_parseFields` is
the sum over all kinds.
-/

namespace AppManifest

open Slot Shape

/-! ### Functions and workflows -/

/-- What is held of a trigger. -/
structure Trigger.Holds (raw : Fields) (trigger : Trigger) : Prop where
  name : Option.Rel Value.IsText (present? raw "name") (some trigger.name)
  kind : Option.Rel Value.IsText (present? raw "kind") (some trigger.kind)

/-- What is held of resources. -/
structure Resource.Holds (raw : Fields) (resource : Resource) : Prop where
  cpu : resource.cpu = (present? raw "cpu").bind Value.cores?
  memory : Option.Rel (fun value n ↦ value.IsNat n.toNat) (present? raw "memory") resource.memory

/-- What is held of subscriptions. -/
structure PubSub.Holds (raw : Fields) (pubsub : PubSub) : Prop where
  events : Option.Rel (Value.IsList Value.RefersTo) (present? raw "events") (some pubsub.events)

/-- What is held of a function. -/
structure Function.Holds (raw : Fields) (function : Function) : Prop where
  runtime : Option.Rel Value.IsText (present? raw "runtime") (some function.runtime)
  image : Option.Rel Value.IsText (present? raw "image") function.image
  baseImage : Option.Rel Value.IsText (present? raw "baseImage") function.baseImage
  codeDir : Value.IsText ((present? raw "codeDir").getD (.string "")) function.codeDir
  handler : Option.Rel Value.IsText (present? raw "handler") function.handler
  replicas : Option.Rel (fun value n ↦ value.IsNat n.toNat) (present? raw "replicas")
    function.replicas
  resource : Option.Rel (Value.IsObject Resource.Holds) (present? raw "resource") function.resource
  triggers : Value.IsList (Value.IsObject Trigger.Holds)
    ((present? raw "triggers").getD (.list [])) function.triggers
  pubsub : Option.Rel (Value.IsObject PubSub.Holds) (present? raw "pubsub") function.pubsub
  role : Option.Rel Value.IsText (present? raw "role") function.role

/-- What is held of a workflow. -/
structure Workflow.Holds (raw : Fields) (workflow : Workflow) : Prop where
  functions : Option.Rel (Value.IsList Value.RefersTo) (present? raw "functions")
    (some workflow.functions)
  runtime : Option.Rel Value.IsText (present? raw "runtime") (some workflow.runtime)
  image : Option.Rel Value.IsText (present? raw "image") workflow.image
  baseImage : Option.Rel Value.IsText (present? raw "baseImage") workflow.baseImage
  codeDir : Option.Rel Value.IsText (present? raw "codeDir") (some workflow.codeDir)
  handler : Option.Rel Value.IsText (present? raw "handler") workflow.handler
  replicas : Option.Rel (fun value n ↦ value.IsNat n.toNat) (present? raw "replicas")
    workflow.replicas
  resource : Option.Rel (Value.IsObject Resource.Holds) (present? raw "resource") workflow.resource
  role : Option.Rel Value.IsText (present? raw "role") workflow.role

/-! ### Providers -/

/-- What is held of deployment settings. -/
structure Deployment.Holds (raw : Fields) (deployment : Deployment) : Prop where
  runtimeClass : Option.Rel Value.IsText (present? raw "runtimeClass") deployment.runtimeClass
  startMode : Option.Rel Value.IsText (present? raw "startMode") deployment.startMode

/-- What is held of the place of a key-value store. -/
structure RedisLocation.Holds (raw : Fields) (location : RedisLocation) : Prop where
  host : Option.Rel Value.IsText (present? raw "host") location.host
  port : Option.Rel (fun value n ↦ value.IsNat n.toNat) (present? raw "port") location.port

/-- What is held of a provider. -/
structure Provider.Holds (raw : Fields) (provider : Provider) : Prop where
  kind : Option.Rel Value.IsText (present? raw "kind") (some provider.kind)
  bucket : Option.Rel Value.IsText (present? raw "bucket") provider.bucket
  region : Option.Rel Value.IsText (present? raw "region") provider.region
  deployment : Option.Rel (Value.IsObject Deployment.Holds) (present? raw "deployment")
    provider.deployment
  invoke : Option.Rel Value.IsTextMap (present? raw "invoke") provider.invoke
  registry : Option.Rel Value.IsText (present? raw "registry") provider.registry
  redis : Option.Rel (Value.IsObject RedisLocation.Holds) (present? raw "redis") provider.redis
  extra : provider.extra = Value.normalizeFields (Schema.provider.undeclared raw)

/-! ### Applications -/

/-- What is held of a sample input. -/
structure InputExample.Holds (raw : Fields) (sample : InputExample) : Prop where
  value : sample.value = (present? raw "value").bind Value.kept?

/-- What is held of an application. -/
structure Application.Holds (raw : Fields) (app : Application) : Prop where
  name : Option.Rel Value.IsText (present? raw "name") app.name
  defaultProvider : Option.Rel Value.RefersTo (present? raw "defaultProvider")
    (some app.defaultProvider)
  providers : Value.IsList Value.RefersTo ((present? raw "providers").getD (.list [])) app.providers
  functions : Value.IsList Value.RefersTo ((present? raw "functions").getD (.list [])) app.functions
  workflow : Option.Rel Value.RefersTo (present? raw "workflow") app.workflow
  inputExamples : Value.IsList (Value.IsObject InputExample.Holds)
    ((present? raw "inputExamples").getD (.list [])) app.inputExamples
  options : Option.Rel
    (Value.IsObject fun fields options ↦ options = Value.normalizeFields fields)
    (present? raw "options") app.options

/-! ### Events and secrets -/

/-- What is held of an event. -/
structure Event.Holds (raw : Fields) (event : Event) : Prop where
  eventType : Option.Rel Value.IsText (present? raw "type") (some event.eventType)
  data : Option.Rel
    (Value.IsObject fun fields data ↦ TypeExpr.ofMembers? (Value.toMembers fields) = some data)
    (present? raw "data") (some event.data)

/-- What is held of a secret. -/
structure Secret.Holds (raw : Fields) (secret : Secret) : Prop where
  name : Option.Rel Value.IsText (present? raw "name") (some secret.name)
  value : Option.Rel Value.IsText (present? raw "value") (some secret.value)

/-- What is held of a block of a kind. -/
def Entity.Holds : (kind : Kind) → Fields → Entity kind → Prop
  | .application => Application.Holds
  | .function => Function.Holds
  | .workflow => Workflow.Holds
  | .provider => Provider.Holds
  | .event => Event.Holds
  | .secret => Secret.Holds
  | .trigger => Trigger.Holds

/-! ### Every record holds what it was read from -/

section

variable {raw found : Fields}

theorem Trigger.holds {trigger : Trigger} (keyed : raw.WellKeyed)
    (h : Schema.trigger.Completes raw found)
    (read : ofMembers? (Value.toMembers found) = some trigger) : trigger.Holds raw where
  name := layout.of_reads_at keyed h read 0 rfl (reads_required rfl reads_string)
  kind := layout.of_reads_at keyed h read 1 rfl (reads_required rfl reads_string)

/-- Resources hold the rounded number of cores and the number of megabytes. -/
theorem Resource.holds {resource : Resource} (keyed : raw.WellKeyed)
    (h : Schema.resource.Completes raw found)
    (read : ofMembers? (Value.toMembers found) = some resource) : resource.Holds raw where
  cpu := layout.of_reads_at keyed h read 0 rfl (reads_optional_bind readOptional_cores)
  memory := layout.of_reads_at keyed h read 1 rfl
    (reads_optional rfl (reads_nat (by decide) UInt64.toNat_ofNat_of_lt'))

theorem PubSub.holds {pubsub : PubSub} (keyed : raw.WellKeyed)
    (h : Schema.pubSub.Completes raw found)
    (read : ofMembers? (Value.toMembers found) = some pubsub) : pubsub.Holds raw where
  events := layout.of_reads_at keyed h read 0 rfl
    (reads_required rfl (reads_list rfl (reads_reference .event)))

/-- A function holds what its fields were given, with its resources, triggers and subscription in
it. Each field is the slot at its index in the layout. -/
theorem Function.holds {function : Function} (keyed : raw.WellKeyed)
    (h : Schema.function.Completes raw found)
    (read : ofMembers? (Value.toMembers found) = some function) : function.Holds raw where
  runtime := layout.of_reads_at keyed h read 0 rfl (reads_required rfl reads_string)
  image := layout.of_reads_at keyed h read 1 rfl (reads_optional rfl reads_string)
  baseImage := layout.of_reads_at keyed h read 2 rfl (reads_optional rfl reads_string)
  codeDir := layout.of_reads_at keyed h read 3 rfl
    (reads_withDefault rfl (accepts_string _) trivial reads_string)
  handler := layout.of_reads_at keyed h read 4 rfl (reads_optional rfl reads_string)
  replicas := layout.of_reads_at keyed h read 5 rfl
    (reads_optional rfl (reads_nat (by decide) UInt32.toNat_ofNat_of_lt'))
  resource := layout.of_reads_at keyed h read 6 rfl
    (reads_optional rfl (reads_object fun _ _ _ ↦ Resource.holds))
  triggers := layout.of_reads_at keyed h read 7 rfl
    (reads_listOrEmpty rfl (reads_object fun _ _ _ ↦ Trigger.holds))
  pubsub := layout.of_reads_at keyed h read 8 rfl
    (reads_optional rfl (reads_object fun _ _ _ ↦ PubSub.holds))
  role := layout.of_reads_at keyed h read 9 rfl (reads_optional rfl reads_string)

theorem Workflow.holds {workflow : Workflow} (keyed : raw.WellKeyed)
    (h : Schema.workflow.Completes raw found)
    (read : ofMembers? (Value.toMembers found) = some workflow) : workflow.Holds raw where
  functions := layout.of_reads_at keyed h read 0 rfl
    (reads_required rfl (reads_list rfl (reads_reference .function)))
  runtime := layout.of_reads_at keyed h read 1 rfl (reads_required rfl reads_string)
  image := layout.of_reads_at keyed h read 2 rfl (reads_optional rfl reads_string)
  baseImage := layout.of_reads_at keyed h read 3 rfl (reads_optional rfl reads_string)
  codeDir := layout.of_reads_at keyed h read 4 rfl (reads_required rfl reads_string)
  handler := layout.of_reads_at keyed h read 5 rfl (reads_optional rfl reads_string)
  replicas := layout.of_reads_at keyed h read 6 rfl
    (reads_optional rfl (reads_nat (by decide) UInt32.toNat_ofNat_of_lt'))
  resource := layout.of_reads_at keyed h read 7 rfl
    (reads_optional rfl (reads_object fun _ _ _ ↦ Resource.holds))
  role := layout.of_reads_at keyed h read 8 rfl (reads_optional rfl reads_string)

theorem Deployment.holds {deployment : Deployment} (keyed : raw.WellKeyed)
    (h : Schema.deployment.Completes raw found)
    (read : ofMembers? (Value.toMembers found) = some deployment) : deployment.Holds raw where
  runtimeClass := layout.of_reads_at keyed h read 0 rfl (reads_optional rfl reads_string)
  startMode := layout.of_reads_at keyed h read 1 rfl (reads_optional rfl reads_string)

theorem RedisLocation.holds {location : RedisLocation} (keyed : raw.WellKeyed)
    (h : Schema.redisLocation.Completes raw found)
    (read : ofMembers? (Value.toMembers found) = some location) : location.Holds raw where
  host := layout.of_reads_at keyed h read 0 rfl (reads_optional rfl reads_string)
  port := layout.of_reads_at keyed h read 1 rfl
    (reads_optional rfl (reads_nat (by decide) UInt16.toNat_ofNat_of_lt'))

/-- A provider holds its shared settings, and all others as their normal forms in the order in which
they were given. -/
theorem Provider.holds {provider : Provider} (keyed : raw.WellKeyed)
    (h : Schema.provider.Completes raw found)
    (read : ofMembers? (Value.toMembers found) = some provider) : provider.Holds raw where
  kind := layout.of_reads_at keyed h read 0 rfl (reads_required rfl reads_string)
  bucket := layout.of_reads_at keyed h read 1 rfl (reads_optional rfl reads_string)
  region := layout.of_reads_at keyed h read 2 rfl (reads_optional rfl reads_string)
  deployment := layout.of_reads_at keyed h read 3 rfl
    (reads_optional rfl (reads_object fun _ _ _ ↦ Deployment.holds))
  invoke := layout.of_reads_at keyed h read 4 rfl (reads_optional rfl reads_map_string)
  registry := layout.of_reads_at keyed h read 5 rfl (reads_optional rfl reads_string)
  redis := layout.of_reads_at keyed h read 6 rfl
    (reads_optional rfl (reads_object fun _ _ _ ↦ RedisLocation.holds))
  extra := layout.extra_eq_normalize keyed h read

theorem InputExample.holds {sample : InputExample} (keyed : raw.WellKeyed)
    (h : Schema.inputExample.Completes raw found)
    (read : ofMembers? (Value.toMembers found) = some sample) : sample.Holds raw where
  value := layout.of_reads_at keyed h read 0 rfl (reads_optional_bind readOptional_kept)

/-- An application holds its references, and its samples and options as their normal forms. -/
theorem Application.holds {app : Application} (keyed : raw.WellKeyed)
    (h : Schema.application.Completes raw found)
    (read : ofMembers? (Value.toMembers found) = some app) : app.Holds raw where
  name := layout.of_reads_at keyed h read 0 rfl (reads_optional rfl reads_string)
  defaultProvider := layout.of_reads_at keyed h read 1 rfl
    (reads_required rfl (reads_reference .provider))
  providers := layout.of_reads_at keyed h read 2 rfl
    (reads_listOrEmpty rfl (reads_reference .provider))
  functions := layout.of_reads_at keyed h read 3 rfl
    (reads_listOrEmpty rfl (reads_reference .function))
  workflow := layout.of_reads_at keyed h read 4 rfl
    (reads_optional rfl (reads_reference .workflow))
  inputExamples := layout.of_reads_at keyed h read 5 rfl
    (reads_listOrEmpty rfl (reads_object fun _ _ _ ↦ InputExample.holds))
  options := layout.of_reads_at keyed h read 6 rfl (reads_optional rfl reads_map_any)

theorem Event.holds {event : Event} (keyed : raw.WellKeyed)
    (h : Schema.event.Completes raw found)
    (read : ofMembers? (Value.toMembers found) = some event) : event.Holds raw where
  eventType := layout.of_reads_at keyed h read 0 rfl (reads_required rfl reads_string)
  data := layout.of_reads_at keyed h read 1 rfl (reads_required rfl reads_structType)

/-- A secret holds its name and its value as they were given. -/
theorem Secret.holds {secret : Secret} (keyed : raw.WellKeyed)
    (h : Schema.secret.Completes raw found)
    (read : ofMembers? (Value.toMembers found) = some secret) : secret.Holds raw where
  name := layout.of_reads_at keyed h read 0 rfl (reads_required rfl reads_string)
  value := layout.of_reads_at keyed h read 1 rfl (reads_required rfl reads_string)

end

/-- **An entity holds the fields that it was read from**, for every kind. The relation is the sum of
those above, each of them stated on the raw fields. -/
theorem Entity.holds_of_parseFields {kind : Kind} {raw : Fields} {path : Path}
    {entity : Entity kind} (keyed : raw.WellKeyed)
    (h : parseFields kind raw path = .ok entity) : Entity.Holds kind raw entity := by
  obtain ⟨valid, hvalid, hread⟩ := parseFields_eq_ok_iff.1 h
  have hcompletes : kind.schema.Completes raw valid := ⟨path, hvalid⟩
  cases kind with
  | application => exact Application.holds keyed hcompletes hread
  | function => exact Function.holds keyed hcompletes hread
  | workflow => exact Workflow.holds keyed hcompletes hread
  | provider => exact Provider.holds keyed hcompletes hread
  | event => exact Event.holds keyed hcompletes hread
  | secret => exact Secret.holds keyed hcompletes hread
  | trigger => exact Trigger.holds keyed hcompletes hread

end AppManifest
