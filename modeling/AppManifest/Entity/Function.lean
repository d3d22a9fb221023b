import AppManifest.Entity.Reference
import AppManifest.Json.Members
/-!
# Functions, workflows and triggers

A function is a unit of code with a runtime; a workflow orchestrates functions. Both may state the
resources that they need and the number of their copies. A function lists the triggers that start
it and the events that it subscribes to.
-/

namespace AppManifest

/-- How a function is started. Triggers may also be blocks of their own. -/
structure Trigger where
  name : String
  kind : String
  deriving DecidableEq, Repr

/-- The resources that a function or a workflow asks for: a number of cores, and a number of
megabytes. -/
structure Resource where
  cpu : Option Binary64
  memory : Option UInt64
  deriving DecidableEq

/-- The events that a function subscribes to. -/
structure PubSub where
  events : List (Reference .event)
  deriving DecidableEq

/-- A unit of code that can be deployed. -/
structure Function where
  runtime : String
  image : Option String
  baseImage : Option String
  codeDir : String
  handler : Option String
  replicas : Option UInt32
  resource : Option Resource
  triggers : List Trigger
  pubsub : Option PubSub
  role : Option String

/-- Functions that are orchestrated and deployed as one. -/
structure Workflow where
  functions : List (Reference .function)
  runtime : String
  image : Option String
  baseImage : Option String
  codeDir : String
  handler : Option String
  replicas : Option UInt32
  resource : Option Resource
  role : Option String

/-- Equality of optional values, given the equality of values. -/
def sameOption {α : Type} (same : α → α → Bool) : Option α → Option α → Bool
  | none, none => true
  | some a, some b => same a b
  | _, _ => false

namespace Trigger

/-- The JSON members of a trigger. -/
def toMembers (trigger : Trigger) : Json.Members :=
  [("name", .string trigger.name), ("kind", .string trigger.kind)]

/-- The trigger that members stand for. -/
def ofMembers? (members : Json.Members) : Option Trigger := do
  let name ← members.required "name" Json.string?
  let kind ← members.required "kind" Json.string?
  some ⟨name, kind⟩

/-- How a trigger is shown. -/
def shown (trigger : Trigger) : String :=
  "Trigger \x7b name: " ++ Text.quoted trigger.name ++ ", kind: " ++ Text.quoted trigger.kind ++
    " \x7d"

end Trigger

namespace Resource

/-- The JSON form of a number of cores; a number that is not finite has none. -/
def cpuJson (cpu : Binary64) : Json := if cpu.isFinite then .float cpu else .null

/-- The JSON members of resources. -/
def toMembers (resource : Resource) : Json.Members :=
  Json.Members.given "cpu" cpuJson resource.cpu ++
    Json.Members.given "memory" (fun n ↦ .int n.toNat) resource.memory

/-- The resources that members stand for. -/
def ofMembers? (members : Json.Members) : Option Resource := do
  let cpu ← members.optional "cpu" Json.number?
  let memory ← members.optional "memory" fun value ↦
    (value.natBelow? UInt64.size).map UInt64.ofNat
  some ⟨cpu, memory⟩

/-- Equality of resources. -/
def same (a b : Resource) : Bool :=
  sameOption Binary64.same a.cpu b.cpu && a.memory == b.memory

end Resource

/-- Read a number of copies. -/
def replicas? (value : Json) : Option UInt32 := (value.natBelow? UInt32.size).map UInt32.ofNat

namespace PubSub

/-- The JSON members of subscriptions. -/
def toMembers (pubsub : PubSub) : Json.Members :=
  [("events", .array (pubsub.events.map Reference.toJson))]

/-- The subscriptions that members stand for. -/
def ofMembers? (members : Json.Members) : Option PubSub := do
  let events ← members.required "events" (Json.listOf? (Reference.ofJson? .event))
  some ⟨events⟩

end PubSub

namespace Function

/-- The events that a function subscribes to. -/
def events (function : Function) : List (Reference .event) :=
  match function.pubsub with
  | some pubsub => pubsub.events
  | none => []

/-- The first trigger with a name. -/
def trigger? (function : Function) (name : String) : Option Trigger :=
  function.triggers.find? (·.name == name)

/-- The JSON members of a function. -/
def toMembers (function : Function) : Json.Members :=
  [("runtime", .string function.runtime)] ++
  Json.Members.given "image" .string function.image ++
  Json.Members.given "baseImage" .string function.baseImage ++
  [("codeDir", .string function.codeDir)] ++
  Json.Members.given "handler" .string function.handler ++
  Json.Members.given "replicas" (fun n ↦ .int n.toNat) function.replicas ++
  Json.Members.given "resource" (fun r ↦ .object r.toMembers) function.resource ++
  [("triggers", .array (function.triggers.map fun t ↦ .object t.toMembers))] ++
  Json.Members.given "pubsub" (fun p ↦ .object p.toMembers) function.pubsub ++
  Json.Members.given "role" .string function.role

/-- The function that members stand for. -/
def ofMembers? (members : Json.Members) : Option Function := do
  let runtime ← members.required "runtime" Json.string?
  let image ← members.optional "image" Json.string?
  let baseImage ← members.optional "baseImage" Json.string?
  let codeDir ← members.withDefault "codeDir" "" Json.string?
  let handler ← members.optional "handler" Json.string?
  let replicas ← members.optional "replicas" replicas?
  let resource ← members.optional "resource" fun value ↦ value.members? >>= Resource.ofMembers?
  let triggers ← members.withDefault "triggers" []
    (Json.listOf? fun value ↦ value.members? >>= Trigger.ofMembers?)
  let pubsub ← members.optional "pubsub" fun value ↦ value.members? >>= PubSub.ofMembers?
  let role ← members.optional "role" Json.string?
  some ⟨runtime, image, baseImage, codeDir, handler, replicas, resource, triggers, pubsub, role⟩

/-- Equality of functions. -/
def same (a b : Function) : Bool :=
  a.runtime == b.runtime && a.image == b.image && a.baseImage == b.baseImage &&
  a.codeDir == b.codeDir && a.handler == b.handler && a.replicas == b.replicas &&
  sameOption Resource.same a.resource b.resource && a.triggers == b.triggers &&
  a.pubsub == b.pubsub && a.role == b.role

end Function

namespace Workflow

/-- The JSON members of a workflow. -/
def toMembers (workflow : Workflow) : Json.Members :=
  [("functions", .array (workflow.functions.map Reference.toJson)),
    ("runtime", .string workflow.runtime)] ++
  Json.Members.given "image" .string workflow.image ++
  Json.Members.given "baseImage" .string workflow.baseImage ++
  [("codeDir", .string workflow.codeDir)] ++
  Json.Members.given "handler" .string workflow.handler ++
  Json.Members.given "replicas" (fun n ↦ .int n.toNat) workflow.replicas ++
  Json.Members.given "resource" (fun r ↦ .object r.toMembers) workflow.resource ++
  Json.Members.given "role" .string workflow.role

/-- The workflow that members stand for. -/
def ofMembers? (members : Json.Members) : Option Workflow := do
  let functions ← members.required "functions" (Json.listOf? (Reference.ofJson? .function))
  let runtime ← members.required "runtime" Json.string?
  let image ← members.optional "image" Json.string?
  let baseImage ← members.optional "baseImage" Json.string?
  let codeDir ← members.required "codeDir" Json.string?
  let handler ← members.optional "handler" Json.string?
  let replicas ← members.optional "replicas" replicas?
  let resource ← members.optional "resource" fun value ↦ value.members? >>= Resource.ofMembers?
  let role ← members.optional "role" Json.string?
  some ⟨functions, runtime, image, baseImage, codeDir, handler, replicas, resource, role⟩

/-- Equality of workflows. -/
def same (a b : Workflow) : Bool :=
  a.functions == b.functions && a.runtime == b.runtime && a.image == b.image &&
  a.baseImage == b.baseImage && a.codeDir == b.codeDir && a.handler == b.handler &&
  a.replicas == b.replicas && sameOption Resource.same a.resource b.resource && a.role == b.role

end Workflow

end AppManifest
