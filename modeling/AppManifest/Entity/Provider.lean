import AppManifest.Entity.Function
/-!
# Providers

A provider is a place to deploy to. Beyond the settings that all providers share it keeps the
settings of its own kind as they were written.
-/

namespace AppManifest

/-- How a provider deploys. -/
structure Deployment where
  runtimeClass : Option String
  startMode : Option String
  deriving DecidableEq, Repr

/-- Where a key-value store is found. -/
structure RedisLocation where
  host : Option String
  port : Option UInt16
  deriving DecidableEq, Repr

/-- A place to deploy to. -/
structure Provider where
  kind : String
  bucket : Option String
  region : Option String
  deployment : Option Deployment
  /-- Overrides for operations, by name. -/
  invoke : Option (Entries String)
  registry : Option String
  redis : Option RedisLocation
  /-- Settings beyond the shared ones, in their order. -/
  extra : Fields

namespace Deployment

/-- The JSON members of deployment settings. -/
def toMembers (deployment : Deployment) : Json.Members :=
  Json.Members.given "runtimeClass" .string deployment.runtimeClass ++
    Json.Members.given "startMode" .string deployment.startMode

/-- The deployment settings that members stand for. -/
def ofMembers? (members : Json.Members) : Option Deployment := do
  let runtimeClass ← members.optional "runtimeClass" Json.string?
  let startMode ← members.optional "startMode" Json.string?
  some ⟨runtimeClass, startMode⟩

end Deployment

namespace RedisLocation

/-- The JSON members of a location. -/
def toMembers (location : RedisLocation) : Json.Members :=
  Json.Members.given "host" .string location.host ++
    Json.Members.given "port" (fun n ↦ .int n.toNat) location.port

/-- The location that members stand for. -/
def ofMembers? (members : Json.Members) : Option RedisLocation := do
  let host ← members.optional "host" Json.string?
  let port ← members.optional "port" fun value ↦ (value.natBelow? UInt16.size).map UInt16.ofNat
  some ⟨host, port⟩

end RedisLocation

namespace Provider

/-- The settings that all providers share. -/
def sharedKeys : List String :=
  ["kind", "bucket", "region", "deployment", "invoke", "registry", "redis"]

/-- A provider with a kind and no settings. -/
def bare (kind : String) : Provider := ⟨kind, none, none, none, none, none, none, []⟩

/-- A setting beyond the shared ones. -/
def extra? (provider : Provider) (key : String) : Option Value :=
  Entries.get? provider.extra key

/-- The override for an operation. -/
def invokeOverride? (provider : Provider) (operation : String) : Option String :=
  provider.invoke.bind fun overrides ↦ overrides.get? operation

/-- The JSON members of a provider. -/
def toMembers (provider : Provider) : Json.Members :=
  [("kind", .string provider.kind)] ++
  Json.Members.given "bucket" .string provider.bucket ++
  Json.Members.given "region" .string provider.region ++
  Json.Members.given "deployment" (fun d ↦ .object d.toMembers) provider.deployment ++
  Json.Members.given "invoke"
    (fun overrides ↦ .object (overrides.map fun entry ↦ (entry.1, Json.string entry.2)))
    provider.invoke ++
  Json.Members.given "registry" .string provider.registry ++
  Json.Members.given "redis" (fun r ↦ .object r.toMembers) provider.redis ++
  Value.toMembers provider.extra

/-- The provider that members stand for. -/
def ofMembers? (members : Json.Members) : Option Provider := do
  let kind ← members.required "kind" Json.string?
  let bucket ← members.optional "bucket" Json.string?
  let region ← members.optional "region" Json.string?
  let deployment ←
    members.optional "deployment" fun value ↦ value.members? >>= Deployment.ofMembers?
  let invoke ← members.optional "invoke" (Json.mapOf? Json.string?)
  let registry ← members.optional "registry" Json.string?
  let redis ← members.optional "redis" fun value ↦ value.members? >>= RedisLocation.ofMembers?
  let extra := Entries.ofList
    (Value.ofMembers (members.filter fun entry ↦ !sharedKeys.contains entry.1))
  some ⟨kind, bucket, region, deployment, invoke, registry, redis, extra⟩

/-- Equality of overrides; their order does not matter. -/
def sameOverrides (a b : Entries String) : Bool :=
  a.length == b.length && a.all fun entry ↦ b.get? entry.1 == some entry.2

/-- Equality of providers. -/
def same (a b : Provider) : Bool :=
  a.kind == b.kind && a.bucket == b.bucket && a.region == b.region &&
  a.deployment == b.deployment && sameOption sameOverrides a.invoke b.invoke &&
  a.registry == b.registry && a.redis == b.redis && Fields.same a.extra b.extra

end Provider

end AppManifest
