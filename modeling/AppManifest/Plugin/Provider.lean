import AppManifest.Entity.Application
import AppManifest.Plugin.Command
import AppManifest.Plugin.Failure
/-!
# Provider plugins

A provider plugin deploys, invokes and builds applications on one kind of provider. All that it
may do to the world goes through the host that its context gives it: read a file, write a file,
run a command. An operation that a plugin does not define is unsupported.
-/

namespace AppManifest

/-- What is done to a host in the state `σ`. What was done before a failure stays done. -/
abbrev HostAction (σ : Type) := ExceptT PluginFailure (StateM σ)

/-- What a host does for plugins. -/
structure PluginHost (σ : Type) where
  read : (path : String) → HostAction σ String
  write : (path content : String) → HostAction σ Unit
  run : Command → HostAction σ CommandOutput

/-- The surroundings of a provider plugin. -/
structure ProviderContext (σ : Type) where
  /-- The directory of the project. -/
  directory : String
  host : PluginHost σ
  /-- The plugin that messages are logged for. -/
  logger : String
  environment : Environment

/-- What is to be deployed, and where. -/
structure DeployRequest where
  app : Application
  provider : Provider

/-- The function that is to be invoked, its input, and where. -/
structure InvokeRequest where
  app : Application
  function : String
  input : Value
  provider : Provider

/-- What is to be built. -/
structure BuildRequest where
  app : Application
  provider : Provider
  /-- The registry that was asked for. -/
  registry : Option String

/-- A plugin for one kind of provider. -/
structure ProviderPlugin (σ : Type) where
  name : String
  deploy : DeployRequest → ProviderContext σ → HostAction σ Unit :=
    fun _ _ ↦ throw (.unsupported name .deploy)
  invoke : InvokeRequest → ProviderContext σ → HostAction σ Unit :=
    fun _ _ ↦ throw (.unsupported name .invoke)
  build : BuildRequest → ProviderContext σ → HostAction σ Unit :=
    fun _ _ ↦ throw (.unsupported name .build)

variable {σ : Type}

/-- How a context is shown: of the environment only its size. -/
def ProviderContext.shown (context : ProviderContext σ) : String :=
  "ProviderContext \x7b cwd: " ++ Text.quoted context.directory ++
    ", logger: PluginLogger \x7b plugin: " ++ Text.quoted context.logger ++
    " \x7d, env: " ++ toString context.environment.size ++ ", .. \x7d"

/-- The registry to build for: the one that was asked for, or else that of the provider. -/
def BuildRequest.registry? (request : BuildRequest) : Option String :=
  request.registry.or request.provider.registry

end AppManifest
