/-!
# Failures of plugins

Why something that was asked of a plugin was not done.
-/

namespace AppManifest

/-- What a plugin may be asked to do. -/
inductive Operation where
  | generate
  | deploy
  | invoke
  | build
  deriving DecidableEq, Repr

/-- The word for an operation. -/
def Operation.name : Operation → String
  | .generate => "generate"
  | .deploy => "deploy"
  | .invoke => "invoke"
  | .build => "build"

/-- The two sorts of plugin. -/
inductive PluginRole where
  | generator
  | provider
  deriving DecidableEq, Repr

/-- The word for a sort of plugin. -/
def PluginRole.name : PluginRole → String
  | .generator => "generator"
  | .provider => "provider"

/-- Why something was not done. -/
inductive PluginFailure where
  /-- The plugin has no such operation. -/
  | unsupported (plugin : String) (operation : Operation)
  /-- No plugin of the sort is registered under the name. -/
  | notFound (role : PluginRole) (name : String)
  /-- The plugin, or the host on its behalf, gave up. -/
  | failed (message : String)
  deriving DecidableEq, Repr

namespace PluginFailure

/-- The wording of a failure. -/
def message : PluginFailure → String
  | .unsupported plugin operation =>
    "plugin '" ++ plugin ++ "' does not support " ++ operation.name
  | .notFound role name => "no " ++ role.name ++ " plugin registered for '" ++ name ++ "'"
  | .failed message => message

/-- Whether the plugin has no such operation. -/
def isUnsupported : PluginFailure → Bool
  | .unsupported .. => true
  | _ => false

end PluginFailure

end AppManifest
