import AppManifest.Plugin.Generator
import AppManifest.Plugin.Provider
/-!
# Sets of plugins

The plugins that a host knows, generators apart from providers, each under its name. A plugin that
is registered under a name already in use takes the place of the earlier one.
-/

namespace AppManifest

/-- The plugins that a host knows. -/
structure PluginSet (σ : Type) where
  generators : Entries GeneratorPlugin
  providers : Entries (ProviderPlugin σ)

namespace PluginSet

variable {σ : Type}

/-- The set without plugins. -/
def empty : PluginSet σ := ⟨[], []⟩

/-- Register a generator. -/
def withGenerator (plugins : PluginSet σ) (plugin : GeneratorPlugin) : PluginSet σ :=
  { plugins with generators := plugins.generators.insert plugin.name plugin }

/-- Register a provider plugin. -/
def withProvider (plugins : PluginSet σ) (plugin : ProviderPlugin σ) : PluginSet σ :=
  { plugins with providers := plugins.providers.insert plugin.name plugin }

/-- The generator with a name. -/
def generator? (plugins : PluginSet σ) (name : String) : Option GeneratorPlugin :=
  plugins.generators.get? name

/-- The provider plugin with a name. -/
def provider? (plugins : PluginSet σ) (name : String) : Option (ProviderPlugin σ) :=
  plugins.providers.get? name

/-- The generator with a name, or the failure that there is none. -/
def generator (plugins : PluginSet σ) (name : String) : Except PluginFailure GeneratorPlugin :=
  match plugins.generator? name with
  | some plugin => .ok plugin
  | none => .error (.notFound .generator name)

/-- The plugin for a kind of provider. -/
def providerForKind (plugins : PluginSet σ) (kind : String) :
    Except PluginFailure (ProviderPlugin σ) :=
  match plugins.provider? kind with
  | some plugin => .ok plugin
  | none => .error (.notFound .provider kind)

/-- The plugin for a provider, which is the one named as its kind. -/
def providerFor (plugins : PluginSet σ) (provider : Provider) :
    Except PluginFailure (ProviderPlugin σ) :=
  plugins.providerForKind provider.kind

/-- The names of the generators, in the order of their first registration. -/
def generatorNames (plugins : PluginSet σ) : List String := plugins.generators.keys

/-- The names of the provider plugins, in the order of their first registration. -/
def providerNames (plugins : PluginSet σ) : List String := plugins.providers.keys

/-- How a list of names is shown. -/
def shownNames (names : List String) : String :=
  "[" ++ ", ".intercalate (names.map Text.quoted) ++ "]"

/-- How a set of plugins is shown. -/
def shown (plugins : PluginSet σ) : String :=
  "PluginSet \x7b generators: " ++ shownNames plugins.generatorNames ++
    ", providers: " ++ shownNames plugins.providerNames ++ " \x7d"

end PluginSet

end AppManifest
