import AppManifest.Plugin.Standard
import AppManifest.Proofs.Entries
/-!
# What a set of plugins remembers

A set of plugins is built by registering generators and provider plugins, in any order.
`PluginSet.ofHistory` is the set after a whole history of registrations. One registration writes one
entry, into the half of the set that is for its sort of plugin. So each half holds what the
registrations of its sort wrote one after the other (`PluginSet.part_ofHistory`), and those of the
other sort leave no trace in it.

`Remembers` says what is seen of such a half from outside: each name once, in the order of the first
registrations, and under each name the plugin that was registered last.
-/

namespace AppManifest

variable {α σ : Type}

/-- A plugin that is registered. -/
inductive Registration (σ : Type) where
  | generator (plugin : GeneratorPlugin)
  | provider (plugin : ProviderPlugin σ)

namespace Registration

/-- The plugin, if it is a generator. -/
def generator? : Registration σ → Option GeneratorPlugin
  | .generator plugin => some plugin
  | .provider _ => none

/-- The plugin, if it is a provider plugin. -/
def provider? : Registration σ → Option (ProviderPlugin σ)
  | .generator _ => none
  | .provider plugin => some plugin

end Registration

/-- The names that are listed, and what is found under them, show what was registered: each name is
listed once, in the order of the first registrations, and under it is found what was registered
last. Nothing is found under any other name. -/
structure Remembers (name : α → String) (registered : List α) (names : List String)
    (find? : String → Option α) : Prop where
  names : FirstOccurrences (registered.map name) names
  found : ∀ key plugin, find? key = some plugin ↔ IsLast (name · = key) registered plugin
  missing : ∀ key, find? key = none ↔ ∀ plugin ∈ registered, name plugin ≠ key

/-- **Entries that were written one after the other remember them.** One name is registered at a
time, and all others are left as they are. -/
theorem remembers_ofList (name : α → String) (registered : List α) :
    Remembers name registered
      (Entries.ofList (registered.map fun plugin ↦ (name plugin, plugin))).keys
      (Entries.ofList (registered.map fun plugin ↦ (name plugin, plugin))).get? := by
  have hkeys : Entries.keys (registered.map fun plugin ↦ (name plugin, plugin)) =
      registered.map name := by
    rw [Entries.keys, List.map_map]
    rfl
  refine ⟨?_, fun key plugin ↦ ?_, fun key ↦ ?_⟩
  · rw [Entries.keys_ofList, hkeys]
    exact firstOccurrences_eraseDups _
  · rw [Entries.get?_ofList_iff_isLast, isLast_map_iff]
    constructor
    · rintro ⟨last, heq, hlast⟩
      obtain ⟨-, rfl⟩ := Prod.mk.inj heq
      exact hlast
    · exact fun hlast ↦ ⟨plugin, congrArg (·, plugin) hlast.holds, hlast⟩
  · rw [Entries.get?_ofList_eq_none_iff, hkeys]
    simp only [List.mem_map, not_exists, not_and, ne_eq]

namespace PluginSet

/-- The set with one more registration. -/
def register (plugins : PluginSet σ) : Registration σ → PluginSet σ
  | .generator plugin => plugins.withGenerator plugin
  | .provider plugin => plugins.withProvider plugin

/-- The set after registrations in the given order. -/
def ofHistory (history : List (Registration σ)) : PluginSet σ := history.foldl register empty

variable (history : List (Registration σ))

theorem ofHistory_concat (next : Registration σ) :
    ofHistory (history ++ [next]) = (ofHistory history).register next :=
  List.foldl_concat ..

/-- **A part of a set that each registration leaves alone or writes its plugin into** holds what was
written one after the other. -/
theorem part_ofHistory {part : PluginSet σ → Entries α} {plugin? : Registration σ → Option α}
    {name : α → String} (start : part empty = [])
    (step : ∀ plugins next, part (register plugins next) = match plugin? next with
      | some plugin => (part plugins).insert (name plugin) plugin
      | none => part plugins) :
    part (ofHistory history) =
      Entries.ofList ((history.filterMap plugin?).map fun plugin ↦ (name plugin, plugin)) := by
  induction history using List.reverseRecOn with
  | nil => exact start
  | append_singleton history next ih =>
    rw [ofHistory_concat, step, ih, List.filterMap_append, List.map_append]
    cases hnext : plugin? next with
    | none => simp [hnext]
    | some plugin => simp [hnext, Entries.ofList_concat]

theorem generators_ofHistory :
    (ofHistory history).generators = Entries.ofList
      ((history.filterMap Registration.generator?).map fun plugin ↦ (plugin.name, plugin)) :=
  part_ofHistory history rfl fun plugins next ↦ by cases next <;> rfl

theorem providers_ofHistory :
    (ofHistory history).providers = Entries.ofList
      ((history.filterMap Registration.provider?).map fun plugin ↦ (plugin.name, plugin)) :=
  part_ofHistory history rfl fun plugins next ↦ by cases next <;> rfl

theorem providerFor_eq_ok_iff {plugins : PluginSet σ} {provider : Provider}
    {plugin : ProviderPlugin σ} :
    plugins.providerFor provider = .ok plugin ↔ plugins.provider? provider.kind = some plugin := by
  rw [providerFor, providerForKind]
  split
  · next h => rw [h, Except.ok.injEq, Option.some.injEq]
  · next h => simp [h]

theorem providerFor_eq_error_iff {plugins : PluginSet σ} {provider : Provider}
    {failure : PluginFailure} :
    plugins.providerFor provider = .error failure ↔
      failure = .notFound .provider provider.kind ∧ plugins.provider? provider.kind = none := by
  rw [providerFor, providerForKind]
  split
  · next h => simp [h]
  · next h => rw [h, and_iff_left rfl, Except.error.injEq, eq_comm]

/-- **A set of plugins remembers its history.** Of the generators, and likewise of the provider
plugins, each name is listed once in the order of the first registrations, and the plugin with a
name is the one that was registered last under it; registrations of the other sort do not matter,
whatever their names. The plugin for a provider is the provider plugin that was registered last
under the kind of the provider, and if there is none, the failure names that kind. -/
theorem reflects_history :
    Remembers GeneratorPlugin.name (history.filterMap Registration.generator?)
        (ofHistory history).generatorNames (ofHistory history).generator? ∧
      Remembers ProviderPlugin.name (history.filterMap Registration.provider?)
        (ofHistory history).providerNames (ofHistory history).provider? ∧
      ∀ provider : Provider,
        (∀ plugin, (ofHistory history).providerFor provider = .ok plugin ↔
          IsLast (·.name = provider.kind) (history.filterMap Registration.provider?) plugin) ∧
        ∀ failure, (ofHistory history).providerFor provider = .error failure ↔
          failure = .notFound .provider provider.kind ∧
            ∀ plugin ∈ history.filterMap Registration.provider?, plugin.name ≠ provider.kind := by
  have generators := remembers_ofList GeneratorPlugin.name
    (history.filterMap Registration.generator?)
  have providers := remembers_ofList ProviderPlugin.name
    (history.filterMap Registration.provider?)
  rw [← generators_ofHistory] at generators
  rw [← providers_ofHistory] at providers
  refine ⟨generators, providers, fun provider ↦ ⟨fun plugin ↦ ?_, fun failure ↦ ?_⟩⟩
  · rw [providerFor_eq_ok_iff]
    exact providers.found provider.kind plugin
  · rw [providerFor_eq_error_iff]
    exact and_congr_right fun _ ↦ providers.missing provider.kind

/-- A generator between two provider plugins of its name: the second replaces the first. -/
example : (ofHistory [.provider (.bare "oss"), .provider (.bare "aws"), .generator (.bare "oss"),
    .provider (.image "oss")] : PluginSet Unit).providerNames = ["oss", "aws"] := by
  decide

end PluginSet

end AppManifest
