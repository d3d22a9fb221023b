import AppManifest.Lint
/-!
# A default provider that is not listed

An application that lists providers should list its default one. With no list the default provider
is the only candidate, which is fine.
-/

namespace AppManifest.Lint.DefaultProvider

/-- The name of the lint. -/
def name : String := "default-provider-listed"

/-- The finding, if there is one. -/
def check (app : Application) : List Diagnostic :=
  if app.providers.isEmpty ∨ app.defaultProvider ∈ app.providers then []
  else
    [⟨.warning, name,
      "default provider '" ++ app.defaultProvider.name ++ "' is not listed in providers",
      some "application.defaultProvider"⟩]

/-- The lint. -/
def lint : Lint :=
  ⟨name, "Check that the default provider appears in the provider list", fun _ app ↦ check app⟩

end AppManifest.Lint.DefaultProvider
