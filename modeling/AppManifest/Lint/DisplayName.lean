import AppManifest.Lint
/-!
# Applications without a display name

An optional lint for projects in which every application should have a name to display.
-/

namespace AppManifest.Lint.DisplayName

/-- The name of the lint. -/
def name : String := "application-named"

/-- The lint. -/
def lint : Lint :=
  ⟨name, "Require a display name", fun _ app ↦
    if app.name.isNone then [⟨.info, name, "application has no name", none⟩] else []⟩

end AppManifest.Lint.DisplayName
