import AppManifest.Lint.DanglingReference
import AppManifest.Lint.DuplicateBlock
import AppManifest.Lint.DefaultProvider
import AppManifest.Lint.EmptyWorkflow
import AppManifest.Lint.DisplayName
/-!
# The lints that there are

The standard lints run unless others are asked for by name.
-/

namespace AppManifest.Lint

/-- The lints of an ordinary check, in order. -/
def standard : List Lint :=
  [DanglingReference.lint, DuplicateBlock.lint, DefaultProvider.lint, EmptyWorkflow.lint]

/-- Every lint. -/
def all : List Lint := standard ++ [DisplayName.lint]

/-- The lints with the given names, in that order. -/
def named (names : List String) : List Lint :=
  names.filterMap fun name ↦ all.find? (·.name == name)

end AppManifest.Lint
