import AppManifest.Entity
import AppManifest.Proofs.Checked
import AppManifest.Proofs.Validation.Relocation
/-!
# Where violations are

Every error of a check names a place: the path at which the check was made, or one below it, since
the steps of the place stand behind the path (`Relocates`). So an error that says where it is tells
a target that is not valid from one that is not there: the errors of lookups have no path.
-/

namespace AppManifest

/-- The error is about the value at a path, or about a value within it. -/
def Error.Below (path : Path) (e : Error) : Prop :=
  ∃ place, e.path? = some place ∧ path.segments <+: place.segments

/-- **The error of a check that relocates is about the value at its path or a value within it.** No
check ever speaks of a value beside the one that it was given. -/
theorem Relocates.below {α : Type} {check : Path → Checked α} (h : Relocates check) {path : Path}
    {e : Error} (he : check path = .error e) : e.Below path := by
  rcases h with ⟨a, ha⟩ | ⟨steps, expected, actual, h⟩ | ⟨steps, field, h⟩
  · exact absurd (he.symm.trans (ha path)) (by simp)
  · obtain rfl := Except.error.inj (he.symm.trans (h path))
    exact ⟨path.extend steps, rfl, List.prefix_append ..⟩
  · obtain rfl := Except.error.inj (he.symm.trans (h path))
    exact ⟨path.extend steps, rfl, List.prefix_append ..⟩

/-- The error of reading an entity is about the given fields or a value within them. -/
theorem Entity.below_of_parseFields {kind : Kind} {raw : Fields} {path : Path} {e : Error}
    (h : parseFields kind raw path = .error e) : e.Below path := by
  rw [parseFields, Checked.bind_eq_error] at h
  rcases h with h | ⟨valid, -, h⟩
  · exact (Shape.relocates_checkSchema kind.schema raw).below h
  · split at h
    · exact absurd h (by simp)
    · exact Except.error.inj h ▸ ⟨path, rfl, List.prefix_rfl⟩

end AppManifest
