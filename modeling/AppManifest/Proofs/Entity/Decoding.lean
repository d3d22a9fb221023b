import AppManifest.Entity
import AppManifest.Proofs.Entity.Application
import AppManifest.Proofs.Entity.Event
import AppManifest.Proofs.Entity.Function
import AppManifest.Proofs.Entity.Provider
/-!
# Validation and decoding agree

For every kind, what the schema accepts can be read as an entity (`Entity.isSome_ofFields?`): this
is the layout of the kind, applied to the facts on its slots. So validating is all there is to fail,
and the message that is there for fields of another form is never given
(`Entity.parseFields_eq_ok_iff`).

No assumption is made on the raw fields. They may hold numbers that are not finite, objects that
look like references, and even repeated keys.
-/

namespace AppManifest.Entity

variable {kind : Kind} {raw valid : Fields} {path : Path}

/-- **What the schema of a kind accepts can be read as an entity.** There is one layout for each
kind, and its slots read what the fields of the schema contribute. -/
theorem isSome_ofFields? (h : kind.schema.check raw path = .ok valid) :
    (ofFields? kind valid).isSome := by
  have hcompletes : kind.schema.Completes raw valid := ⟨path, h⟩
  cases kind with
  | application => exact Application.layout.isSome_of_completes Application.decodes_slots hcompletes
  | function => exact Function.layout.isSome_of_completes Function.decodes_slots hcompletes
  | workflow => exact Workflow.layout.isSome_of_completes Workflow.decodes_slots hcompletes
  | provider => exact Provider.layout.isSome_of_completes Provider.decodes_slots hcompletes
  | event => exact Event.layout.isSome_of_completes Event.decodes_slots hcompletes
  | secret => exact Secret.layout.isSome_of_completes Secret.decodes_slots hcompletes
  | trigger => exact Trigger.layout.isSome_of_completes Trigger.decodes_slots hcompletes

theorem parseFields_eq_error {e : Error} (h : kind.schema.check raw path = .error e) :
    parseFields kind raw path = .error e := by
  rw [parseFields, h]
  rfl

/-- An entity is what is read from the checked fields, and nothing else can go wrong. -/
theorem parseFields_eq_ok_iff {entity : Entity kind} :
    parseFields kind raw path = .ok entity ↔
      ∃ valid, kind.schema.check raw path = .ok valid ∧ ofFields? kind valid = some entity := by
  rw [parseFields, Checked.bind_eq_ok]
  refine exists_congr fun valid ↦ and_congr_right fun h ↦ ?_
  obtain ⟨read, hread⟩ := Option.isSome_iff_exists.1 (isSome_ofFields? h)
  simp [hread]

/-- An entity is parsed exactly if the schema accepts the fields. -/
theorem exists_parseFields_iff :
    (∃ entity, parseFields kind raw path = .ok entity) ↔
      ∃ valid, kind.schema.check raw path = .ok valid := by
  constructor
  · rintro ⟨entity, h⟩
    obtain ⟨valid, hvalid, -⟩ := parseFields_eq_ok_iff.1 h
    exact ⟨valid, hvalid⟩
  · rintro ⟨valid, h⟩
    obtain ⟨entity, hentity⟩ := Option.isSome_iff_exists.1 (isSome_ofFields? h)
    exact ⟨entity, parseFields_eq_ok_iff.2 ⟨valid, h, hentity⟩⟩

/-- What fails is the check, with its own error. -/
theorem failure?_parseFields (kind : Kind) (raw : Fields) (path : Path) :
    (parseFields kind raw path).failure? = (kind.schema.check raw path).failure? := by
  rcases h : kind.schema.check raw path with e | valid
  · rw [parseFields_eq_error h]
    rfl
  · obtain ⟨entity, hentity⟩ := Option.isSome_iff_exists.1 (isSome_ofFields? h)
    rw [parseFields_eq_ok_iff.2 ⟨valid, h, hentity⟩]
    rfl

/-- **Validation and decoding never drift apart.** For every kind, all raw fields and every path,
an entity is parsed exactly if the schema accepts the fields; the error of the check is the error of
the parse; and decoding what was accepted never fails. -/
theorem parseFields_agrees_with_check (kind : Kind) (raw : Fields) (path : Path) :
    ((∃ entity, parseFields kind raw path = .ok entity) ↔
        ∃ valid, kind.schema.check raw path = .ok valid) ∧
      (∀ e, kind.schema.check raw path = .error e → parseFields kind raw path = .error e) ∧
      ∀ valid, kind.schema.check raw path = .ok valid →
        ∃ entity, ofFields? kind valid = some entity ∧
          parseFields kind raw path = .ok entity := by
  have hdecoded : ∀ valid, kind.schema.check raw path = .ok valid →
      ∃ entity, ofFields? kind valid = some entity ∧ parseFields kind raw path = .ok entity := by
    intro valid h
    obtain ⟨entity, hentity⟩ := Option.isSome_iff_exists.1 (isSome_ofFields? h)
    exact ⟨entity, hentity, parseFields_eq_ok_iff.2 ⟨valid, h, hentity⟩⟩
  exact ⟨exists_parseFields_iff, fun e ↦ parseFields_eq_error, hdecoded⟩

end AppManifest.Entity
