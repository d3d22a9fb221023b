import AppManifest.Proofs.Entity.Decoding
/-!
# Entities are written in canonical form

For every kind, an entity that was read from validated fields is written back as the canonical form
of these fields (`Entity.writes_canonical_form`). Nothing else happens to them on the way through
the record: no field is renamed, moved, dropped or coerced that the canonical form keeps.

This is `Layout.fieldsOf_eq_canonicalFields` for the layout of each kind. It is about all entities,
also those whose written form is not valid again; there the canonical form of an object with
arbitrary keys is a reference.
-/

namespace AppManifest.Entity

variable {kind : Kind} {raw valid : Fields} {path : Path} {entity : Entity kind}

theorem toFields_eq_canonicalFields (keyed : raw.WellKeyed) (h : kind.schema.Completes raw valid)
    (read : ofFields? kind valid = some entity) :
    toFields entity = Shape.canonicalFields kind.schema valid := by
  cases kind with
  | application =>
    exact Application.layout.fieldsOf_eq_canonicalFields keyed h read Application.canonizes_slots
  | function =>
    exact Function.layout.fieldsOf_eq_canonicalFields keyed h read Function.canonizes_slots
  | workflow =>
    exact Workflow.layout.fieldsOf_eq_canonicalFields keyed h read Workflow.canonizes_slots
  | provider =>
    exact Provider.layout.fieldsOf_eq_canonicalFields keyed h read Provider.canonizes_slots
  | event => exact Event.layout.fieldsOf_eq_canonicalFields keyed h read Event.canonizes_slots
  | secret => exact Secret.layout.fieldsOf_eq_canonicalFields keyed h read Secret.canonizes_slots
  | trigger => exact Trigger.layout.fieldsOf_eq_canonicalFields keyed h read Trigger.canonizes_slots

/-- **Parsing an entity and writing it back gives the canonical form of the validated fields**, key
by key and in their order, for every kind, all raw fields without repeated keys, and every path. -/
theorem writes_canonical_form (keyed : raw.WellKeyed)
    (h : kind.schema.check raw path = .ok valid) :
    ∃ entity, parseFields kind raw path = .ok entity ∧
      toFields entity = Shape.canonicalFields kind.schema valid := by
  obtain ⟨entity, hread⟩ := Option.isSome_iff_exists.1 (isSome_ofFields? h)
  have hparse : parseFields kind raw path = .ok entity :=
    parseFields_eq_ok_iff.2 ⟨valid, h, hread⟩
  exact ⟨entity, hparse, toFields_eq_canonicalFields keyed ⟨path, h⟩ hread⟩

/-- References get their kind as a hint, a sample that looks like a reference becomes one, a sample
that is written as `null` is left out, and a setting that is no number is `null`. -/
theorem application_is_written_canonically :
    let raw : Fields :=
      [("inputExamples", .list [.object [("value", .object [("$ref", .string "a")])],
          .object [("value", .float (.infinity false))]]),
        ("options", .object [("rate", .float .nan)]),
        ("defaultProvider", .reference ⟨"p", none⟩)]
    ∃ entity, parseFields .application raw Path.root = .ok entity ∧
      toFields entity =
        [("defaultProvider", .reference ⟨"p", some "provider"⟩), ("providers", .list []),
          ("functions", .list []),
          ("inputExamples", .list [.object [("value", .reference ⟨"a", none⟩)], .object []]),
          ("options", .object [("rate", .null)])] := by
  intro raw
  have keyed : raw.WellKeyed := by
    simp [raw, Fields.WellKeyed, Value.DistinctKeys, Value.fieldsDistinct, Value.itemsDistinct]
  exact @writes_canonical_form .application raw _ Path.root keyed rfl

end AppManifest.Entity
