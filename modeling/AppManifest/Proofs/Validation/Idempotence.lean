import AppManifest.Proofs.Validation.Grammar
/-!
# Checking again changes nothing

What a check gives is accepted again as it stands, wherever the check is made
(`Schema.check_idempotent`). This holds for every schema that declares no name twice and whose
defaults are sound, at every level of it. A default is sound if it is `null` or passes the check of
its own shape unchanged: defaults are filled in without a check, and only a second check meets them
as given values.

A checked field bag is put together from the checks of its fields (`Field.checkField_again`), in the
order of the schema, and from undeclared entries, of which the first check has left one for each key
(`Schema.accepts_again`). The shapes inside are taken care of by induction.
-/

namespace AppManifest

/-- A default is sound for a shape if it is `null` or the check of the shape leaves it as it is. -/
def Presence.SoundFor (shape : Shape) : Presence → Prop
  | .default value => value = .null ∨ shape.Completes value value
  | .required | .optional => True

namespace Shape

variable {shape : Shape} {value found : Value}

mutual

/-- Every default within a shape is sound for the shape of its field. -/
def SoundDefaults : Shape → Prop
  | .object schema => schemaSoundDefaults schema
  | .list inner | .map inner => inner.SoundDefaults
  | _ => True

/-- Every default of a schema is sound, here and in the shapes of its fields. -/
def schemaSoundDefaults : SchemaOf Shape → Prop
  | ⟨fields, _⟩ => fieldsSoundDefaults fields

/-- Every default of some fields is sound, here and in their shapes. -/
def fieldsSoundDefaults : List (FieldOf Shape) → Prop
  | [] => True
  | ⟨_, shape, presence⟩ :: rest =>
    presence.SoundFor shape ∧ shape.SoundDefaults ∧ fieldsSoundDefaults rest

end

/-- A shape that changes no value accepts again what it has accepted: where in a document a value
stands does not decide whether it conforms. -/
theorem accepts_of_unchanged
    (unchanged : ∀ {value found}, shape.Completes value found → found = value)
    (h : shape.Completes value found) : shape.Accepts found found := by
  obtain rfl := unchanged h
  intro path
  obtain ⟨before, hbefore⟩ := h
  obtain ⟨again, hagain⟩ := exists_check_iff.2 (exists_check_iff.1 ⟨_, hbefore⟩)
  rw [hagain, unchanged ⟨path, hagain⟩]

/-- A check makes `null` of nothing but `null`. -/
theorem isNull_of_completes (h : shape.Completes value found) (given : value.isNull = false) :
    found.isNull = false := by
  cases shape with
  | any => rwa [completes_any.1 h]
  | string =>
    obtain ⟨s, -, rfl⟩ := completes_string h
    rfl
  | bool =>
    obtain ⟨b, -, rfl⟩ := completes_bool h
    rfl
  | number => rwa [(completes_number h).1]
  | integer max =>
    obtain ⟨i, -, rfl, -⟩ := completes_integer h
    rfl
  | reference kind =>
    obtain ⟨target, -, rfl, -⟩ := completes_reference h
    rfl
  | structType =>
    obtain ⟨fields, -, rfl, -⟩ := completes_structType h
    rfl
  | list inner =>
    obtain ⟨items, new, -, rfl, -⟩ := completes_list h
    rfl
  | map inner =>
    obtain ⟨fields, new, -, rfl, -⟩ := completes_map_forall₂ h
    rfl
  | object schema =>
    obtain ⟨raw, new, -, rfl, -⟩ := completes_object h
    rfl

end Shape

/-! ### Field bags -/

namespace Field

/-- What the check of a field's shape gives is accepted again, and so is the default of the field,
unless it is `null`. -/
structure Stable (field : Field) : Prop where
  shape : ∀ {value found}, field.shape.Completes value found → field.shape.Accepts found found
  default : ∀ value, field.presence = .default value →
    value = .null ∨ field.shape.Accepts value value

variable {field : Field} {raw found : Fields} {value : Value}

theorem checkField_of_given (h : present? found field.name = some value)
    (accepts : field.shape.Accepts value value) (path : Path) :
    checkField field found path = .ok [(field.name, value)] := by
  obtain ⟨name, shape, presence⟩ := field
  simp only [checkField, given?_eq_present?, h]
  exact Checked.bind_eq_ok.2 ⟨value, accepts _, rfl⟩

/-- **A field that stands in a bag as its check has left it is checked again to the same.** The
field is given then, or it is optional and absent on both occasions. -/
theorem checkField_again (stable : Stable field)
    (h : Contributes field raw (Entries.get? found field.name)) (path : Path) :
    checkField field found path =
      .ok (entriesOf field.name (Entries.get? found field.name)) := by
  rcases hget : Entries.get? found field.name with - | value
  · -- nothing stands there, so the field may be left out
    rw [hget] at h
    cases h with
    | absent _ optional =>
      obtain ⟨name, shape, presence⟩ := field
      simp only at optional
      simp only [checkField, given?_eq_present?, present?_eq_none_of_get? hget, optional]
      rfl
  · rw [hget] at h
    cases h with
    | @given before _ hbefore completes =>
      have hnull : value.isNull = false :=
        Shape.isNull_of_completes completes (present?_eq_some_iff_isNull.1 hbefore).2
      have hfound := present?_eq_some_iff_isNull.2 ⟨hget, hnull⟩
      exact checkField_of_given hfound (stable.shape completes) path
    | filled _ default =>
      by_cases hnull : value = .null
      · -- a `null` counts as absent and is filled in once more
        subst hnull
        have hnone : present? found field.name = none := present?_eq_none_of_null hget
        obtain ⟨name, shape, presence⟩ := field
        simp only at default
        simp only [checkField, given?_eq_present?, hnone, default]
        rfl
      · have accepts : field.shape.Accepts value value :=
          (stable.default value default).resolve_left hnull
        exact checkField_of_given (present?_eq_some_iff.2 ⟨hget, hnull⟩) accepts path

end Field

namespace Schema

variable {schema : Schema} {raw found : Fields}

theorem checkDeclared_eq_flatMap {fields : List Field} {path : Path} {part : Field → Fields}
    (h : ∀ field ∈ fields, checkField field raw path = .ok (part field)) :
    checkDeclared fields raw path = .ok (fields.flatMap part) := by
  induction fields with
  | nil => rfl
  | cons first rest ih =>
    obtain ⟨hfirst, hrest⟩ := List.forall_mem_cons.1 h
    rw [checkDeclared, hfirst, ih hrest]
    rfl

theorem distinctKeys_of_completes (h : schema.Completes raw found) :
    Entries.DistinctKeys found := by
  obtain ⟨path, h⟩ := h
  rw [checkSchema] at h
  obtain ⟨declared, -, h⟩ := Checked.bind_eq_ok.1 h
  obtain ⟨undeclared, -, h⟩ := Checked.bind_eq_ok.1 h
  exact Except.ok.inj h ▸ Entries.distinctKeys_ofList _

/-- **A checked bag is what stands under its declared names**, in the order of the schema, and its
undeclared entries behind that. -/
theorem eq_flatMap_append_undeclared (distinct : schema.DistinctNames)
    (h : schema.Completes raw found) :
    (schema.isOpen = true ∨ schema.undeclared found = []) ∧
      found = (schema.fields.flatMap fun field ↦
        Field.entriesOf field.name (Entries.get? found field.name)) ++ schema.undeclared found := by
  obtain ⟨declared, hfound, -, hkeys, hopen⟩ := exists_parts_of_completes distinct h
  have hdeclared : ∀ key ∈ Entries.keys declared, schema.declares key = true := fun key hmem ↦
    SchemaOf.declares_iff.2 (hkeys.subset hmem)
  -- the first check has left one entry for each undeclared key
  set others := Entries.ofList (schema.undeclared raw)
  have hothers : ∀ key ∈ Entries.keys others, schema.declares key = false := by
    intro key hmem
    obtain ⟨entry, hentry, rfl⟩ := List.mem_map.1 hmem
    exact SchemaOf.not_declares_of_mem_keys
      (Entries.mem_keys_of_mem (Entries.mem_of_mem_ofList hentry))
  have hsplit : found = declared ++ others :=
    hfound.trans <| Entries.ofList_append (hkeys.nodup distinct) fun key hmem hmem' ↦
      SchemaOf.not_mem_keys_undeclared (hdeclared key hmem') hmem
  have hundeclared : schema.undeclared found = others := by
    rw [hsplit, SchemaOf.undeclared_append, SchemaOf.undeclared_eq_nil hdeclared,
      SchemaOf.undeclared_eq_self hothers, List.nil_append]
  have hget : ∀ field ∈ schema.fields,
      Entries.get? declared field.name = Entries.get? found field.name := by
    intro field hmem
    have hname : schema.declares field.name = true :=
      SchemaOf.declares_iff.2 (List.mem_map.2 ⟨field, hmem, rfl⟩)
    have hnone : Entries.get? others field.name = none :=
      Entries.get?_eq_none_iff.2 fun hmem ↦ by simp [hothers _ hmem] at hname
    rw [hsplit, Entries.get?_append, hnone, Option.or_none]
  have hparts : declared = schema.fields.flatMap fun field ↦
      Field.entriesOf field.name (Entries.get? found field.name) := by
    rw [Entries.eq_flatMap_of_keys_sublist distinct hkeys, List.flatMap_map]
    exact List.flatMap_congr fun field hmem ↦
      congrArg (Field.entriesOf field.name) (hget field hmem)
  refine ⟨hopen.imp_right fun hnil ↦ ?_, ?_⟩
  · rw [hundeclared]
    show Entries.ofList (schema.undeclared raw) = []
    rw [hnil]
    rfl
  · rw [hundeclared, ← hparts, hsplit]

/-- **What the check of a schema gives is accepted again**, if what its fields contribute is.
Declared fields are checked again one by one, and undeclared ones are kept again. -/
theorem accepts_again (distinct : schema.DistinctNames)
    (stable : ∀ field ∈ schema.fields, Field.Stable field) (h : schema.Completes raw found) :
    schema.Accepts found found := by
  intro path
  obtain ⟨hopen, hfound⟩ := eq_flatMap_append_undeclared distinct h
  have hdeclared := checkDeclared_eq_flatMap fun field hmem ↦
    Field.checkField_again (stable field hmem) (contributes_of_completes distinct h hmem) path
  have hundeclared : checkUndeclared schema path found = .ok (schema.undeclared found) := by
    rw [checkUndeclared_eq]
    rcases hopen with hopen | hnil
    · rw [if_pos hopen]
    · rw [hnil]
      exact ite_self _
  have hstored : Entries.ofList ((schema.fields.flatMap fun field ↦
      Field.entriesOf field.name (Entries.get? found field.name)) ++ schema.undeclared found) =
      found := by
    rw [← hfound]
    exact Entries.ofList_eq_self (distinctKeys_of_completes h)
  rw [checkSchema]
  exact Checked.bind_eq_ok.2
    ⟨_, hdeclared, Checked.bind_eq_ok.2 ⟨_, hundeclared, congrArg Except.ok hstored⟩⟩

end Schema

/-! ### Shapes within shapes -/

namespace Shape

mutual

/-- **What the check of a shape gives is accepted again.** The induction is on the shape, where the
schema of an object has its fields below it. -/
theorem accepts_again : ∀ (shape : Shape) {value found : Value}, shape.DistinctNames →
    shape.SoundDefaults → shape.Completes value found → shape.Accepts found found
  | .any, _, _, _, _, _ => accepts_any _
  | .string, _, _, _, _, h => accepts_of_unchanged (fun h ↦ by
      obtain ⟨s, rfl, rfl⟩ := completes_string h
      rfl) h
  | .bool, _, _, _, _, h => accepts_of_unchanged (fun h ↦ by
      obtain ⟨b, rfl, rfl⟩ := completes_bool h
      rfl) h
  | .number, _, _, _, _, h => accepts_of_unchanged (fun h ↦ (completes_number h).1) h
  | .integer _, _, _, _, _, h => accepts_of_unchanged (fun h ↦ by
      obtain ⟨i, rfl, rfl, -⟩ := completes_integer h
      rfl) h
  | .reference _, _, _, _, _, h => accepts_of_unchanged (fun h ↦ by
      obtain ⟨target, rfl, rfl, -⟩ := completes_reference h
      rfl) h
  | .structType, _, _, _, _, h => accepts_of_unchanged (fun h ↦ by
      obtain ⟨fields, rfl, rfl, -⟩ := completes_structType h
      rfl) h
  | .list inner, value, found, distinct, sound, h => by
    obtain ⟨items, new, rfl, rfl, hitems⟩ := completes_list h
    refine accepts_list (List.forall₂_same.2 fun item hmem ↦ ?_)
    obtain ⟨before, -, hitem⟩ := exists_mem_of_forall₂ hitems hmem
    exact accepts_again inner distinct sound hitem
  | .map inner, value, found, distinct, sound, h => by
    obtain ⟨fields, new, rfl, rfl, hfields⟩ := completes_map_forall₂ h
    refine accepts_map fun entry hmem ↦ ?_
    obtain ⟨before, -, -, hentry⟩ := exists_mem_of_forall₂ hfields hmem
    exact accepts_again inner distinct sound hentry
  | .object ⟨fields, isOpen⟩, value, found, distinct, sound, h => by
    obtain ⟨raw, new, rfl, rfl, hnew⟩ := completes_object h
    exact accepts_object
      (Schema.accepts_again distinct.1 (stable_of_mem fields distinct.2 sound) hnew)

theorem stable_of_mem : ∀ (fields : List (FieldOf Shape)), fieldsDistinct fields →
    fieldsSoundDefaults fields → ∀ field ∈ fields, Field.Stable field
  | [], _, _, _, hmem => absurd hmem List.not_mem_nil
  | ⟨name, shape, presence⟩ :: rest, distinct, ⟨default, sound, others⟩, field, hmem => by
    rcases List.mem_cons.1 hmem with rfl | hmem
    · have again : ∀ {value found}, shape.Completes value found → shape.Accepts found found :=
        fun h ↦ accepts_again shape distinct.1 sound h
      refine ⟨again, fun value hpresence ↦ ?_⟩
      obtain rfl : presence = .default value := hpresence
      exact default.imp_right again
    · exact stable_of_mem rest distinct.2 others field hmem

end

end Shape

/-- The schemas of all kinds have sound defaults. -/
theorem Shape.schemaSoundDefaults_schema (kind : Kind) : schemaSoundDefaults kind.schema := by
  have htext : Shape.string.Completes (.string "") (.string "") := ⟨Path.root, rfl⟩
  have hlist (inner : Shape) : (Shape.list inner).Completes (.list []) (.list []) :=
    ⟨Path.root, rfl⟩
  cases kind <;>
    simp [Kind.schema, Schema.application, Schema.function, Schema.workflow, Schema.provider,
      Schema.event, Schema.secret, Schema.trigger, Schema.inputExample, Schema.resource,
      Schema.replicas, Schema.pubSub, Schema.deployment, Schema.redisLocation, naturalNumber,
      SchemaOf.closed, SchemaOf.opened, Field.required, Field.optional, Field.optionalList,
      schemaSoundDefaults, fieldsSoundDefaults, SoundDefaults, Presence.SoundFor, htext, hlist]

namespace Schema

/-- **Validation is idempotent.** What a schema accepts and completes, it accepts again as it
stands, at any place in a document: with the same keys in the same order, here and in every object
below. -/
theorem check_idempotent {schema : Schema} {raw found : Fields} {path again : Path}
    (distinct : Shape.schemaDistinct schema) (sound : Shape.schemaSoundDefaults schema)
    (h : schema.check raw path = .ok found) : schema.check found again = .ok found := by
  obtain ⟨fields, isOpen⟩ := schema
  have names : Schema.DistinctNames ⟨fields, isOpen⟩ := distinct.1
  exact accepts_again names (Shape.stable_of_mem fields distinct.2 sound) ⟨path, h⟩ again

/-- An open schema with a default of each sort: one is `null`, one is an object with a default of
its own. The raw bag has its keys in another order and a `null` where a default is. -/
theorem completed_bag_is_accepted_again :
    let limits : Schema :=
      .closed [⟨"cores", .number, .default (.int 1)⟩, Field.optional "disk" .any]
    let schema : Schema := .opened [⟨"owner", .string, .default .null⟩,
      ⟨"limits", .object limits, .default (.object [("cores", .int 2)])⟩,
      Field.required "stages" (.list (.map (.object limits)))]
    let raw : Fields := [("note", .null), ("stages", .list [.object [("b", .object []),
      ("a", .object [("disk", .list [.null]), ("cores", .int 4)])]]), ("limits", .null)]
    let found : Fields := [("owner", .null), ("limits", .object [("cores", .int 2)]),
      ("stages", .list [.object [("b", .object [("cores", .int 1)]),
        ("a", .object [("cores", .int 4), ("disk", .list [.null])])]]), ("note", .null)]
    Shape.schemaDistinct schema ∧ Shape.schemaSoundDefaults schema ∧
      schema.check raw Path.root = .ok found ∧
      schema.check found (Path.root.key "again") = .ok found := by
  intro limits schema raw found
  have distinct : Shape.schemaDistinct schema := by decide
  have hlimits : Shape.schemaSoundDefaults limits :=
    ⟨Or.inr ⟨Path.root, rfl⟩, trivial, trivial, trivial, trivial⟩
  have sound : Shape.schemaSoundDefaults schema :=
    ⟨Or.inl rfl, trivial, Or.inr ⟨Path.root, rfl⟩, hlimits, trivial, hlimits, trivial⟩
  have h : schema.check raw Path.root = .ok found := rfl
  exact ⟨distinct, sound, h, check_idempotent distinct sound h⟩

end Schema

end AppManifest
