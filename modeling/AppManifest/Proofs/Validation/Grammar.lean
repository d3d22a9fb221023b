import AppManifest.Proofs.Validation.Violations
import AppManifest.Schema.Registry
/-!
# The grammar of shapes

`Shape.Conforms` says which values have a shape, rule by rule and without a path, an order of checks
or an error. `Shape.complete` says what the validated value is: the value itself, except that inside
an object with a schema the declared fields come first, in the order of the schema, those that are
`null` or absent are left out or take their default, and the undeclared fields follow in their own
order.

`Shape.check_eq_ok_iff` puts the two together: a check succeeds exactly on the values that conform,
and then gives the completed value. That it succeeds is read off the violations, of which a value
has none exactly if it conforms (`Shape.violations_eq_nil_iff`); this part needs no assumption. The
result needs two. A schema must not declare a name twice at any level, since the value of the later
field would replace that of the earlier one, and no object may repeat a key.
-/

namespace AppManifest

/-- A value is a type expression: a type name, a reference, a list of one type expression, or an
object of type expressions. -/
inductive TypeExpr.Describes : Value → Prop where
  | name (s : String) : Describes (.string s)
  | reference (target : BlockRef) : Describes (.reference target)
  | list {item : Value} (h : Describes item) : Describes (.list [item])
  | object {fields : Fields} (h : ∀ entry ∈ fields, Describes entry.2) : Describes (.object fields)

/-- A value has a shape. -/
inductive Shape.Conforms : Shape → Value → Prop where
  | any (value : Value) : Conforms .any value
  | string (s : String) : Conforms .string (.string s)
  | bool (b : Bool) : Conforms .bool (.bool b)
  | int {i : Int64} (nonneg : 0 ≤ i.toInt) : Conforms .number (.int i)
  /-- Both zeros and the positive infinity are at least zero, and NaN is not. -/
  | float {x : Binary64} (nonneg : x.isNonnegative = true) : Conforms .number (.float x)
  | integer {max : UInt64} {i : Int64} (nonneg : 0 ≤ i.toInt) (le : i.toInt ≤ max.toNat) :
      Conforms (.integer max) (.int i)
  | reference {kind : Kind} {target : BlockRef}
      (hint : target.kind = none ∨ target.kind = some kind.name) :
      Conforms (.reference kind) (.reference target)
  | list {inner : Shape} {items : List Value} (each : ∀ item ∈ items, Conforms inner item) :
      Conforms (.list inner) (.list items)
  | map {inner : Shape} {fields : Fields} (each : ∀ entry ∈ fields, Conforms inner entry.2) :
      Conforms (.map inner) (.object fields)
  | structType {fields : Fields} (each : ∀ entry ∈ fields, TypeExpr.Describes entry.2) :
      Conforms .structType (.object fields)
  | object {schema : Schema} {raw : Fields}
      (given : ∀ field ∈ schema.fields, ∀ value, Entries.get? raw field.name = some value →
        value ≠ .null → Conforms field.shape value)
      (required : ∀ field ∈ schema.fields, field.presence = .required →
        ∃ value, Entries.get? raw field.name = some value ∧ value ≠ .null)
      (closed : schema.isOpen = false →
        ∀ key ∈ Entries.keys raw, key ∈ schema.fields.map (·.name)) :
      Conforms (.object schema) (.object raw)

namespace Shape

mutual

/-- The value with the defaults of its absent fields, and with the declared fields of its objects in
the order of their schemas. -/
def complete : Shape → Value → Value
  | .object schema, .object raw => .object (completeSchema schema raw)
  | .list inner, .list items => .list (items.map inner.complete)
  | .map inner, .object fields => .object (Entries.mapValues inner.complete fields)
  | _, value => value

/-- A completed field bag: its declared fields, then the others. -/
def completeSchema : SchemaOf Shape → Fields → Fields
  | ⟨fields, _⟩, raw =>
    completeDeclared fields raw ++ raw.filter fun entry ↦ entry.1 ∉ fields.map (·.name)

/-- The declared fields of a completed field bag. -/
def completeDeclared : List (FieldOf Shape) → Fields → Fields
  | [], _ => []
  | field :: rest, raw => completeField field raw ++ completeDeclared rest raw

/-- The entry of a declared field in a completed field bag, if there is one. -/
def completeField : FieldOf Shape → Fields → Fields
  | ⟨name, shape, presence⟩, raw =>
    match present? raw name with
    | some value => [(name, shape.complete value)]
    | none =>
      match presence with
      | .default value => [(name, value)]
      | .required | .optional => []

end

mutual

/-- No schema in a shape declares a name twice. -/
def DistinctNames : Shape → Prop
  | .object schema => schemaDistinct schema
  | .list inner | .map inner => inner.DistinctNames
  | _ => True

/-- A schema declares no name twice, here or in the shapes of its fields. -/
def schemaDistinct : SchemaOf Shape → Prop
  | ⟨fields, _⟩ => (fields.map (·.name)).Nodup ∧ fieldsDistinct fields

/-- No schema in the shapes of fields declares a name twice. -/
def fieldsDistinct : List (FieldOf Shape) → Prop
  | [] => True
  | ⟨_, shape, _⟩ :: rest => shape.DistinctNames ∧ fieldsDistinct rest

end

mutual

/-- Whether no schema in a shape declares a name twice. -/
def decideDistinctNames : (shape : Shape) → Decidable shape.DistinctNames
  | .object schema => decideSchemaDistinct schema
  | .list inner => decideDistinctNames inner
  | .map inner => decideDistinctNames inner
  | .string | .number | .integer _ | .bool | .any | .reference _ | .structType => .isTrue trivial

/-- Whether a schema declares no name twice. -/
def decideSchemaDistinct : (schema : SchemaOf Shape) → Decidable (schemaDistinct schema)
  | ⟨fields, _⟩ =>
    have := decideFieldsDistinct fields
    inferInstanceAs (Decidable ((fields.map (·.name)).Nodup ∧ fieldsDistinct fields))

/-- Whether no schema in the shapes of fields declares a name twice. -/
def decideFieldsDistinct : (fields : List (FieldOf Shape)) → Decidable (fieldsDistinct fields)
  | [] => .isTrue trivial
  | ⟨_, shape, _⟩ :: rest =>
    have := decideDistinctNames shape
    have := decideFieldsDistinct rest
    inferInstanceAs (Decidable (shape.DistinctNames ∧ fieldsDistinct rest))

end

instance (schema : Schema) : Decidable (schemaDistinct schema) := decideSchemaDistinct schema

end Shape

/-! ### Conforming is having no violation -/

namespace TypeExpr

mutual

/-- A type has no violation exactly if it is described, element by element and field by field. -/
theorem violations_eq_nil_iff : ∀ (value : Value) (path : Path),
    violations value path = [] ↔ Describes value
  | .string s, _ => iff_of_true rfl (.name s)
  | .reference target, _ => iff_of_true rfl (.reference target)
  | .null, _ | .bool _, _ | .int _, _ | .float _, _ | .list [], _ | .list (_ :: _ :: _), _ =>
    iff_of_false (List.cons_ne_nil _ _) nofun
  | .list [item], path => by
    rw [violations, violations_eq_nil_iff item]
    exact ⟨.list, fun h ↦ by cases h; assumption⟩
  | .object fields, path => by
    rw [violations, fieldViolations_eq_nil_iff fields]
    exact ⟨.object, fun h ↦ by cases h; assumption⟩

/-- The fields of a struct have no violation exactly if each of them is described. -/
theorem fieldViolations_eq_nil_iff : ∀ (fields : List (String × Value)) (path : Path),
    fieldViolations fields path = [] ↔ ∀ entry ∈ fields, Describes entry.2
  | [], _ => by simp [fieldViolations]
  | (name, value) :: rest, path => by
    rw [fieldViolations, List.append_eq_nil_iff, violations_eq_nil_iff value,
      fieldViolations_eq_nil_iff rest, List.forall_mem_cons]

end

end TypeExpr

/-- The field bag has what a declared field asks for. -/
def Field.Satisfied (field : Field) (raw : Fields) : Prop :=
  (∀ value, present? raw field.name = some value → field.shape.Conforms value) ∧
    (field.presence = .required → ∃ value, present? raw field.name = some value)

namespace Shape

/-- An object conforms if its bag has what the declared fields ask for, and only declared keys where
the schema is closed. -/
theorem conforms_object_iff {schema : Schema} {raw : Fields} :
    (Shape.object schema).Conforms (.object raw) ↔
      (∀ field ∈ schema.fields, Field.Satisfied field raw) ∧
        (schema.isOpen = false →
          ∀ key ∈ Entries.keys raw, key ∈ schema.fields.map (·.name)) := by
  simp only [Field.Satisfied, present?_eq_some_iff]
  constructor
  · intro h
    cases h with
    | object given required closed =>
      exact ⟨fun field hmem ↦ ⟨fun value h ↦ given field hmem value h.1 h.2, required field hmem⟩,
        closed⟩
  · rintro ⟨declared, closed⟩
    exact .object (fun field hmem value hget hnull ↦ (declared field hmem).1 value ⟨hget, hnull⟩)
      (fun field hmem ↦ (declared field hmem).2) closed

theorem forall_mem_zipIdx {p : Value → Prop} (items : List Value) :
    (∀ item ∈ items.zipIdx, p item.1) ↔ ∀ item ∈ items, p item := by
  have h := List.forall_mem_map (f := Prod.fst) (l := items.zipIdx) (P := p)
  rw [← h, List.zipIdx_map_fst]

theorem ite_eq_nil_iff {accepted : Bool} {e : Error} :
    (if accepted then [] else [e]) = [] ↔ accepted = true := by
  cases accepted <;> simp

mutual

/-- **A value has no violation exactly if it conforms.** The violations carry paths and texts, and
the rules on the right carry neither; the recursion is that of shapes. -/
theorem violations_eq_nil_iff : ∀ (shape : Shape) (value : Value) (path : Path),
    shape.violations value path = [] ↔ shape.Conforms value
  | .any, value, path => by
    refine iff_of_true ?_ (.any value)
    cases value <;> rfl
  | .string, value, path => by
    cases value with
    | string s => exact iff_of_true rfl (.string s)
    | _ => exact iff_of_false (List.cons_ne_nil _ _) nofun
  | .bool, value, path => by
    cases value with
    | bool b => exact iff_of_true rfl (.bool b)
    | _ => exact iff_of_false (List.cons_ne_nil _ _) nofun
  | .number, value, path => by
    cases value with
    | int i =>
      refine ite_eq_nil_iff.trans (decide_eq_true_iff.trans ⟨.int, fun h ↦ ?_⟩)
      cases h with
      | int nonneg => exact nonneg
    | float x =>
      refine ite_eq_nil_iff.trans ((fits_float x).trans ⟨.float, fun h ↦ ?_⟩)
      cases h with
      | float nonneg => exact nonneg
    | _ => exact iff_of_false (List.cons_ne_nil _ _) nofun
  | .integer max, value, path => by
    cases value with
    | int i =>
      refine ite_eq_nil_iff.trans (decide_eq_true_iff.trans ⟨fun h ↦ .integer h.1 h.2, fun h ↦ ?_⟩)
      cases h with
      | integer nonneg le => exact ⟨nonneg, le⟩
    | _ => exact iff_of_false (List.cons_ne_nil _ _) nofun
  | .reference kind, value, path => by
    cases value with
    | reference target =>
      refine ite_eq_nil_iff.trans (decide_eq_true_iff.trans ⟨.reference, fun h ↦ ?_⟩)
      cases h with
      | reference hint => exact hint
    | _ => exact iff_of_false (List.cons_ne_nil _ _) nofun
  | .list inner, value, path => by
    cases value with
    | list items =>
      rw [violations, List.flatMap_eq_nil_iff]
      have hitem : ∀ item ∈ items.zipIdx,
          (inner.violations item.1 (path.extend [.index item.2]) = [] ↔ inner.Conforms item.1) :=
        fun item _ ↦ violations_eq_nil_iff inner item.1 _
      refine (forall₂_congr hitem).trans ((forall_mem_zipIdx items).trans ⟨.list, fun h ↦ ?_⟩)
      cases h with
      | list each => exact each
    | _ => exact iff_of_false (List.cons_ne_nil _ _) nofun
  | .map inner, value, path => by
    cases value with
    | object fields =>
      rw [violations, List.flatMap_eq_nil_iff]
      have hentry : ∀ entry ∈ fields, (inner.violations entry.2 (path.extend [.key entry.1]) = [] ↔
          inner.Conforms entry.2) := fun entry _ ↦ violations_eq_nil_iff inner entry.2 _
      refine (forall₂_congr hentry).trans ⟨.map, fun h ↦ ?_⟩
      cases h with
      | map each => exact each
    | _ => exact iff_of_false (List.cons_ne_nil _ _) nofun
  | .structType, value, path => by
    cases value with
    | object fields =>
      rw [violations, TypeExpr.fieldViolations_eq_nil_iff]
      refine ⟨.structType, fun h ↦ ?_⟩
      cases h with
      | structType each => exact each
    | _ => exact iff_of_false (List.cons_ne_nil _ _) nofun
  | .object schema, value, path => by
    cases value with
    | object raw =>
      rw [violations, schemaViolations_eq_nil_iff schema, conforms_object_iff]
    | _ => exact iff_of_false (List.cons_ne_nil _ _) nofun

/-- A bag has no violation exactly if its declared fields are satisfied and, in a closed schema, it
has no other keys. -/
theorem schemaViolations_eq_nil_iff : ∀ (schema : SchemaOf Shape) (raw : Fields) (path : Path),
    schemaViolations schema raw path = [] ↔
      (∀ field ∈ schema.fields, Field.Satisfied field raw) ∧
        (schema.isOpen = false → ∀ key ∈ Entries.keys raw, key ∈ schema.fields.map (·.name))
  | ⟨fields, isOpen⟩, raw, path => by
    rw [schemaViolations, List.append_eq_nil_iff, declaredViolations_eq_nil_iff fields]
    refine and_congr_right fun _ ↦ ?_
    cases isOpen with
    | true => simp
    | false => simp [List.filter_eq_nil_iff]

theorem declaredViolations_eq_nil_iff : ∀ (fields : List (FieldOf Shape)) (raw : Fields)
    (path : Path),
    declaredViolations fields raw path = [] ↔ ∀ field ∈ fields, Field.Satisfied field raw
  | [], _, _ => by simp [declaredViolations]
  | field :: rest, raw, path => by
    rw [declaredViolations, List.append_eq_nil_iff, fieldViolations_eq_nil_iff field,
      declaredViolations_eq_nil_iff rest, List.forall_mem_cons]

/-- A declared field has no violation exactly if its value conforms, or is not there and need not
be. -/
theorem fieldViolations_eq_nil_iff : ∀ (field : FieldOf Shape) (raw : Fields) (path : Path),
    fieldViolations field raw path = [] ↔ Field.Satisfied field raw
  | ⟨name, shape, presence⟩, raw, path => by
    rw [Field.Satisfied]
    rcases h : present? raw name with - | value
    · rw [fieldViolations_of_absent h]
      cases presence <;> simp
    · rw [fieldViolations_of_present h]
      simp [violations_eq_nil_iff shape value]

end

/-! ### What a check makes of a value -/

/-- What comes of each element by itself comes of the list. -/
theorem eq_map_of_forall₂ {α β : Type} {R : α → β → Prop} {f : α → β} {as : List α} {bs : List β}
    (h : List.Forall₂ R as bs) (each : ∀ a ∈ as, ∀ b, R a b → b = f a) : bs = as.map f := by
  induction h with
  | nil => rfl
  | @cons a b as bs hab _ ih =>
    have hb : b = f a := each a List.mem_cons_self b hab
    have hbs : bs = as.map f := ih fun a hmem ↦ each a (List.mem_cons_of_mem _ hmem)
    rw [hb, hbs, List.map_cons]

/-- A declared field is completed under its name, or not at all. -/
theorem keys_completeField_sublist (field : FieldOf Shape) (raw : Fields) :
    (Entries.keys (completeField field raw)).Sublist [field.name] := by
  obtain ⟨name, shape, presence⟩ := field
  simp only [completeField]
  cases present? raw name with
  | some value => exact List.Sublist.refl _
  | none => cases presence <;> simp

/-- The declared fields of a completed bag stand in the order of the schema. -/
theorem keys_completeDeclared_sublist (fields : List (FieldOf Shape)) (raw : Fields) :
    (Entries.keys (completeDeclared fields raw)).Sublist (fields.map (·.name)) := by
  induction fields with
  | nil => exact List.Sublist.refl _
  | cons field rest ih =>
    rw [completeDeclared, Entries.keys, List.map_append]
    exact (keys_completeField_sublist field raw).append ih

/-- Declared and undeclared fields of a completed bag are written under keys of their own. -/
theorem distinctKeys_completeSchema (schema : Schema) {raw : Fields}
    (distinct : (schema.fields.map (·.name)).Nodup) (keyed : Entries.DistinctKeys raw) :
    Entries.DistinctKeys (completeDeclared schema.fields raw ++ schema.undeclared raw) := by
  have hkeys := keys_completeDeclared_sublist schema.fields raw
  exact SchemaOf.distinctKeys_append_undeclared (hkeys.nodup distinct) keyed fun key hmem ↦
    SchemaOf.declares_iff.2 (hkeys.subset hmem)

mutual

/-- **What a check gives is the completed value.** Names that were declared twice, or keys that are
repeated, would make the check store one value over the other; the two conditions exclude this. -/
theorem eq_complete : ∀ (shape : Shape) {value found : Value}, shape.DistinctNames →
    value.DistinctKeys → shape.Completes value found → found = shape.complete value
  | .any, value, found, _, _, h => by
    rw [completes_any.1 h]
    cases value <;> rfl
  | .string, value, found, _, _, h => by
    obtain ⟨s, rfl, rfl⟩ := completes_string h
    rfl
  | .bool, value, found, _, _, h => by
    obtain ⟨b, rfl, rfl⟩ := completes_bool h
    rfl
  | .number, value, found, _, _, h => by
    obtain ⟨rfl, ⟨i, rfl⟩ | ⟨x, rfl, -⟩⟩ := completes_number h <;> rfl
  | .integer max, value, found, _, _, h => by
    obtain ⟨i, rfl, rfl, -⟩ := completes_integer h
    rfl
  | .reference kind, value, found, _, _, h => by
    obtain ⟨target, rfl, rfl, -⟩ := completes_reference h
    rfl
  | .structType, value, found, _, _, h => by
    obtain ⟨fields, rfl, rfl, -⟩ := completes_structType h
    rfl
  | .list inner, value, found, distinct, keyed, h => by
    obtain ⟨items, new, rfl, rfl, hitems⟩ := completes_list h
    have hkeyed := Value.itemsDistinct_iff.1 keyed
    rw [complete, eq_map_of_forall₂ hitems fun item hmem _ hnew ↦
      eq_complete inner distinct (hkeyed item hmem) hnew]
  | .map inner, value, found, distinct, keyed, h => by
    obtain ⟨fields, new, rfl, rfl, hfields⟩ := completes_map_forall₂ h
    have hkeyed := (Value.distinctKeys_object_iff.1 keyed).2
    have hnew : new = fields.map fun entry ↦ (entry.1, inner.complete entry.2) :=
      eq_map_of_forall₂ hfields fun entry hmem new h ↦
        Prod.ext h.1.symm (eq_complete inner distinct (hkeyed entry hmem) h.2)
    rw [complete, Entries.mapValues, hnew]
  | .object ⟨fields, isOpen⟩, value, found, distinct, keyed, h => by
    obtain ⟨raw, new, rfl, rfl, path, hnew⟩ := completes_object h
    rw [checkSchema] at hnew
    obtain ⟨declared, hdeclared, hnew⟩ := Checked.bind_eq_ok.1 hnew
    obtain ⟨undeclared, hundeclared, hnew⟩ := Checked.bind_eq_ok.1 hnew
    obtain ⟨rfl, -⟩ := Schema.checkUndeclared_eq_ok hundeclared
    obtain rfl : declared = completeDeclared fields raw :=
      eq_completeDeclared distinct.2 keyed hdeclared
    have hkeys := distinctKeys_completeSchema ⟨fields, isOpen⟩ distinct.1 keyed.1
    rw [complete, completeSchema, ← Except.ok.inj hnew, Entries.ofList_eq_self hkeys,
      SchemaOf.undeclared_eq_filter]

/-- What the check of declared fields gives is their completion, field by field. -/
theorem eq_completeDeclared : ∀ {fields : List (FieldOf Shape)} {raw found : Fields} {path : Path},
    fieldsDistinct fields → raw.WellKeyed → checkDeclared fields raw path = .ok found →
    found = completeDeclared fields raw
  | [], _, _, _, _, _, h => (Except.ok.inj h).symm
  | ⟨name, shape, presence⟩ :: rest, raw, found, path, distinct, keyed, h => by
    rw [checkDeclared] at h
    obtain ⟨part, hpart, h⟩ := Checked.bind_eq_ok.1 h
    obtain ⟨others, hothers, h⟩ := Checked.bind_eq_ok.1 h
    obtain rfl : others = completeDeclared rest raw :=
      eq_completeDeclared distinct.2 keyed hothers
    suffices part = completeField ⟨name, shape, presence⟩ raw by
      rw [completeDeclared, ← this]
      exact (Except.ok.inj h).symm
    obtain ⟨value, hvalue, rfl⟩ := Field.contributes_of_checkField hpart
    cases hvalue with
    | @given value found hgiven completes =>
      have hkeyed : value.DistinctKeys := Field.distinctKeys_of_given keyed hgiven
      simp only [completeField, show present? raw name = some value from hgiven]
      rw [← eq_complete shape distinct.1 hkeyed completes]
      rfl
    | absent hgiven optional =>
      obtain rfl : presence = .optional := optional
      simp only [completeField, show present? raw name = none from hgiven]
      rfl
    | @filled value hgiven default =>
      obtain rfl : presence = .default value := default
      simp only [completeField, show present? raw name = none from hgiven]
      rfl

end

/-- The schemas of all kinds are such schemas, so `check_eq_ok_iff` applies to all of them. -/
theorem schemaDistinct_schema (kind : Kind) : schemaDistinct kind.schema := by
  cases kind <;> decide

/-- A check accepts exactly the values that conform. Neither the path nor any assumption on names
and keys matters for this. -/
theorem exists_check_iff {shape : Shape} {value : Value} {path : Path} :
    (∃ found, shape.check value path = .ok found) ↔ shape.Conforms value := by
  rw [← Checked.failure?_eq_none_iff, failure?_check, List.head?_eq_none_iff,
    violations_eq_nil_iff]

/-- The check of a schema accepts exactly the bags that conform as objects. -/
theorem exists_checkSchema_iff {schema : Schema} {raw : Fields} {path : Path} :
    (∃ found, checkSchema schema raw path = .ok found) ↔
      (Shape.object schema).Conforms (.object raw) := by
  rw [← exists_check_iff, check]
  constructor
  · rintro ⟨found, h⟩
    exact ⟨.object found, Checked.bind_eq_ok.2 ⟨found, h, rfl⟩⟩
  · rintro ⟨found, h⟩
    obtain ⟨fields, hfields, -⟩ := Checked.bind_eq_ok.1 h
    exact ⟨fields, hfields⟩

/-- **A check accepts exactly the values that conform, and completes them.** The rules for values
that conform mention no order of checks, and the completed value is given by a function of its own.
Which of several violations is reported is no part of this; that is in
`AppManifest.Proofs.Validation.Violations`. -/
theorem check_eq_ok_iff {shape : Shape} {value found : Value} {path : Path}
    (distinct : shape.DistinctNames) (keyed : value.DistinctKeys) :
    shape.check value path = .ok found ↔ shape.Conforms value ∧ found = shape.complete value := by
  constructor
  · intro h
    exact ⟨exists_check_iff.1 ⟨found, h⟩, eq_complete shape distinct keyed ⟨path, h⟩⟩
  · rintro ⟨hconforms, rfl⟩
    obtain ⟨found, h⟩ := exists_check_iff.2 hconforms
    rwa [← eq_complete shape distinct keyed ⟨path, h⟩]

/-- The fields of a function are put in order and completed, here and in its resources. -/
theorem function_fields_are_completed :
    let shape : Shape := .object Schema.function
    let value : Value := .object [("resource", .object [("memory", .int 512), ("cpu", .null)]),
      ("role", .null), ("runtime", .string "nodejs")]
    let found : Value := .object [("runtime", .string "nodejs"), ("codeDir", .string ""),
      ("resource", .object [("memory", .int 512)]), ("triggers", .list [])]
    shape.DistinctNames ∧ value.DistinctKeys ∧ shape.check value Path.root = .ok found ∧
      shape.Conforms value ∧ found = shape.complete value := by
  intro shape value found
  have distinct : shape.DistinctNames := schemaDistinct_schema .function
  have keyed : value.DistinctKeys :=
    ⟨by decide, ⟨by decide, trivial, trivial, trivial⟩, trivial, trivial, trivial⟩
  have h : shape.check value Path.root = .ok found := rfl
  exact ⟨distinct, keyed, h, (check_eq_ok_iff distinct keyed).1 h⟩

end Shape

end AppManifest
