import AppManifest.Proofs.Entity.Decoding
import AppManifest.Proofs.Validation.Violations
/-!
# Rejected secrets show no contents

Some violations quote what they found: a number that is out of range, the hint of a reference, the
length of a list. A shape is discreet if its violations depend on nothing but the name of the type
of a value (`Shape.Discreet`), and strings are. If all declared fields of a schema are discreet,
then everything that is wrong with a field bag can be seen in its outline, the keys in their order
with the types of the values (`Shape.schemaViolations_eq_of_outline_eq`). Nothing is assumed of the
bag: keys may be missing, undeclared or repeated, and values may be `null` or nested.

The fields of a secret are strings, so two secrets of one outline are both accepted, or both
rejected with one error (`Entity.rejected_secrets_show_no_contents`).
-/

namespace AppManifest

/-- What a field bag shows without its contents: the keys in their order, each with the name of the
type of its value. -/
def Fields.outline (fields : Fields) : List (String × String) :=
  fields.map fun entry ↦ (entry.1, entry.2.typeName)

namespace Fields

theorem map_fst_outline (fields : Fields) : fields.outline.map Prod.fst = Entries.keys fields := by
  rw [outline, List.map_map]
  rfl

/-- Nothing but `null` counts as absent, and the outline shows it. -/
theorem map_typeName_present? (fields : Fields) (name : String) :
    (present? fields name).map Value.typeName =
      (Entries.get? fields.outline name).filter (· ≠ "null") := by
  have hget : Entries.get? fields.outline name =
      (Entries.get? fields name).map Value.typeName := Entries.get?_map Value.typeName fields name
  rw [present?, hget]
  rcases Entries.get? fields name with - | value
  · rfl
  · cases value <;> rfl

end Fields

/-! ### Discreet shapes -/

namespace Shape

/-- A shape that looks at nothing of a value but the name of its type, neither to accept it nor to
say what it found. -/
def Discreet (shape : Shape) : Prop :=
  ∀ a b : Value, a.typeName = b.typeName → ∀ path, shape.violations a path = shape.violations b path

theorem discreet_string : Discreet .string := by
  have htype (value : Value) (path : Path) : violations .string value path =
      if value.typeName = "string" then []
      else [.schemaViolation path "string" value.typeName] := by
    cases value <;> rfl
  intro a b h path
  rw [htype, htype, h]

/-- A number that is out of range is quoted. -/
example : violations (.integer 65535) (.int 70000) Path.root ≠
    violations (.integer 65535) (.int 80000) Path.root := by decide

variable {as bs : Fields}

theorem fieldViolations_eq_of_outline_eq {field : Field} (discreet : field.shape.Discreet)
    (h : as.outline = bs.outline) (path : Path) :
    fieldViolations field as path = fieldViolations field bs path := by
  have htypes : (present? as field.name).map Value.typeName =
      (present? bs field.name).map Value.typeName := by
    rw [Fields.map_typeName_present?, h, Fields.map_typeName_present?]
  rcases ha : present? as field.name with - | a <;> rw [ha] at htypes
  · have hb := Option.map_eq_none_iff.1 htypes.symm
    rw [fieldViolations_of_absent ha, fieldViolations_of_absent hb]
  · obtain ⟨b, hb, htype⟩ := Option.map_eq_some_iff.1 htypes.symm
    rw [fieldViolations_of_present ha, fieldViolations_of_present hb]
    exact discreet a b htype.symm _

theorem declaredViolations_eq_of_outline_eq {fields : List Field}
    (discreet : ∀ field ∈ fields, field.shape.Discreet) (h : as.outline = bs.outline)
    (path : Path) : declaredViolations fields as path = declaredViolations fields bs path := by
  induction fields with
  | nil => rfl
  | cons field rest ih =>
    obtain ⟨hfield, hrest⟩ := List.forall_mem_cons.1 discreet
    rw [declaredViolations, declaredViolations, fieldViolations_eq_of_outline_eq hfield h, ih hrest]

/-- **All that is wrong with a bag shows in its outline**, if the declared fields are discreet.
Undeclared fields are named in violations, and their names are part of the outline. -/
theorem schemaViolations_eq_of_outline_eq {schema : Schema}
    (discreet : ∀ field ∈ schema.fields, field.shape.Discreet) (h : as.outline = bs.outline)
    (path : Path) : schemaViolations schema as path = schemaViolations schema bs path := by
  obtain ⟨fields, isOpen⟩ := schema
  have hkeys : Entries.keys as = Entries.keys bs := by
    rw [← Fields.map_fst_outline, h, Fields.map_fst_outline]
  rw [schemaViolations, schemaViolations, hkeys, declaredViolations_eq_of_outline_eq discreet h]

end Shape

/-! ### Secrets -/

namespace Entity

variable {kind : Kind}

/-- Two blocks of one name and one outline fail alike, if the kind has discreet fields only. -/
theorem failure?_parseBlock_eq {a b : Block}
    (discreet : ∀ field ∈ kind.schema.fields, field.shape.Discreet) (ha : a.kind = kind.name)
    (hb : b.kind = kind.name) (hname : a.name = b.name)
    (h : a.fields.outline = b.fields.outline) :
    (parseBlock kind a).failure? = (parseBlock kind b).failure? := by
  have hblock {block : Block} (hkind : block.kind = kind.name) :
      (parseBlock kind block).failure? = (Shape.schemaViolations kind.schema block.fields
        (Path.ofBlock kind.name block.name)).head? := by
    rw [parseBlock, if_pos hkind, failure?_parseFields]
    exact Shape.failure?_checkSchema ..
  rw [hblock ha, hblock hb, hname, Shape.schemaViolations_eq_of_outline_eq discreet h]

/-- **A rejected secret shows nothing of its contents.** Two secret blocks of one name, whose fields
have the same keys in the same order with values of the same types, are both read as secrets, or
both rejected with the same error: the same violation at the same path, with the same expectation
and finding, or the same unknown field. -/
theorem rejected_secrets_show_no_contents {a b : Block} (ha : a.kind = Kind.secret.name)
    (hb : b.kind = Kind.secret.name) (hname : a.name = b.name)
    (h : a.fields.outline = b.fields.outline) :
    ((∃ secret, parseBlock .secret a = .ok secret) ∧
        ∃ secret, parseBlock .secret b = .ok secret) ∨
      ∃ e, parseBlock .secret a = .error e ∧ parseBlock .secret b = .error e := by
  have discreet : ∀ field ∈ Kind.secret.schema.fields, field.shape.Discreet :=
    List.forall_mem_cons.2
      ⟨Shape.discreet_string, List.forall_mem_singleton.2 Shape.discreet_string⟩
  have hfailure := failure?_parseBlock_eq discreet ha hb hname h
  rcases hresult : (parseBlock .secret a).failure? with - | e
  · exact Or.inl ⟨Checked.failure?_eq_none_iff.1 hresult,
      Checked.failure?_eq_none_iff.1 (hfailure ▸ hresult)⟩
  · exact Or.inr ⟨e, Checked.failure?_eq_some_iff.1 hresult,
      Checked.failure?_eq_some_iff.1 (hfailure ▸ hresult)⟩

/-- A number in place of the value, and an undeclared field behind it. -/
theorem numeric_secret_is_not_quoted :
    let block (pin : Int64) (note : List Value) : Block := ⟨"secret", "s",
      [("name", .string "pin"), ("value", .int pin), ("note", .list note)]⟩
    let a := block 4711 []
    let b := block 1234 [.string "hunter2"]
    a.kind = Kind.secret.name ∧ b.kind = Kind.secret.name ∧ a.name = b.name ∧
      a.fields.outline = b.fields.outline ∧
      ∃ e, parseBlock .secret a = .error e ∧ parseBlock .secret b = .error e := by
  intro block a b
  refine ⟨rfl, rfl, rfl, rfl, ?_⟩
  rcases rejected_secrets_show_no_contents (a := a) (b := b) rfl rfl rfl rfl with
    ⟨⟨secret, hsecret⟩, -⟩ | herror
  · exact absurd hsecret (by rintro ⟨⟩)
  · exact herror

end Entity

end AppManifest
