import AppManifest.Proofs.Validation.Acceptance
import AppManifest.Proofs.Value.NormalForm
/-!
# What stands in a checked field bag

A checked bag is the declared fields in the order of the schema, then the undeclared ones. So what
stands under a declared key depends on the check of that one field (`contributes_of_completes`), and
a bag passes if each declared field does and the schema takes the other keys
(`Schema.exists_accepts`). Both ask that the schema declares no name twice; neither asks anything of
the keys of the raw bag. What is left of the undeclared fields is `undeclared_of_completes`, and
only there a repeated key would be seen.

What a bag has under a declared name is `present?`, written from the entries of the bag alone. The
validator looks fields up in the same way (`given?_eq_present?`), and everything that is said of
given and absent fields from here on is said with `present?`.
-/

namespace AppManifest

/-! ### Present fields -/

/-- What a field bag has under a name, where `null` counts as nothing. -/
def present? (raw : Fields) (name : String) : Option Value :=
  match Entries.get? raw name with
  | none | some .null => none
  | some value => some value

/-- **The validator takes a declared field as given exactly if it is present.** The other lemmas of
this module speak of `present?`, so that what they say does not rest on how the validator looks
fields up. -/
theorem given?_eq_present? (raw : Fields) (name : String) :
    given? raw name = present? raw name := by
  rw [given?, present?]
  rcases Entries.get? raw name with - | value
  · rfl
  · cases value <;> rfl

section

variable {raw : Fields} {name : String} {value : Value}

/-- A field is present where something other than `null` stands under its key. -/
theorem present?_eq_some_iff :
    present? raw name = some value ↔ Entries.get? raw name = some value ∧ value ≠ .null := by
  rw [present?]
  rcases Entries.get? raw name with - | found
  · simp
  · cases found <;> simp +contextual [eq_comm]

/-- The same with the test for `null` that programs use. -/
theorem present?_eq_some_iff_isNull :
    present? raw name = some value ↔ Entries.get? raw name = some value ∧ value.isNull = false := by
  rw [present?_eq_some_iff]
  refine and_congr_right fun _ ↦ ?_
  cases value <;> simp [Value.isNull]

/-- Where no entry stands, nothing is present. -/
theorem present?_eq_none_of_get? (h : Entries.get? raw name = none) : present? raw name = none := by
  rw [present?, h]

/-- Where `null` stands, nothing is present either. -/
theorem present?_eq_none_of_null (h : Entries.get? raw name = some .null) :
    present? raw name = none := by
  rw [present?, h]

end

namespace Field

/-- What a declared field contributes to a checked bag. -/
inductive Contributes (field : Field) (raw : Fields) : Option Value → Prop where
  | given {value found : Value} (h : present? raw field.name = some value)
      (completes : field.shape.Completes value found) : Contributes field raw (some found)
  | absent (h : present? raw field.name = none) (optional : field.presence = .optional) :
      Contributes field raw none
  | filled {value : Value} (h : present? raw field.name = none)
      (default : field.presence = .default value) : Contributes field raw (some value)

/-- The entries that a contribution stands for. -/
def entriesOf (name : String) (value : Option Value) : Fields :=
  (value.map fun v ↦ (name, v)).toList

/-- A declared field passes at every path. -/
def Accepts (field : Field) (raw : Fields) : Prop :=
  ∃ part, ∀ path, checkField field raw path = .ok part

variable {field : Field} {raw : Fields} {value found : Value}

/-- The check of a declared field adds what the field contributes and nothing else. -/
theorem contributes_of_checkField {path : Path} {part : Fields}
    (h : checkField field raw path = .ok part) :
    ∃ value, Contributes field raw value ∧ part = entriesOf field.name value := by
  obtain ⟨name, shape, presence⟩ := field
  cases hgiven : present? raw name with
  | some value =>
    simp only [checkField, given?_eq_present?, hgiven] at h
    obtain ⟨found, hfound, hpart⟩ := Checked.bind_eq_ok.1 h
    exact ⟨some found, .given hgiven ⟨_, hfound⟩, (Except.ok.inj hpart).symm⟩
  | none =>
    cases presence with
    | required =>
      exact absurd h (by simp [checkField, given?_eq_present?, hgiven, Shape.violation])
    | optional =>
      simp only [checkField, given?_eq_present?, hgiven] at h
      exact ⟨none, .absent hgiven rfl, (Except.ok.inj h).symm⟩
    | default value =>
      simp only [checkField, given?_eq_present?, hgiven] at h
      exact ⟨some value, .filled hgiven rfl, (Except.ok.inj h).symm⟩

theorem accepts_of_given (h : present? raw field.name = some value)
    (accepts : field.shape.Accepts value found) : field.Accepts raw := by
  refine ⟨[(field.name, found)], fun path ↦ ?_⟩
  obtain ⟨name, shape, presence⟩ := field
  simp only [checkField, given?_eq_present?, h]
  exact Checked.bind_eq_ok.2 ⟨found, accepts _, rfl⟩

theorem accepts_of_absent (h : present? raw field.name = none)
    (optional : field.presence = .optional) : field.Accepts raw := by
  refine ⟨[], fun path ↦ ?_⟩
  obtain ⟨name, shape, presence⟩ := field
  cases optional
  simp only [checkField, given?_eq_present?, h]

/-- A field that must be there contributes what its check makes of the given value. There is no
other way for it to pass. -/
theorem Contributes.of_required {part : Option Value} (h : Contributes field raw part)
    (required : field.presence = .required) :
    ∃ value found, part = some found ∧ present? raw field.name = some value ∧
      field.shape.Completes value found := by
  cases h with
  | given h completes => exact ⟨_, _, rfl, h, completes⟩
  | absent h optional => exact absurd (required.symm.trans optional) (by simp)
  | filled h default => exact absurd (required.symm.trans default) (by simp)

/-- A field with a default contributes what its check makes of the given value or of the default,
if the default passes its own check. -/
theorem Contributes.of_default {part : Option Value} {default : Value}
    (h : Contributes field raw part) (presence : field.presence = .default default)
    (accepted : field.shape.Accepts default default) :
    ∃ value found, part = some found ∧ (present? raw field.name = some value ∨ value = default) ∧
      field.shape.Completes value found := by
  cases h with
  | given h completes => exact ⟨_, _, rfl, Or.inl h, completes⟩
  | absent h optional => exact absurd (presence.symm.trans optional) (by simp)
  | filled h default' =>
    obtain rfl : default = _ := Presence.default.inj (presence.symm.trans default')
    exact ⟨default, default, rfl, Or.inr rfl, Path.root, accepted Path.root⟩

end Field

/-! ### Undeclared entries -/

namespace SchemaOf

variable {σ α : Type} {schema : SchemaOf σ} {entries : Entries α}

/-- The entries that a schema does not declare. -/
def undeclared (schema : SchemaOf σ) (entries : Entries α) : Entries α :=
  entries.filter fun entry ↦ !schema.declares entry.1

theorem declares_iff {name : String} :
    schema.declares name = true ↔ name ∈ schema.fields.map (·.name) := by
  rw [declares, field?, List.find?_isSome]
  simp

/-- The undeclared entries are those under other names. -/
theorem undeclared_eq_filter (schema : SchemaOf σ) (entries : Entries α) :
    schema.undeclared entries =
      entries.filter fun entry ↦ entry.1 ∉ schema.fields.map (·.name) := by
  refine List.filter_congr fun entry _ ↦ ?_
  rw [decide_not]
  exact congrArg Bool.not (Bool.eq_iff_iff.2 (declares_iff.trans decide_eq_true_iff.symm))

theorem undeclared_append (schema : SchemaOf σ) (first second : Entries α) :
    schema.undeclared (first ++ second) = schema.undeclared first ++ schema.undeclared second :=
  List.filter_append ..

theorem undeclared_sublist : (schema.undeclared entries).Sublist entries := List.filter_sublist

/-- Nothing is undeclared among declared keys, such as those of the declared part of a checked bag.
-/
theorem undeclared_eq_nil (h : ∀ key ∈ entries.keys, schema.declares key = true) :
    schema.undeclared entries = [] :=
  List.filter_eq_nil_iff.2 fun entry hmem ↦ by
    simp [h entry.1 (List.mem_map.2 ⟨entry, hmem, rfl⟩)]

/-- All is undeclared among keys that are not declared, such as those of the rest of a checked bag.
-/
theorem undeclared_eq_self (h : ∀ key ∈ entries.keys, schema.declares key = false) :
    schema.undeclared entries = entries :=
  List.filter_eq_self.2 fun entry hmem ↦ by
    simp [h entry.1 (List.mem_map.2 ⟨entry, hmem, rfl⟩)]

/-- Under a declared key there is no undeclared entry; under all others nothing is changed. -/
theorem get?_undeclared (schema : SchemaOf σ) (entries : Entries α) (key : String) :
    Entries.get? (schema.undeclared entries) key =
      if schema.declares key then none else Entries.get? entries key := by
  induction entries with
  | nil => cases schema.declares key <;> rfl
  | cons entry rest ih =>
    obtain ⟨name, value⟩ := entry
    rw [undeclared] at ih ⊢
    by_cases h : name = key
    · subst h
      cases hd : schema.declares name <;> simp_all [Entries.get?]
    · cases hd : schema.declares name <;> simp_all [Entries.get?]

/-- An undeclared name is a key of the undeclared entries where it is a key at all. -/
theorem mem_keys_undeclared_iff {name : String} (h : schema.declares name = false) :
    name ∈ (schema.undeclared entries).keys ↔ name ∈ entries.keys := by
  rw [← not_iff_not, ← Entries.get?_eq_none_iff, ← Entries.get?_eq_none_iff, get?_undeclared, h]
  rfl

theorem not_declares_of_mem_keys {key : String} (h : key ∈ (schema.undeclared entries).keys) :
    schema.declares key = false := by
  obtain ⟨entry, hmem, rfl⟩ := List.mem_map.1 h
  simpa using (List.mem_filter.1 hmem).2

/-- A declared name is no key of the undeclared entries, so both parts of a checked bag have keys of
their own. -/
theorem not_mem_keys_undeclared {key : String} (h : schema.declares key = true) :
    key ∉ (schema.undeclared entries).keys := fun hmem ↦ by
  rw [not_declares_of_mem_keys hmem] at h
  exact absurd h (by decide)

/-- Entries under declared keys and the undeclared ones behind them have distinct keys. -/
theorem distinctKeys_append_undeclared {declared : Entries α} (distinct : declared.DistinctKeys)
    (keyed : entries.DistinctKeys) (h : ∀ key ∈ declared.keys, schema.declares key = true) :
    Entries.DistinctKeys (declared ++ schema.undeclared entries) := by
  rw [Entries.DistinctKeys, Entries.keys, List.map_append, List.nodup_append]
  refine ⟨distinct, keyed.sublist (undeclared_sublist.map _), ?_⟩
  rintro key hkey _ hother rfl
  exact not_mem_keys_undeclared (h key hkey) hother

theorem distinctKeys_undeclared (h : entries.DistinctKeys) :
    (schema.undeclared entries).DistinctKeys :=
  h.sublist (undeclared_sublist.map _)

end SchemaOf

/-! ### Values without repeated keys -/

/-- The values of a bag without repeated keys have none themselves, at any depth. -/
theorem Fields.WellKeyed.get? {raw : Fields} {name : String} {value : Value}
    (keyed : raw.WellKeyed) (h : Entries.get? raw name = some value) : value.DistinctKeys :=
  (Value.distinctKeys_object_iff.1 keyed).2 _ (Entries.mem_of_get?_eq_some h)

theorem Fields.WellKeyed.present? {raw : Fields} {name : String} {value : Value}
    (keyed : raw.WellKeyed) (h : AppManifest.present? raw name = some value) : value.DistinctKeys :=
  keyed.get? (present?_eq_some_iff.1 h).1

/-- The same for the value of a declared field, in the form that the laws on slots have it. -/
theorem Field.distinctKeys_of_given {field : Field} {raw : Fields} {value : Value}
    (keyed : raw.WellKeyed) (h : present? raw field.name = some value) : value.DistinctKeys :=
  keyed.present? h

namespace Schema

/-- The check of a schema turns a bag into `found` at some path. -/
def Completes (schema : Schema) (raw found : Fields) : Prop :=
  ∃ path, checkSchema schema raw path = .ok found

/-- The check of a schema turns a bag into `found` at every path. -/
def Accepts (schema : Schema) (raw found : Fields) : Prop :=
  ∀ path, checkSchema schema raw path = .ok found

/-- No name is declared twice. -/
def DistinctNames (schema : Schema) : Prop := (schema.fields.map (·.name)).Nodup

instance (schema : Schema) : Decidable schema.DistinctNames :=
  inferInstanceAs (Decidable (List.Nodup _))

variable {schema : Schema} {raw found : Fields}

/-! ### Declared fields -/

/-- **Each declared field stands for itself**, and only declared keys occur. By induction on the
fields; a name that were declared twice would stand in front of itself. -/
theorem of_checkDeclared {fields : List Field} (distinct : (fields.map (·.name)).Nodup)
    {path : Path} {declared : Fields} (h : checkDeclared fields raw path = .ok declared) :
    (∀ field ∈ fields, Field.Contributes field raw (Entries.get? declared field.name)) ∧
      (Entries.keys declared).Sublist (fields.map (·.name)) := by
  induction fields generalizing declared with
  | nil =>
    rw [checkDeclared, Except.ok.injEq] at h
    subst h
    exact ⟨fun field hmem ↦ absurd hmem List.not_mem_nil, List.Sublist.refl _⟩
  | cons first rest ih =>
    rw [List.map_cons, List.nodup_cons] at distinct
    rw [checkDeclared] at h
    obtain ⟨part, hpart, h⟩ := Checked.bind_eq_ok.1 h
    obtain ⟨others, hothers, h⟩ := Checked.bind_eq_ok.1 h
    obtain ⟨value, hvalue, rfl⟩ := Field.contributes_of_checkField hpart
    obtain ⟨hrest, hkeys⟩ := ih distinct.2 hothers
    obtain rfl := Except.ok.inj h
    -- no later field has the name of the first one, so neither hides the other
    have hfirst : Entries.get? others first.name = none :=
      Entries.get?_eq_none_iff.2 fun hmem ↦ distinct.1 (hkeys.subset hmem)
    refine ⟨fun field hmem ↦ ?_, ?_⟩
    · rw [Entries.get?_append]
      rcases List.mem_cons.1 hmem with rfl | hmem
      · rw [hfirst]
        cases value <;> simpa [Field.entriesOf, Entries.get?] using hvalue
      · have hne : first.name ≠ field.name := fun e ↦
          distinct.1 (e ▸ List.mem_map.2 ⟨field, hmem, rfl⟩)
        cases value <;> simpa [Field.entriesOf, Entries.get?, hne] using hrest field hmem
    · cases value with
      | none => exact hkeys.cons _
      | some value => exact hkeys.cons_cons _

/-- What the check does with undeclared fields, with the loop over the bag replaced by the list of
them: an open schema takes them, a closed one fails at the first. -/
theorem checkUndeclared_eq (schema : Schema) (path : Path) (raw : Fields) :
    checkUndeclared schema path raw =
      if schema.isOpen then .ok (schema.undeclared raw)
      else
        match schema.undeclared raw with
        | [] => .ok []
        | (key, _) :: _ => .error (.unknownField (path.key key) key) :=
  rfl

/-- If the check of the undeclared fields passes, they are all kept, and there are none where the
schema is closed. -/
theorem checkUndeclared_eq_ok {path : Path} {undeclared : Fields}
    (h : checkUndeclared schema path raw = .ok undeclared) :
    undeclared = schema.undeclared raw ∧
      (schema.isOpen = true ∨ undeclared = []) := by
  rw [checkUndeclared_eq] at h
  split at h
  · next hopen => exact ⟨(Except.ok.inj h).symm, Or.inl hopen⟩
  · split at h
    · next hnone =>
      obtain rfl := Except.ok.inj h
      exact ⟨hnone.symm, Or.inr rfl⟩
    · exact absurd h (by simp)

/-- A checked bag is its declared part, then its undeclared part. Keys of the raw bag may be
repeated here, so the two parts are stored and not just put together. -/
theorem exists_parts_of_completes (distinct : schema.DistinctNames)
    (h : schema.Completes raw found) :
    ∃ declared, found = Entries.ofList (declared ++ schema.undeclared raw) ∧
      (∀ field ∈ schema.fields, Field.Contributes field raw (Entries.get? declared field.name)) ∧
      (Entries.keys declared).Sublist (schema.fields.map (·.name)) ∧
      (schema.isOpen = true ∨ schema.undeclared raw = []) := by
  obtain ⟨path, h⟩ := h
  rw [checkSchema] at h
  obtain ⟨declared, hdeclared, h⟩ := Checked.bind_eq_ok.1 h
  obtain ⟨undeclared, hundeclared, h⟩ := Checked.bind_eq_ok.1 h
  obtain ⟨rfl, hopen⟩ := checkUndeclared_eq_ok hundeclared
  obtain ⟨hfields, hkeys⟩ := of_checkDeclared distinct hdeclared
  exact ⟨declared, (Except.ok.inj h).symm, hfields, hkeys, hopen⟩

/-- **Under a declared key stands what the check of that field contributes.** The other fields of
the bag have no influence on it. -/
theorem contributes_of_completes (distinct : schema.DistinctNames) (h : schema.Completes raw found)
    {field : Field} (hmem : field ∈ schema.fields) :
    Field.Contributes field raw (Entries.get? found field.name) := by
  obtain ⟨declared, rfl, hfields, hkeys, -⟩ := exists_parts_of_completes distinct h
  have hname : schema.declares field.name = true :=
    SchemaOf.declares_iff.2 (List.mem_map.2 ⟨field, hmem, rfl⟩)
  -- undeclared entries are written last, but none of them under a declared key
  have hother : Entries.get? (schema.undeclared raw).reverse field.name = none := by
    rw [Entries.get?_eq_none_iff, Entries.keys, List.map_reverse, List.mem_reverse]
    exact SchemaOf.not_mem_keys_undeclared hname
  rw [Entries.get?_ofList, List.reverse_append, Entries.get?_append, hother, Option.none_or,
    Entries.get?_reverse (hkeys.nodup distinct)]
  exact hfields field hmem

/-- With distinct keys nothing is overwritten, so a checked bag is its two parts. -/
theorem exists_append_of_completes (distinct : schema.DistinctNames)
    (keyed : Entries.DistinctKeys raw) (h : schema.Completes raw found) :
    ∃ declared, found = declared ++ schema.undeclared raw ∧
      (Entries.keys declared).Sublist (schema.fields.map (·.name)) ∧
      ∀ key ∈ Entries.keys declared, schema.declares key = true := by
  obtain ⟨declared, rfl, -, hkeys, -⟩ := exists_parts_of_completes distinct h
  have hdeclared : ∀ key ∈ Entries.keys declared, schema.declares key = true := fun key hmem ↦
    SchemaOf.declares_iff.2 (hkeys.subset hmem)
  have hall : Entries.DistinctKeys (declared ++ schema.undeclared raw) :=
    SchemaOf.distinctKeys_append_undeclared (hkeys.nodup distinct) keyed hdeclared
  exact ⟨declared, Entries.ofList_eq_self hall, hkeys, hdeclared⟩

/-- **Undeclared fields are left as they are**, if no key is repeated. They also keep their order.
-/
theorem undeclared_of_completes (distinct : schema.DistinctNames) (keyed : Entries.DistinctKeys raw)
    (h : schema.Completes raw found) :
    schema.undeclared found = schema.undeclared raw := by
  obtain ⟨declared, rfl, -, hdeclared⟩ := exists_append_of_completes distinct keyed h
  rw [SchemaOf.undeclared_append, SchemaOf.undeclared_eq_nil hdeclared, List.nil_append,
    SchemaOf.undeclared_eq_self fun key ↦ SchemaOf.not_declares_of_mem_keys]

/-- **A checked bag is what stands under the declared names, in the order of the schema**, and
behind it the undeclared fields. -/
theorem eq_flatMap_append_of_completes (distinct : schema.DistinctNames)
    (keyed : Entries.DistinctKeys raw) (h : schema.Completes raw found) :
    found = (schema.fields.flatMap fun field ↦
      Field.entriesOf field.name (Entries.get? found field.name)) ++ schema.undeclared raw := by
  obtain ⟨declared, rfl, hkeys, hdeclared⟩ := exists_append_of_completes distinct keyed h
  have hget : ∀ field ∈ schema.fields,
      Entries.get? (declared ++ schema.undeclared raw) field.name =
        Entries.get? declared field.name := by
    intro field hmem
    have hname : schema.declares field.name = true :=
      SchemaOf.declares_iff.2 (List.mem_map.2 ⟨field, hmem, rfl⟩)
    rw [Entries.get?_append, Entries.get?_eq_none_iff.2 (SchemaOf.not_mem_keys_undeclared hname),
      Option.or_none]
  have hparts := List.flatMap_congr fun field hmem ↦
    congrArg (Field.entriesOf field.name) (hget field hmem)
  rw [hparts]
  exact congrArg (· ++ schema.undeclared raw)
    ((Entries.eq_flatMap_of_keys_sublist distinct hkeys).trans (List.flatMap_map ..))

/-! ### Putting the checks of fields together -/

/-- Declared fields that pass one by one pass together, at every path with the same result. -/
theorem exists_checkDeclared {fields : List Field}
    (h : ∀ field ∈ fields, Field.Accepts field raw) :
    ∃ declared, ∀ path, checkDeclared fields raw path = .ok declared := by
  induction fields with
  | nil => exact ⟨[], fun _ ↦ rfl⟩
  | cons first rest ih =>
    obtain ⟨part, hpart⟩ := h first List.mem_cons_self
    obtain ⟨others, hothers⟩ := ih fun field hmem ↦ h field (List.mem_cons_of_mem _ hmem)
    refine ⟨part ++ others, fun path ↦ ?_⟩
    rw [checkDeclared, hpart, Checked.bind_eq_ok]
    exact ⟨part, rfl, Checked.bind_eq_ok.2 ⟨others, hothers path, rfl⟩⟩

/-- **A bag passes if each of its declared fields does** and the schema takes its other keys. The
converse is `contributes_of_completes`. -/
theorem exists_accepts (h : ∀ field ∈ schema.fields, Field.Accepts field raw)
    (taken : schema.isOpen = true ∨ ∀ key ∈ Entries.keys raw, schema.declares key = true) :
    ∃ found, schema.Accepts raw found := by
  obtain ⟨declared, hdeclared⟩ := exists_checkDeclared h
  have hundeclared : ∃ undeclared, ∀ path, checkUndeclared schema path raw = .ok undeclared := by
    refine ⟨schema.undeclared raw, fun path ↦ ?_⟩
    rw [checkUndeclared_eq]
    rcases taken with hopen | hkeys
    · rw [if_pos hopen]
    · rw [SchemaOf.undeclared_eq_nil hkeys]
      exact ite_self _
  obtain ⟨undeclared, hundeclared⟩ := hundeclared
  refine ⟨Entries.ofList (declared ++ undeclared), fun path ↦ ?_⟩
  rw [checkSchema, hdeclared]
  exact Checked.bind_eq_ok.2
    ⟨declared, rfl, Checked.bind_eq_ok.2 ⟨undeclared, hundeclared path, rfl⟩⟩

end Schema

end AppManifest
