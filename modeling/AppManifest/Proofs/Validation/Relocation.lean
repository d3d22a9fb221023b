import AppManifest.Validation
import AppManifest.Proofs.Path
/-!
# Checks at another place

A check hands its path on to the checks of the parts, one step longer each time, and looks at it
nowhere else. So where a check is made decides about nothing but the place that its error names: the
outcome is the same value everywhere, or the same error with the same steps behind the path
(`Relocates`). This is kept by everything that checks are made of: sequences
(`Relocates.bind`) and the steps into a part (`Relocates.key`, `Relocates.index`).

In a block the texts of these places are those of the paths with one suffix
(`Relocates.prefixesPath`).
-/

namespace AppManifest

variable {α β : Type}

/-- A check whose outcome does not depend on its path, but for the place of the error: that is the
path with the same steps behind it every time. -/
inductive Relocates (check : Path → Checked α) : Prop where
  | succeeds (a : α) (h : ∀ path, check path = .ok a)
  | violates (steps : List Segment) (expected actual : String)
      (h : ∀ path, check path = .error (.schemaViolation (path.extend steps) expected actual))
  | refuses (steps : List Segment) (field : String)
      (h : ∀ path, check path = .error (.unknownField (path.extend steps) field))

namespace Relocates

theorem pure (a : α) : Relocates fun _ ↦ (.ok a : Checked α) := .succeeds a fun _ ↦ rfl

theorem violation (expected actual : String) :
    Relocates fun path ↦ (.error (.schemaViolation path expected actual) : Checked α) :=
  .violates [] expected actual fun path ↦ by rw [Path.extend_nil]

/-- **A sequence of checks relocates if its parts do.** The first of them decides by itself whether
the second is made, and with which value. -/
theorem bind {first : Path → Checked α} {next : Path → α → Checked β} (hfirst : Relocates first)
    (hnext : ∀ a, Relocates (next · a)) : Relocates fun path ↦ first path >>= next path := by
  have hok : ∀ {a : α}, (∀ path, first path = .ok a) →
      ∀ path, (first path >>= next path) = next path a := fun ha path ↦ by rw [ha path]; rfl
  have herror : ∀ {e : Path → Error}, (∀ path, first path = .error (e path)) →
      ∀ path, (first path >>= next path) = .error (e path) := fun he path ↦ by rw [he path]; rfl
  rcases hfirst with ⟨a, ha⟩ | ⟨steps, expected, actual, he⟩ | ⟨steps, field, he⟩
  · rcases hnext a with ⟨b, hb⟩ | ⟨steps, expected, actual, he⟩ | ⟨steps, field, he⟩
    · exact .succeeds b fun path ↦ (hok ha path).trans (hb path)
    · exact .violates steps expected actual fun path ↦ (hok ha path).trans (he path)
    · exact .refuses steps field fun path ↦ (hok ha path).trans (he path)
  · exact .violates steps expected actual (herror he)
  · exact .refuses steps field (herror he)

/-- What is made of a result in the end depends on no path. -/
theorem map {check : Path → Checked α} (h : Relocates check) (f : α → β) :
    Relocates fun path ↦ check path >>= fun a ↦ .ok (f a) :=
  h.bind fun a ↦ .pure (f a)

/-- A check of what stands under a key has that key as the first of the steps. -/
theorem key {check : Path → Checked α} (h : Relocates check) (name : String) :
    Relocates fun path ↦ check (path.key name) := by
  rcases h with ⟨a, ha⟩ | ⟨steps, expected, actual, he⟩ | ⟨steps, field, he⟩
  · exact .succeeds a fun path ↦ ha (path.key name)
  · exact .violates (.key name :: steps) expected actual fun path ↦ by rw [he, Path.extend_key]
  · exact .refuses (.key name :: steps) field fun path ↦ by rw [he, Path.extend_key]

/-- A check of an element has its index as the first of the steps. -/
theorem index {check : Path → Checked α} (h : Relocates check) (i : Nat) :
    Relocates fun path ↦ check (path.index i) := by
  rcases h with ⟨a, ha⟩ | ⟨steps, expected, actual, he⟩ | ⟨steps, field, he⟩
  · exact .succeeds a fun path ↦ ha (path.index i)
  · exact .violates (.index i :: steps) expected actual fun path ↦ by rw [he, Path.extend_index]
  · exact .refuses (.index i :: steps) field fun path ↦ by rw [he, Path.extend_index]

end Relocates

/-! ### Every check relocates -/

/-- The check of elements relocates if that of one value does. By induction along the list, with the
index of the first element. -/
theorem relocates_checkItems {check : Value → Path → Checked Value}
    (h : ∀ value, Relocates (check value)) (items : List Value) (i : Nat) :
    Relocates fun path ↦ checkItems check path i items := by
  induction items generalizing i with
  | nil => exact .pure []
  | cons item rest ih =>
    simp only [checkItems]
    exact ((h item).index i).bind fun first ↦ (ih (i + 1)).map (first :: ·)

theorem relocates_checkEntries {check : Value → Path → Checked Value}
    (h : ∀ value, Relocates (check value)) (fields : Fields) :
    Relocates fun path ↦ checkEntries check path fields := by
  induction fields with
  | nil => exact .pure []
  | cons entry rest ih =>
    obtain ⟨key, value⟩ := entry
    simp only [checkEntries]
    exact ((h value).key key).bind fun first ↦ ih.map ((key, first) :: ·)

/-- The search for undeclared fields names the field in its error, at the path itself. -/
theorem relocates_checkUndeclared {σ : Type} (schema : SchemaOf σ) (raw : Fields) :
    Relocates fun path ↦ checkUndeclared schema path raw := by
  simp only [checkUndeclared]
  split
  · exact .pure _
  · split
    · exact .pure []
    · next key _ _ _ => exact .refuses [.key key] key fun path ↦ rfl

namespace TypeExpr

mutual

theorem relocates_check : ∀ value : Value, Relocates (check value)
  | .string _ | .reference _ => .pure ()
  | .null | .bool _ | .int _ | .float _ | .list [] | .list (_ :: _ :: _) => .violation _ _
  | .list [item] => (relocates_check item).index 0
  | .object fields => relocates_checkFields fields

/-- The check of a struct relocates. It and the check of a type call each other, one level deeper
each time. -/
theorem relocates_checkFields : ∀ fields : List (String × Value), Relocates (checkFields fields)
  | [] => .pure ()
  | (name, value) :: rest =>
    ((relocates_check value).key name).bind fun _ ↦ relocates_checkFields rest

end

end TypeExpr

namespace Shape

/-- A place that is checked by itself is the place of its violation. -/
theorem relocates_ite {p : Prop} [Decidable p] (shape : Shape) (a : α) (actual : String) :
    Relocates fun path ↦ if p then (.ok a : Checked α) else shape.violation path actual := by
  by_cases h : p
  · simp only [if_pos h]
    exact .pure a
  · simp only [if_neg h]
    exact .violation shape.describe actual

mutual

/-- **Checking a shape depends on the path for the place of the error alone.** The recursion is that
of the check: schemas, fields and shapes have a statement each. -/
theorem relocates_check : ∀ (shape : Shape) (value : Value), Relocates (shape.check value)
  | .any, value => by cases value <;> exact .pure _
  | .string, value => by
    cases value with
    | string s => exact .pure _
    | _ => exact .violation _ _
  | .bool, value => by
    cases value with
    | bool b => exact .pure _
    | _ => exact .violation _ _
  | .number, value => by
    cases value with
    | int i => exact relocates_ite .number _ _
    | float x => exact relocates_ite .number _ _
    | _ => exact .violation _ _
  | .integer max, value => by
    cases value with
    | int i => exact relocates_ite (.integer max) _ _
    | _ => exact .violation _ _
  | .reference kind, value => by
    cases value with
    | reference target =>
      obtain ⟨name, hint | hint⟩ := target
      · exact .pure _
      · exact relocates_ite (.reference kind) _ _
    | _ => exact .violation _ _
  | .object schema, value => by
    cases value with
    | object raw => exact (relocates_checkSchema schema raw).map Value.object
    | _ => exact .violation _ _
  | .list inner, value => by
    cases value with
    | list items => exact (relocates_checkItems (relocates_check inner) items 0).map Value.list
    | _ => exact .violation _ _
  | .map inner, value => by
    cases value with
    | object fields =>
      exact (relocates_checkEntries (relocates_check inner) fields).map Value.object
    | _ => exact .violation _ _
  | .structType, value => by
    cases value with
    | object fields => exact (TypeExpr.relocates_checkFields fields).map fun _ ↦ Value.object fields
    | _ => exact .violation _ _

theorem relocates_checkSchema : ∀ (schema : SchemaOf Shape) (raw : Fields),
    Relocates (checkSchema schema raw)
  | ⟨fields, isOpen⟩, raw =>
    (relocates_checkDeclared fields raw).bind fun declared ↦
      (relocates_checkUndeclared ⟨fields, isOpen⟩ raw).map fun undeclared ↦
        Entries.ofList (declared ++ undeclared)

theorem relocates_checkDeclared : ∀ (fields : List (FieldOf Shape)) (raw : Fields),
    Relocates (checkDeclared fields raw)
  | [], _ => .pure []
  | field :: rest, raw =>
    (relocates_checkField field raw).bind fun found ↦
      (relocates_checkDeclared rest raw).map (found ++ ·)

theorem relocates_checkField : ∀ (field : FieldOf Shape) (raw : Fields),
    Relocates (checkField field raw)
  | ⟨name, shape, presence⟩, raw => by
    show Relocates fun path ↦ checkField ⟨name, shape, presence⟩ raw path
    simp only [checkField]
    cases given? raw name with
    | some value => exact ((relocates_check shape value).key name).map fun found ↦ [(name, found)]
    | none =>
      cases presence with
      | required => exact (Relocates.violation shape.describe "missing").key name
      | optional | default _ => exact .pure _

end

end Shape

/-! ### Places in a block -/

/-- A check whose outcome in a block does not depend on its path, but for the text of the place that
the error names: that is the text of the path with the same suffix every time. -/
inductive PrefixesPath (check : Path → Checked α) : Prop where
  | succeeds (a : α) (h : ∀ path, path.InBlock → check path = .ok a)
  | violates (suffix expected actual : String) (isSuffix : Path.IsSuffix suffix)
      (h : ∀ path, path.InBlock → ∃ place,
        check path = .error (.schemaViolation place expected actual) ∧
          place.text = path.text ++ suffix)
  | refuses (suffix field : String) (isSuffix : Path.IsSuffix suffix)
      (h : ∀ path, path.InBlock → ∃ place,
        check path = .error (.unknownField place field) ∧ place.text = path.text ++ suffix)

/-- In a block the steps behind the path are a suffix of its text. Outside of one the first step
would lack the point in front of it. -/
theorem Relocates.prefixesPath {check : Path → Checked α} (h : Relocates check) :
    PrefixesPath check := by
  rcases h with ⟨a, ha⟩ | ⟨steps, expected, actual, he⟩ | ⟨steps, field, he⟩
  · exact .succeeds a fun path _ ↦ ha path
  · exact .violates (Path.suffix steps) expected actual (Path.isSuffix_suffix steps)
      fun path hpath ↦ ⟨path.extend steps, he path, hpath.text_extend steps⟩
  · exact .refuses (Path.suffix steps) field (Path.isSuffix_suffix steps)
      fun path hpath ↦ ⟨path.extend steps, he path, hpath.text_extend steps⟩

/-- **The path of a check only stands in front of the place that its error names.** In blocks of any
kind and name, and at any place within them, a check of one value against one shape has one result,
or one error with the same expectation, finding and field, at a place whose text is that of the path
with one suffix. The same holds for checks of a field bag against a schema. -/
theorem Shape.check_prefixes_path :
    (∀ (shape : Shape) (value : Value), PrefixesPath (shape.check value)) ∧
      ∀ (schema : Schema) (raw : Fields), PrefixesPath (schema.check raw) :=
  ⟨fun shape value ↦ (relocates_check shape value).prefixesPath,
    fun schema raw ↦ (relocates_checkSchema schema raw).prefixesPath⟩

end AppManifest
