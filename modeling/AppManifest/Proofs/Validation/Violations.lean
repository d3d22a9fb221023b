import AppManifest.Proofs.Path
import AppManifest.Proofs.Validation.Bag
/-!
# All violations of a shape

A check stops at the first violation. The walk here does not stop: `Shape.violations` lists
everything that is wrong with a value, depth first, in the order in which a reader of the schema
would find it.

* Of an object with a schema, the declared fields come first, in the order of the schema; the keys
  that a closed schema does not declare come last, in the order of the object.
* The elements of a list, and the entries of a map or of a struct description, come in their order.
* Everything else is one place in the value, which either has its shape or is one violation.

The walk is written from the entries of objects, the segments of paths and the texts of violations.
It looks a declared field up by its name and counts no entry and a `null` alike, as missing; the
place of what stands under a key or an index is the path with that one segment behind it; and what
is expected at a place and what was found there are spelled out (`Shape.expected`,
`Shape.described`).

`Shape.failure?_check` says that a check fails with the first of these violations, and
`Shape.check_reports_first_violation` what that means for its result. Nothing is assumed of the
shape and the value: a schema may declare a name twice, and an object may repeat a key.
-/

namespace AppManifest

namespace TypeExpr

mutual

/-- Everything in a value that is no type expression. -/
def violations : Value → Path → List Error
  | .string _, _ | .reference _, _ => []
  | .list [item], path => violations item (path.extend [.index 0])
  | .list items, path =>
    [.schemaViolation path "type expression"
      ("list of " ++ toString items.length ++ " elements")]
  | .object fields, path => fieldViolations fields path
  | .null, path => [.schemaViolation path "type expression" "null"]
  | .bool _, path => [.schemaViolation path "type expression" "boolean"]
  | .int _, path => [.schemaViolation path "type expression" "integer"]
  | .float _, path => [.schemaViolation path "type expression" "number"]

/-- Everything under the keys of an object that is no type expression. -/
def fieldViolations : List (String × Value) → Path → List Error
  | [], _ => []
  | (name, value) :: rest, path =>
    violations value (path.extend [.key name]) ++ fieldViolations rest path

end

end TypeExpr

namespace Shape

/-- Whether a value has a shape that does not look into it. Both zeros and the positive infinity are
numbers that are at least zero. -/
def fits : Shape → Value → Bool
  | .any, _ => true
  | .string, .string _ => true
  | .bool, .bool _ => true
  | .number, .int i => decide (0 ≤ i.toInt)
  | .number, .float (.finite negative magnitude) =>
    decide (negative = false ∨ magnitude.val = 0)
  | .number, .float (.infinity negative) => decide (negative = false)
  | .integer max, .int i => decide (0 ≤ i.toInt ∧ i.toInt ≤ max.toNat)
  | .reference kind, .reference target =>
    decide (target.kind = none ∨ target.kind = some kind.name)
  | _, _ => false

/-- What is said to be expected where a value is to have a shape. Of an integer the bound is given,
unless it is the greatest integer there is or more, so that every integer from zero on is within it.
-/
def expected : Shape → String
  | .any => "any value"
  | .string => "string"
  | .bool => "boolean"
  | .number => "non-negative number"
  | .integer max =>
    if max.toNat < 9223372036854775807 then "integer between 0 and " ++ toString max.toNat
    else "non-negative integer"
  | .reference kind => "reference to " ++ kind.name
  | .object _ => "object"
  | .list inner => "list of " ++ inner.expected
  | .map inner => "map of " ++ inner.expected
  | .structType => "struct type description"

/-- What a value is said to be where it does not have a shape: the name of its type, and more where
the type would be the right one. -/
def described : Shape → Value → String
  | .integer _, .int i | .number, .int i => "integer " ++ toString i.toInt
  | .number, .float x => "number " ++ x.positionalText
  | .reference _, .reference ⟨_, some hint⟩ => "reference to " ++ hint
  | _, .null => "null"
  | _, .bool _ => "boolean"
  | _, .int _ => "integer"
  | _, .float _ => "number"
  | _, .string _ => "string"
  | _, .reference _ => "reference"
  | _, .list _ => "list"
  | _, .object _ => "object"

mutual

/-- Everything that is wrong with a value that is to have a shape. -/
def violations : Shape → Value → Path → List Error
  | .object schema, .object raw, path => schemaViolations schema raw path
  | .list inner, .list items, path =>
    items.zipIdx.flatMap fun item ↦ inner.violations item.1 (path.extend [.index item.2])
  | .map inner, .object fields, path =>
    fields.flatMap fun entry ↦ inner.violations entry.2 (path.extend [.key entry.1])
  | .structType, .object fields, path => TypeExpr.fieldViolations fields path
  | shape, value, path =>
    if shape.fits value then []
    else [.schemaViolation path shape.expected (shape.described value)]

/-- Everything that is wrong with a field bag that is to have a schema. -/
def schemaViolations : SchemaOf Shape → Fields → Path → List Error
  | ⟨fields, isOpen⟩, raw, path =>
    let unknown := (Entries.keys raw).filter (· ∉ fields.map (·.name))
    declaredViolations fields raw path ++
      if isOpen then [] else unknown.map fun key ↦ .unknownField (path.extend [.key key]) key

/-- Everything that is wrong with the declared fields of a bag. -/
def declaredViolations : List (FieldOf Shape) → Fields → Path → List Error
  | [], _, _ => []
  | field :: rest, raw, path =>
    fieldViolations field raw path ++ declaredViolations rest raw path

/-- Everything that is wrong with one declared field of a bag. A field that is not there or is
`null` is missing if it is required, and nothing is wrong with it otherwise. -/
def fieldViolations : FieldOf Shape → Fields → Path → List Error
  | ⟨name, shape, presence⟩, raw, path =>
    match Entries.get? raw name with
    | none | some .null =>
      match presence with
      | .required => [.schemaViolation (path.extend [.key name]) shape.expected "missing"]
      | .optional | .default _ => []
    | some value => shape.violations value (path.extend [.key name])

end

end Shape

/-! ### Walks that stop and walks that do not -/

section

variable {run : Value → Path → Checked Value} {all : Value → Path → List Error}

/-- The elements of a list are checked one after the other, so the first violation is the first one
of the first element that has any. -/
theorem failure?_checkItems (h : ∀ value path, (run value path).failure? = (all value path).head?)
    (path : Path) (items : List Value) (i : Nat) :
    (checkItems run path i items).failure? =
      ((items.zipIdx i).flatMap fun item ↦ all item.1 (path.extend [.index item.2])).head? := by
  induction items generalizing i with
  | nil => rfl
  | cons item rest ih =>
    have hrest : ∀ first, (checkItems run path (i + 1) rest >>= fun others ↦
        (.ok (first :: others) : Checked (List Value))).failure? = _ := fun first ↦
      (Checked.failure?_map _ _).trans (ih (i + 1))
    rw [checkItems, Checked.failure?_bind hrest, h, List.zipIdx_cons, List.flatMap_cons,
      List.head?_append, Path.index_eq_extend]

/-- The same for the values of an object, whose keys are not looked at. -/
theorem failure?_checkEntries (h : ∀ value path, (run value path).failure? = (all value path).head?)
    (path : Path) (fields : Fields) :
    (checkEntries run path fields).failure? =
      (fields.flatMap fun entry ↦ all entry.2 (path.extend [.key entry.1])).head? := by
  induction fields with
  | nil => rfl
  | cons entry rest ih =>
    obtain ⟨key, value⟩ := entry
    have hrest : ∀ first, (checkEntries run path rest >>= fun others ↦
        (.ok ((key, first) :: others) : Checked Fields)).failure? = _ := fun first ↦
      (Checked.failure?_map _ _).trans ih
    rw [checkEntries, Checked.failure?_bind hrest, h, List.flatMap_cons, List.head?_append,
      Path.key_eq_extend]

end

namespace TypeExpr

mutual

/-- A value is refused as a type expression with the first violation in it. -/
theorem failure?_check : ∀ (value : Value) (path : Path),
    (check value path).failure? = (violations value path).head?
  | .string _, _ | .reference _, _ => rfl
  | .null, _ | .bool _, _ | .int _, _ | .float _, _ => rfl
  | .list [], _ | .list (_ :: _ :: _), _ => rfl
  | .list [item], path => failure?_check item (path.extend [.index 0])
  | .object fields, path => failure?_checkFields fields path

/-- The values of an object are refused in their order. -/
theorem failure?_checkFields : ∀ (fields : List (String × Value)) (path : Path),
    (checkFields fields path).failure? = (fieldViolations fields path).head?
  | [], _ => rfl
  | (name, value) :: rest, path => by
    rw [checkFields, fieldViolations, List.head?_append, ← failure?_check value,
      Checked.failure?_bind fun _ ↦ failure?_checkFields rest path, Path.key_eq_extend]

end

end TypeExpr

/-- A closed schema refuses the first key that it does not declare, in the order of the object. -/
theorem failure?_checkUndeclared (fields : List (FieldOf Shape)) (isOpen : Bool) (raw : Fields)
    (path : Path) :
    (checkUndeclared ⟨fields, isOpen⟩ path raw).failure? =
      (if isOpen then []
        else ((Entries.keys raw).filter (· ∉ fields.map (·.name))).map fun key ↦
          Error.unknownField (path.extend [.key key]) key).head? := by
  -- the check filters entries, the walk filters their keys
  have hkeys : (Entries.keys raw).filter (· ∉ fields.map (·.name)) =
      Entries.keys (SchemaOf.undeclared ⟨fields, isOpen⟩ raw) := by
    rw [SchemaOf.undeclared_eq_filter, Entries.keys, Entries.keys, List.filter_map]
    rfl
  rw [hkeys, Schema.checkUndeclared_eq]
  cases isOpen with
  | true => rfl
  | false =>
    cases SchemaOf.undeclared ⟨fields, false⟩ raw with
    | nil => rfl
    | cons entry rest => rfl

namespace Shape

/-- A floating point number has the shape of a number if it is at least zero. -/
theorem fits_float (x : Binary64) : fits .number (.float x) = true ↔ x.isNonnegative = true := by
  cases x <;> simp [fits, Binary64.isNonnegative]

variable {field : Field} {raw : Fields}

/-- What is wrong with a field that is present is what is wrong with its value. -/
theorem fieldViolations_of_present {value : Value} (h : present? raw field.name = some value)
    (path : Path) : fieldViolations field raw path =
      field.shape.violations value (path.extend [.key field.name]) := by
  obtain ⟨name, shape, presence⟩ := field
  obtain ⟨hget, hnull⟩ : Entries.get? raw name = some value ∧ value ≠ .null :=
    present?_eq_some_iff.1 h
  simp only [fieldViolations, hget]

/-- What is wrong with a field that is not present does not depend on why it is not. -/
theorem fieldViolations_of_absent (h : present? raw field.name = none) (path : Path) :
    fieldViolations field raw path =
      match field.presence with
      | .required =>
        [.schemaViolation (path.extend [.key field.name]) field.shape.expected "missing"]
      | .optional | .default _ => [] := by
  obtain ⟨name, shape, presence⟩ := field
  simp only [fieldViolations]
  rcases hget : Entries.get? raw name with - | value
  · rfl
  · cases value with
    | null => rfl
    | _ => exact absurd h (by simp [present?, hget])

/-- A message calls a shape by what is expected. -/
theorem describe_eq_expected : ∀ shape : Shape, shape.describe = shape.expected
  | .any | .string | .bool | .number | .reference _ | .object _ | .structType => rfl
  | .list inner => congrArg ("list of " ++ ·) (describe_eq_expected inner)
  | .map inner => congrArg ("map of " ++ ·) (describe_eq_expected inner)
  | .integer max => by
    have hgreatest : greatestInteger.toNat = 9223372036854775807 := rfl
    rw [describe, expected, ← hgreatest, ← ite_not]
    simp only [UInt64.le_iff_toNat_le, Nat.not_le]

/-- A violation is the failure of a check that reports it. -/
theorem failure?_violation (shape : Shape) (path : Path) (actual : String) :
    Checked.failure? (shape.violation path actual : Checked Value) =
      some (.schemaViolation path shape.expected actual) := by
  rw [violation, describe_eq_expected]
  rfl

/-- A place that is checked by itself is one violation at most. -/
theorem failure?_ite {p : Prop} [Decidable p] {accepted : Bool} (h : accepted = true ↔ p)
    (shape : Shape) (value : Value) (path : Path) (actual : String) :
    Checked.failure? (if p then (.ok value : Checked Value) else shape.violation path actual) =
      (if accepted then [] else [Error.schemaViolation path shape.expected actual]).head? := by
  by_cases hp : p
  · rw [if_pos hp, if_pos (h.2 hp)]
    rfl
  · rw [if_neg hp, if_neg (mt h.1 hp), failure?_violation]
    rfl

mutual

/-- **A check fails with the first violation.** The list on the right has them in the order in which
a check goes: elements and declared fields from the first to the last, then what no field declares.
-/
theorem failure?_check : ∀ (shape : Shape) (value : Value) (path : Path),
    (shape.check value path).failure? = (shape.violations value path).head?
  | .any, value, path => by cases value <;> rfl
  | .string, value, path => by
    cases value with
    | string s => rfl
    | _ => exact failure?_violation ..
  | .bool, value, path => by
    cases value with
    | bool b => rfl
    | _ => exact failure?_violation ..
  | .number, value, path => by
    cases value with
    | int i => exact failure?_ite decide_eq_true_iff _ _ _ _
    | float x => exact failure?_ite (fits_float x) _ _ _ _
    | _ => exact failure?_violation ..
  | .integer max, value, path => by
    cases value with
    | int i => exact failure?_ite decide_eq_true_iff _ _ _ _
    | _ => exact failure?_violation ..
  | .reference kind, value, path => by
    cases value with
    | reference target =>
      obtain ⟨name, hint | hint⟩ := target
      · rfl
      · refine failure?_ite ?_ (.reference kind) (.reference ⟨name, some hint⟩) path _
        simp [fits]
    | _ => exact failure?_violation ..
  | .object schema, value, path => by
    cases value with
    | object raw =>
      rw [check, violations, Checked.failure?_map, failure?_checkSchema schema raw path]
    | _ => exact failure?_violation ..
  | .list inner, value, path => by
    cases value with
    | list items =>
      rw [check, violations, Checked.failure?_map,
        failure?_checkItems (failure?_check inner) path items 0]
    | _ => exact failure?_violation ..
  | .map inner, value, path => by
    cases value with
    | object fields =>
      rw [check, violations, Checked.failure?_map,
        failure?_checkEntries (failure?_check inner) path fields]
    | _ => exact failure?_violation ..
  | .structType, value, path => by
    cases value with
    | object fields =>
      rw [check, violations, ← TypeExpr.failure?_checkFields]
      exact Checked.failure?_map _ _
    | _ => exact failure?_violation ..

/-- Of an object, the declared fields are checked before the undeclared ones. -/
theorem failure?_checkSchema : ∀ (schema : SchemaOf Shape) (raw : Fields) (path : Path),
    (checkSchema schema raw path).failure? = (schemaViolations schema raw path).head?
  | ⟨fields, isOpen⟩, raw, path => by
    have hundeclared : ∀ declared, (checkUndeclared ⟨fields, isOpen⟩ path raw >>= fun undeclared ↦
        (.ok (Entries.ofList (declared ++ undeclared)) : Checked Fields)).failure? = _ :=
      fun _ ↦ (Checked.failure?_map _ _).trans (failure?_checkUndeclared fields isOpen raw path)
    rw [checkSchema, Checked.failure?_bind hundeclared, failure?_checkDeclared fields raw path,
      schemaViolations, List.head?_append]

/-- The declared fields are checked in the order of the schema, and not of the object. -/
theorem failure?_checkDeclared : ∀ (fields : List (FieldOf Shape)) (raw : Fields) (path : Path),
    (checkDeclared fields raw path).failure? = (declaredViolations fields raw path).head?
  | [], _, _ => rfl
  | field :: rest, raw, path => by
    have hrest : ∀ found, (checkDeclared rest raw path >>= fun others ↦
        (.ok (found ++ others) : Checked Fields)).failure? = _ :=
      fun _ ↦ (Checked.failure?_map _ _).trans (failure?_checkDeclared rest raw path)
    rw [checkDeclared, Checked.failure?_bind hrest, failure?_checkField field raw path,
      declaredViolations, List.head?_append]

/-- A declared field is missing, or it is as its value is. -/
theorem failure?_checkField : ∀ (field : FieldOf Shape) (raw : Fields) (path : Path),
    (checkField field raw path).failure? = (fieldViolations field raw path).head?
  | ⟨name, shape, presence⟩, raw, path => by
    simp only [checkField, given?_eq_present?]
    rcases h : present? raw name with - | value
    · rw [fieldViolations_of_absent h]
      cases presence with
      | required => exact failure?_violation ..
      | _ => rfl
    · rw [fieldViolations_of_present h]
      exact (Checked.failure?_map _ _).trans (failure?_check shape value _)

end

/-- **The error of a check is the first violation of the whole value.** A check fails exactly if
there is a violation, with the first one in the order of the walk, and succeeds exactly if there is
none. This holds for every shape and every value, at every path. -/
theorem check_reports_first_violation (shape : Shape) (value : Value) (path : Path) :
    (∀ e, shape.check value path = .error e ↔ (shape.violations value path).head? = some e) ∧
      ((∃ found, shape.check value path = .ok found) ↔ shape.violations value path = []) := by
  refine ⟨fun e ↦ ?_, ?_⟩
  · rw [← failure?_check, Checked.failure?_eq_some_iff]
  · rw [← Checked.failure?_eq_none_iff, failure?_check, List.head?_eq_none_iff]

end Shape

end AppManifest
