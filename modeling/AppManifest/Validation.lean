import AppManifest.Schema
import AppManifest.Error
import AppManifest.Binary64.Shortest
/-!
# Validation

Checks a value against a shape and completes it: inside every object with a schema the declared
fields come first, in the order of the schema, absent ones with a default are filled in, and
undeclared ones follow if the schema is open. A declared field that is `null` counts as absent.
The walk stops at the first violation, which carries the path of the offending value.
-/

namespace AppManifest

/-- The result of a check. -/
abbrev Checked (α : Type) := Except Error α

namespace Shape

/-- The violation of a shape by what was found at a path. -/
def violation {α : Type} (shape : Shape) (path : Path) (actual : String) : Checked α :=
  .error (.schemaViolation path shape.describe actual)

/-- How a value is called that a shape refuses: numbers that are out of range are shown. -/
def refused : Shape → Value → String
  | .integer _, .int i => "integer " ++ toString i.toInt
  | .number, .int i => "integer " ++ toString i.toInt
  | .number, .float x => "number " ++ x.positionalText
  | _, value => value.typeName

end Shape

namespace TypeExpr

/-- How a type expression is called in messages. -/
def description : String := "type expression"

mutual

/-- Check that a value is a type expression: a type name, a reference, a list of one type
expression, or an object of type expressions. -/
def check : Value → Path → Checked Unit
  | .string _, _ => .ok ()
  | .reference _, _ => .ok ()
  | .list [item], path => check item (path.index 0)
  | .list items, path =>
    .error (.schemaViolation path description
      ("list of " ++ toString items.length ++ " elements"))
  | .object fields, path => checkFields fields path
  | value, path => .error (.schemaViolation path description value.typeName)

/-- Check that every value of an object is a type expression. -/
def checkFields : List (String × Value) → Path → Checked Unit
  | [], _ => .ok ()
  | (name, value) :: rest, path => do
    check value (path.key name)
    checkFields rest path

end

end TypeExpr

/-- Check the elements of a list from an index on. -/
def checkItems (check : Value → Path → Checked Value) (path : Path) :
    Nat → List Value → Checked (List Value)
  | _, [] => .ok []
  | i, item :: rest => do
    let item ← check item (path.index i)
    let rest ← checkItems check path (i + 1) rest
    .ok (item :: rest)

/-- Check the values of an object, whatever its keys. -/
def checkEntries (check : Value → Path → Checked Value) (path : Path) :
    Fields → Checked Fields
  | [] => .ok []
  | (key, value) :: rest => do
    let value ← check value (path.key key)
    let rest ← checkEntries check path rest
    .ok ((key, value) :: rest)

/-- Check the fields that a schema does not declare: an open schema keeps them, a closed one
refuses the first of them. -/
def checkUndeclared {σ : Type} (schema : SchemaOf σ) (path : Path) (raw : Fields) :
    Checked Fields :=
  let undeclared := raw.filter fun entry ↦ !schema.declares entry.1
  if schema.isOpen then .ok undeclared
  else
    match undeclared with
    | [] => .ok []
    | (key, _) :: _ => .error (.unknownField (path.key key) key)

/-- The value of a declared field, `null` counting as absent. -/
def given? (raw : Fields) (name : String) : Option Value :=
  (Entries.get? raw name).filter (!·.isNull)

mutual

/-- Check a value against a shape. -/
def Shape.check : Shape → Value → Path → Checked Value
  | .any, value, _ => .ok value
  | .string, .string s, _ => .ok (.string s)
  | .bool, .bool b, _ => .ok (.bool b)
  | .number, .int i, path =>
    if 0 ≤ i.toInt then .ok (.int i)
    else Shape.number.violation path (Shape.number.refused (.int i))
  | .number, .float x, path =>
    if x.isNonnegative then .ok (.float x)
    else Shape.number.violation path (Shape.number.refused (.float x))
  | .integer max, .int i, path =>
    if 0 ≤ i.toInt ∧ i.toInt ≤ max.toNat then .ok (.int i)
    else (Shape.integer max).violation path ((Shape.integer max).refused (.int i))
  | .object schema, .object raw, path => do
    let fields ← checkSchema schema raw path
    .ok (.object fields)
  | .list inner, .list items, path => do
    let items ← checkItems inner.check path 0 items
    .ok (.list items)
  | .map inner, .object raw, path => do
    let fields ← checkEntries inner.check path raw
    .ok (.object fields)
  | .reference kind, .reference target, path =>
    match target.kind with
    | some hint =>
      if hint = kind.name then .ok (.reference target)
      else (Shape.reference kind).violation path ("reference to " ++ hint)
    | none => .ok (.reference target)
  | .structType, .object raw, path => do
    TypeExpr.checkFields raw path
    .ok (.object raw)
  | shape, value, path => shape.violation path (shape.refused value)

/-- Check a field bag against a schema. -/
def checkSchema : SchemaOf Shape → Fields → Path → Checked Fields
  | ⟨fields, isOpen⟩, raw, path => do
    let declared ← checkDeclared fields raw path
    let undeclared ← checkUndeclared ⟨fields, isOpen⟩ path raw
    .ok (Entries.ofList (declared ++ undeclared))

/-- Check the declared fields of a schema, in order. -/
def checkDeclared : List (FieldOf Shape) → Fields → Path → Checked Fields
  | [], _, _ => .ok []
  | field :: rest, raw, path => do
    let found ← checkField field raw path
    let others ← checkDeclared rest raw path
    .ok (found ++ others)

/-- Check one declared field: the entry that it contributes, if any. -/
def checkField : FieldOf Shape → Fields → Path → Checked Fields
  | ⟨name, shape, presence⟩, raw, path =>
    match given? raw name with
    | some value => do
      let value ← shape.check value (path.key name)
      .ok [(name, value)]
    | none =>
      match presence with
      | .required => shape.violation (path.key name) "missing"
      | .optional => .ok []
      | .default value => .ok [(name, value)]

end

/-- Check a field bag against a schema. -/
def Schema.check (schema : Schema) (raw : Fields) (path : Path) : Checked Fields :=
  checkSchema schema raw path

end AppManifest
