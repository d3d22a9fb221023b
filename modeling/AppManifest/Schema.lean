import AppManifest.Kind
import AppManifest.Value
/-!
# Shapes and schemas

A shape says what a value may be. A schema is the shape of an object: its declared fields in
order, what happens where one is absent, and whether other fields are accepted.
-/

namespace AppManifest

/-- What happens where a declared field is absent. -/
inductive Presence where
  /-- Absence is a violation. -/
  | required
  /-- The field stays absent. -/
  | optional
  /-- The field takes a value. -/
  | default (value : Value)

/-- A declared field, over the type of shapes. -/
structure FieldOf (σ : Type) where
  name : String
  shape : σ
  presence : Presence

/-- Declared fields in order, and whether undeclared ones are kept or refused. -/
structure SchemaOf (σ : Type) where
  fields : List (FieldOf σ)
  isOpen : Bool

/-- The shape that a value must have. -/
inductive Shape where
  | string
  /-- A number that is at least zero. -/
  | number
  /-- An integer from zero to `max`. -/
  | integer (max : UInt64)
  | bool
  /-- Any value, kept as it is. -/
  | any
  | object (schema : SchemaOf Shape)
  | list (inner : Shape)
  /-- An object with arbitrary keys and values of one shape. -/
  | map (inner : Shape)
  /-- A reference to a block of a kind. -/
  | reference (kind : Kind)
  /-- An object with arbitrary keys and type expressions for values. -/
  | structType

/-- A declared field. -/
abbrev Field := FieldOf Shape

/-- The shape of an object. -/
abbrev Schema := SchemaOf Shape

namespace Shape

/-- The greatest integer that a value can hold. -/
def greatestInteger : UInt64 := 9223372036854775807

/-- Any integer that is at least zero. -/
def naturalNumber : Shape := .integer greatestInteger

/-- How a shape is called in messages. -/
def describe : Shape → String
  | .string => "string"
  | .number => "non-negative number"
  | .integer max =>
    if greatestInteger ≤ max then "non-negative integer"
    else "integer between 0 and " ++ toString max.toNat
  | .bool => "boolean"
  | .any => "any value"
  | .object _ => "object"
  | .list inner => "list of " ++ describe inner
  | .map inner => "map of " ++ describe inner
  | .reference kind => "reference to " ++ kind.name
  | .structType => "struct type description"

end Shape

namespace SchemaOf

variable {σ : Type}

/-- A schema that refuses undeclared fields. -/
def closed (fields : List (FieldOf σ)) : SchemaOf σ := ⟨fields, false⟩

/-- A schema that keeps undeclared fields. -/
def opened (fields : List (FieldOf σ)) : SchemaOf σ := ⟨fields, true⟩

/-- The first declared field with a name. -/
def field? (schema : SchemaOf σ) (name : String) : Option (FieldOf σ) :=
  schema.fields.find? (·.name == name)

/-- Whether a field is declared. -/
def declares (schema : SchemaOf σ) (name : String) : Bool := (schema.field? name).isSome

end SchemaOf

end AppManifest
