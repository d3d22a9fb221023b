import AppManifest.Entries
import AppManifest.Binary64
/-!
# Field values

The untyped values that blocks hold in their fields. A value is a scalar, a reference to another
block, a list, or an object; objects keep the order of their keys. Equality of values ignores
that order and compares floating point numbers numerically.
-/

namespace AppManifest

/-- A reference to another block by name, with the kind that the place of the reference asks for
where that is known. -/
structure BlockRef where
  name : String
  kind : Option String
  deriving DecidableEq, Repr

/-- An untyped field value. -/
inductive Value where
  | null
  | bool (b : Bool)
  | int (i : Int64)
  | float (x : Binary64)
  | string (s : String)
  | reference (target : BlockRef)
  | list (items : List Value)
  /-- Keys and values in order, no key twice in any value that was read. -/
  | object (fields : List (String × Value))

/-- The fields of a block or of a nested object, in order. -/
abbrev Fields := Entries Value

instance : Inhabited Value := ⟨.null⟩

namespace Value

/-- The name of the type of a value, as messages give it. -/
def typeName : Value → String
  | .null => "null"
  | .bool _ => "boolean"
  | .int _ => "integer"
  | .float _ => "number"
  | .string _ => "string"
  | .reference _ => "reference"
  | .list _ => "list"
  | .object _ => "object"

/-- Whether a value is `null`. -/
def isNull : Value → Bool
  | .null => true
  | _ => false

/-- The text of a string. -/
def string? : Value → Option String
  | .string s => some s
  | _ => none

/-- The target of a reference. -/
def reference? : Value → Option BlockRef
  | .reference target => some target
  | _ => none

/-- The elements of a list. -/
def list? : Value → Option (List Value)
  | .list items => some items
  | _ => none

/-- The fields of an object. -/
def object? : Value → Option Fields
  | .object fields => some fields
  | _ => none

mutual

/-- Equality of values: objects may list their keys in any order, and floating point numbers are
compared numerically. An integer never equals a floating point number. -/
def same : Value → Value → Bool
  | .null, .null => true
  | .bool a, .bool b => a == b
  | .int a, .int b => a == b
  | .float a, .float b => a.same b
  | .string a, .string b => a == b
  | .reference a, .reference b => a == b
  | .list as, .list bs => sameItems as bs
  | .object as, .object bs => as.length == bs.length && sameUnderKeys as bs
  | _, _ => false

/-- Equality of lists, element by element. -/
def sameItems : List Value → List Value → Bool
  | [], [] => true
  | a :: as, b :: bs => same a b && sameItems as bs
  | _, _ => false

/-- Whether every field of the first object has an equal one under its key in the second. -/
def sameUnderKeys : List (String × Value) → List (String × Value) → Bool
  | [], _ => true
  | (key, a) :: as, bs =>
    (match Entries.get? bs key with
      | some b => same a b
      | none => false) && sameUnderKeys as bs

end

mutual

/-- No object within the value repeats a key. -/
def DistinctKeys : Value → Prop
  | .list items => itemsDistinct items
  | .object fields => (fields.map Prod.fst).Nodup ∧ fieldsDistinct fields
  | _ => True

/-- No object within the values repeats a key. -/
def itemsDistinct : List Value → Prop
  | [] => True
  | item :: rest => DistinctKeys item ∧ itemsDistinct rest

/-- No object under the keys repeats a key. -/
def fieldsDistinct : List (String × Value) → Prop
  | [] => True
  | (_, value) :: rest => DistinctKeys value ∧ fieldsDistinct rest

end

end Value

namespace Fields

/-- Equality of field bags: the same keys, in any order, with equal values. -/
def same (a b : Fields) : Bool := a.length == b.length && Value.sameUnderKeys a b

/-- No key is repeated, here or in any object below. -/
def WellKeyed (fields : Fields) : Prop := (Value.object fields).DistinctKeys

end Fields

end AppManifest
