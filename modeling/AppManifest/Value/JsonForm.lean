import AppManifest.Value
import AppManifest.Json
import AppManifest.Binary64.Rounding
/-!
# Values as JSON

A value has a JSON form, and every JSON tree is the form of a value. A reference is written as an
object with a `$ref` and perhaps a `$kind`; an object is read as a reference exactly if it could
have been written so. Other objects keep the last value of a repeated key, at its first place.

`normalize` is what a value becomes when it is written and read again: numbers that are not
finite turn into `null`, and objects that look like references turn into references.
-/

namespace AppManifest

namespace BlockRef

/-- The JSON members of a reference. -/
def toMembers (target : BlockRef) : List (String × Json) :=
  ("$ref", .string target.name) ::
    match target.kind with
    | some kind => [("$kind", .string kind)]
    | none => []

/-- A kind hint: a string, or `null` for none. -/
def hint? : Json → Option (Option String)
  | .null => some none
  | .string kind => some (some kind)
  | _ => none

/-- The reference made of a name and a hint. -/
def ofParts? : Json → Json → Option BlockRef
  | .string name, hint => (hint? hint).map fun kind ↦ ⟨name, kind⟩
  | _, _ => none

/-- The reference that an object is, if it has a string under `$ref`, a string or `null` under an
optional `$kind`, and nothing else. -/
def ofMembers? : List (String × Json) → Option BlockRef
  | [(key, value)] => if key = "$ref" then ofParts? value .null else none
  | [(key, value), (key', value')] =>
    if key = "$ref" ∧ key' = "$kind" then ofParts? value value'
    else if key = "$kind" ∧ key' = "$ref" then ofParts? value' value
    else none
  | _ => none

end BlockRef

namespace Value

/-- The value of an integer: one that fits 64 bits with a sign stays an integer. -/
def ofInt (n : Int) : Value :=
  if Int64.minValue.toInt ≤ n ∧ n ≤ Int64.maxValue.toInt then .int (Int64.ofInt n)
  else .float (Binary64.ofInt n)

mutual

/-- The value that a JSON tree stands for. -/
def ofJson : Json → Value
  | .null => .null
  | .bool b => .bool b
  | .int n => ofInt n
  | .float x => .float x
  | .string s => .string s
  | .array items => .list (ofItems items)
  | .object members =>
    match BlockRef.ofMembers? members with
    | some target => .reference target
    | none => .object (Entries.ofList (ofMembers members))

/-- The values of a list of trees. -/
def ofItems : List Json → List Value
  | [] => []
  | item :: rest => ofJson item :: ofItems rest

/-- The values of members, repeated keys included. -/
def ofMembers : List (String × Json) → List (String × Value)
  | [] => []
  | (key, value) :: rest => (key, ofJson value) :: ofMembers rest

end

mutual

/-- The JSON form of a value. -/
def toJson : Value → Json
  | .null => .null
  | .bool b => .bool b
  | .int i => .int i.toInt
  | .float x => if x.isFinite then .float x else .null
  | .string s => .string s
  | .reference target => .object target.toMembers
  | .list items => .array (toItems items)
  | .object fields => .object (toMembers fields)

/-- The JSON forms of a list of values. -/
def toItems : List Value → List Json
  | [] => []
  | item :: rest => toJson item :: toItems rest

/-- The JSON forms of fields. -/
def toMembers : List (String × Value) → List (String × Json)
  | [] => []
  | (key, value) :: rest => (key, toJson value) :: toMembers rest

end

/-- A kind hint among values. -/
def hint? : Value → Option (Option String)
  | .null => some none
  | .string kind => some (some kind)
  | _ => none

/-- The reference that a field bag looks like: a string under `$ref`, a string or `null` under an
optional `$kind`, and nothing else. -/
def lookalike? : Fields → Option BlockRef
  | [("$ref", .string name)] => some ⟨name, none⟩
  | [("$ref", .string name), ("$kind", kind)] => (hint? kind).map fun kind ↦ ⟨name, kind⟩
  | [("$kind", kind), ("$ref", .string name)] => (hint? kind).map fun kind ↦ ⟨name, kind⟩
  | _ => none

mutual

/-- What a value becomes when its JSON form is read. -/
def normalize : Value → Value
  | .float x => if x.isFinite then .float x else .null
  | .list items => .list (normalizeItems items)
  | .object fields =>
    let fields := normalizeFields fields
    match lookalike? fields with
    | some target => .reference target
    | none => .object fields
  | value => value

/-- Normal forms of a list of values. -/
def normalizeItems : List Value → List Value
  | [] => []
  | item :: rest => normalize item :: normalizeItems rest

/-- Normal forms under the keys of a field bag, which stays a field bag. -/
def normalizeFields : List (String × Value) → List (String × Value)
  | [] => []
  | (key, value) :: rest => (key, normalize value) :: normalizeFields rest

end

end Value

/-- The field bag that an object stands for, also one that looks like a reference. -/
def Fields.ofJson? : Json → Option Fields
  | .object members => some (Entries.ofList (Value.ofMembers members))
  | _ => none

end AppManifest
