import AppManifest.Value.JsonForm
import AppManifest.Json.Members
/-!
# Events

An event has a type and describes its data: field names with type expressions. A type expression
is a type name, a list of one type, a reference to a declared type, or a nested description.
-/

namespace AppManifest

/-- The type of a field in the data of an event. -/
inductive TypeExpr where
  | named (name : String)
  | list (element : TypeExpr)
  | reference (target : BlockRef)
  | struct (fields : List (String × TypeExpr))

/-- Field names with their types. -/
abbrev StructType := Entries TypeExpr

/-- A type of event. -/
structure Event where
  eventType : String
  data : StructType

namespace TypeExpr

/-- The type of the elements, for a list type. -/
def element? : TypeExpr → Option TypeExpr
  | .list element => some element
  | _ => none

mutual

/-- Equality of type expressions; the order of fields does not matter. -/
def same : TypeExpr → TypeExpr → Bool
  | .named a, .named b => a == b
  | .list a, .list b => same a b
  | .reference a, .reference b => a == b
  | .struct as, .struct bs => as.length == bs.length && sameUnderKeys as bs
  | _, _ => false

/-- Whether every field of the first description has an equal one under its name in the second. -/
def sameUnderKeys : List (String × TypeExpr) → List (String × TypeExpr) → Bool
  | [], _ => true
  | (key, a) :: as, bs =>
    (match Entries.get? bs key with
      | some b => same a b
      | none => false) && sameUnderKeys as bs

end

mutual

/-- The JSON form of a type expression. -/
def toJson : TypeExpr → Json
  | .named name => .string name
  | .list element => .array [toJson element]
  | .reference target => .object target.toMembers
  | .struct fields => .object (toMembers fields)

/-- The JSON forms of fields. -/
def toMembers : List (String × TypeExpr) → Json.Members
  | [] => []
  | (key, value) :: rest => (key, toJson value) :: toMembers rest

end

mutual

/-- The type expression that a tree stands for. -/
def ofJson? : Json → Option TypeExpr
  | .string name => some (.named name)
  | .array [element] => (ofJson? element).map .list
  | .object members =>
    match BlockRef.ofMembers? members with
    | some target => some (.reference target)
    | none => (ofMembers? members).map .struct
  | _ => none

/-- The fields that members stand for. -/
def ofMembers? : List (String × Json) → Option (List (String × TypeExpr))
  | [] => some []
  | (key, value) :: rest =>
    match ofJson? value, ofMembers? rest with
    | some value, some rest => some ((key, value) :: rest)
    | _, _ => none

end

end TypeExpr

namespace Event

/-- The JSON members of an event. -/
def toMembers (event : Event) : Json.Members :=
  [("type", .string event.eventType), ("data", .object (TypeExpr.toMembers event.data))]

/-- The event that members stand for. -/
def ofMembers? (members : Json.Members) : Option Event := do
  let eventType ← members.required "type" Json.string?
  let data ← members.required "data" fun value ↦ value.members? >>= TypeExpr.ofMembers?
  some ⟨eventType, data⟩

/-- Equality of events. -/
def same (a b : Event) : Bool :=
  a.eventType == b.eventType && a.data.length == b.data.length &&
    TypeExpr.sameUnderKeys a.data b.data

end Event

end AppManifest
