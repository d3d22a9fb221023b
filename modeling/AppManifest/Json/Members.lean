import AppManifest.Json
import AppManifest.Binary64.Rounding
/-!
# Typed members of objects

Readers for the members that records are made of: members that must be there, members that may be
absent or `null`, and members with a default; and the matching ways of writing optional members.
-/

namespace AppManifest.Json

/-- The members of an object. -/
abbrev Members := List (String × Json)

/-- The text of a string. -/
def string? : Json → Option String
  | .string s => some s
  | _ => none

/-- A number, integers included. -/
def number? : Json → Option Binary64
  | .int n => some (Binary64.ofInt n)
  | .float x => some x
  | _ => none

/-- An integer from zero up to, and not including, a bound. -/
def natBelow? (bound : Nat) : Json → Option Nat
  | .int n => if 0 ≤ n ∧ n < bound then some n.toNat else none
  | _ => none

/-- The members of an object. -/
def members? : Json → Option Members
  | .object members => some members
  | _ => none

/-- The elements of a list, each read in the same way. -/
def listOf? {α : Type} (item? : Json → Option α) : Json → Option (List α)
  | .array items => items.mapM item?
  | _ => none

/-- The members of an object, each value read in the same way. -/
def mapOf? {α : Type} (value? : Json → Option α) : Json → Option (List (String × α))
  | .object members => members.mapM fun entry ↦ (value? entry.2).map fun v ↦ (entry.1, v)
  | _ => none

namespace Members

/-- A member that must be there. -/
def required {α : Type} (members : Members) (key : String) (read? : Json → Option α) : Option α :=
  members.lookup key >>= read?

/-- A member that may be absent or `null`. -/
def optional {α : Type} (members : Members) (key : String) (read? : Json → Option α) :
    Option (Option α) :=
  match members.lookup key with
  | none => some none
  | some .null => some none
  | some value => (read? value).map some

/-- A member with a default for where it is absent. -/
def withDefault {α : Type} (members : Members) (key : String) (default : α)
    (read? : Json → Option α) : Option α :=
  match members.lookup key with
  | none => some default
  | some value => read? value

/-- A member that is left out where there is no value. -/
def given {α : Type} (key : String) (write : α → Json) : Option α → Members
  | none => []
  | some value => [(key, write value)]

end Members

end AppManifest.Json
