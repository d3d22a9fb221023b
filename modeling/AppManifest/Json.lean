import AppManifest.Binary64
/-!
# JSON trees

JSON as written: objects keep their members in order, with repeated keys. Integers that fit 64
bits stand apart from other numbers, which are binary floating point.
-/

namespace AppManifest

/-- A JSON text as a tree. -/
inductive Json where
  | null
  | bool (b : Bool)
  /-- An integer written without a fraction or an exponent. -/
  | int (n : Int)
  /-- Any other number. One that is not finite has no JSON text of its own. -/
  | float (x : Binary64)
  | string (s : String)
  | array (items : List Json)
  /-- Members in order; a key may be repeated. -/
  | object (members : List (String × Json))

namespace Json

/-- The value under a key, with `null` where the key is missing. -/
def member (members : List (String × Json)) (key : String) : Json :=
  (members.lookup key).getD .null

mutual

/-- No object of the tree repeats a key. -/
def DistinctKeys : Json → Prop
  | .array items => itemsDistinct items
  | .object members => (members.map Prod.fst).Nodup ∧ membersDistinct members
  | _ => True

/-- No object in a list of trees repeats a key. -/
def itemsDistinct : List Json → Prop
  | [] => True
  | item :: rest => DistinctKeys item ∧ itemsDistinct rest

/-- No object under the members repeats a key. -/
def membersDistinct : List (String × Json) → Prop
  | [] => True
  | (_, value) :: rest => DistinctKeys value ∧ membersDistinct rest

end

end Json

end AppManifest
