import AppManifest.Document
import AppManifest.Json.Members
import AppManifest.Value.JsonForm
/-!
# Documents as JSON

The JSON form of a document leaves out a version or a package name that is absent. A tree is
read as a document if its known members have the right forms: members that are not known are
passed over, absent ones take their defaults, and a document, a package or a block may also be
written as the list of its members in order.
-/

namespace AppManifest

namespace Json

/-- The member under a key, if no other has the key too: `none` if it is repeated. -/
def unique? (members : List (String × Json)) (key : String) : Option (Option Json) :=
  match members.filter (·.1 == key) with
  | [] => some none
  | [(_, value)] => some (some value)
  | _ => none

/-- The text of a string, or nothing for `null`. -/
def optionalString? : Json → Option (Option String)
  | .null => some none
  | .string s => some (some s)
  | _ => none

/-- A member that may be absent, read with a default for that case. -/
def orDefault {α : Type} (default : α) (read? : Json → Option α) : Option Json → Option α
  | none => some default
  | some value => read? value

end Json

namespace Block

/-- The JSON form of a block. -/
def toJson (block : Block) : Json :=
  .object [("kind", .string block.kind), ("name", .string block.name),
    ("fields", .object (Value.toMembers block.fields))]

/-- The block that a tree stands for. -/
def ofJson? : Json → Option Block
  | .object members => do
    let kind ← (← Json.unique? members "kind") >>= Json.string?
    let name ← (← Json.unique? members "name") >>= Json.string?
    let fields ← Json.orDefault [] Fields.ofJson? (← Json.unique? members "fields")
    some ⟨kind, name, fields⟩
  | .array [kind, name] => do some ⟨← kind.string?, ← name.string?, []⟩
  | .array [kind, name, fields] => do some ⟨← kind.string?, ← name.string?, ← Fields.ofJson? fields⟩
  | _ => none

end Block

namespace Package

/-- The JSON form of a package. -/
def toJson (package : Package) : Json :=
  .object (Json.Members.given "name" .string package.name ++
    [("blocks", .array (package.blocks.map Block.toJson))])

/-- The package that a tree stands for. -/
def ofJson? : Json → Option Package
  | .object members => do
    let name ← Json.orDefault none Json.optionalString? (← Json.unique? members "name")
    let blocks ← Json.orDefault [] (Json.listOf? Block.ofJson?) (← Json.unique? members "blocks")
    some ⟨name, blocks⟩
  | .array [] => some ⟨none, []⟩
  | .array [name] => do some ⟨← name.optionalString?, []⟩
  | .array [name, blocks] => do
    some ⟨← name.optionalString?, ← Json.listOf? Block.ofJson? blocks⟩
  | _ => none

end Package

namespace Document

/-- The JSON form of a document. -/
def toJson (document : Document) : Json :=
  .object (Json.Members.given "version" .string document.version ++
    [("packages", .array (document.packages.map Package.toJson))])

/-- The document that a tree stands for. -/
def ofJson? : Json → Option Document
  | .object members => do
    let version ← Json.orDefault none Json.optionalString? (← Json.unique? members "version")
    let packages ←
      Json.orDefault [] (Json.listOf? Package.ofJson?) (← Json.unique? members "packages")
    some ⟨version, packages⟩
  | .array [] => some ⟨none, []⟩
  | .array [version] => do some ⟨← version.optionalString?, []⟩
  | .array [version, packages] => do
    some ⟨← version.optionalString?, ← Json.listOf? Package.ofJson? packages⟩
  | _ => none

end Document

end AppManifest
