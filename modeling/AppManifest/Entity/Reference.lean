import AppManifest.Document.Text
import AppManifest.Kind
import AppManifest.Json.Members
/-!
# Typed references

A reference to a block of a known kind, by name. Whether the block exists is not part of the
reference. In JSON it carries its kind as a hint; a reference that is read may lack the hint but
must not name another kind.
-/

namespace AppManifest

/-- A reference to a block of the given kind. -/
structure Reference (kind : Kind) where
  name : String
  deriving DecidableEq, Repr

namespace Reference

variable {kind : Kind}

/-- The untyped reference, with the kind as its hint. -/
def toBlockRef (reference : Reference kind) : BlockRef := ⟨reference.name, some kind.name⟩

/-- The typed reference, unless the hint names another kind. -/
def ofBlockRef? (kind : Kind) (target : BlockRef) : Option (Reference kind) :=
  match target.kind with
  | some hint => if hint = kind.name then some ⟨target.name⟩ else none
  | none => some ⟨target.name⟩

/-- The JSON form of a reference. -/
def toJson (reference : Reference kind) : Json := .object reference.toBlockRef.toMembers

/-- The reference that a tree stands for. -/
def ofJson? (kind : Kind) : Json → Option (Reference kind)
  | .object members => BlockRef.ofMembers? members >>= ofBlockRef? kind
  | _ => none

/-- How a reference is shown. -/
def shown (reference : Reference kind) : String :=
  "Reference(" ++ Text.quoted reference.name ++ ")"

/-- Read a text that is a reference to a block of the given kind. A hint for another kind is
noticed before anything behind the reference, and has no place in the text. -/
def ofText (kind : Kind) : String → Except Json.Fault (Reference kind) :=
  Json.readAll fun c ↦ do
    let (target, c) ← BlockRef.read Json.nestingLimit c
    match ofBlockRef? kind target with
    | some reference => .ok (reference, c)
    | none => .error ⟨.otherKind kind.name (target.kind.getD ""), none⟩

end Reference

end AppManifest
