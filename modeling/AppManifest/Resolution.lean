import AppManifest.Entity
/-!
# Resolution

Finding the block that a reference names and validating it, and finding the one application of a
document. A lookup goes through all blocks once and takes the first one of the right kind and
name; if there is none, a block of another kind with the name makes it a mismatch of kinds.
-/

namespace AppManifest

namespace Document

/-- The first block of a kind and a name among some blocks. `other` is the kind of the first block
with the name that was passed, if any was. -/
def lookupFrom (kind : Kind) (name : String) (other : Option String) :
    List Block → Checked Block
  | [] =>
    match other with
    | some actual => .error (.kindMismatch name kind actual)
    | none => .error (.danglingReference kind name)
  | block :: rest =>
    if block.name = name then
      if block.kind = kind.name then .ok block
      else lookupFrom kind name (other.or (some block.kind)) rest
    else lookupFrom kind name other rest

/-- The first block of a kind and a name in any package. -/
def lookup (document : Document) (kind : Kind) (name : String) : Checked Block :=
  lookupFrom kind name none document.blocks

/-- The entity that a reference names: the block is looked up and validated. -/
def resolve (document : Document) {kind : Kind} (reference : Reference kind) :
    Checked (Entity kind) := do
  let block ← document.lookup kind reference.name
  Entity.parseBlock kind block

/-- The entities that references name, up to the first one that fails. -/
def resolveAll (document : Document) {kind : Kind} :
    List (Reference kind) → Checked (List (Entity kind))
  | [] => .ok []
  | reference :: rest => do
    let entity ← document.resolve reference
    let entities ← document.resolveAll rest
    .ok (entity :: entities)

/-- The application blocks of the entry package. -/
def applicationBlocks (document : Document) : List Block :=
  match document.entryPackage? with
  | some package => package.blocksOfKind Kind.application.name
  | none => []

/-- The application of a document: the entry package must have exactly one application block, and
that must be valid. -/
def resolveApplication (document : Document) : Checked Application :=
  match document.applicationBlocks with
  | [] => .error .missingApplication
  | [block] => Entity.parseBlock .application block
  | blocks => .error (.ambiguousApplication (blocks.map (·.name)))

/-- The name of the first application block of the entry package. -/
def applicationName? (document : Document) : Option String :=
  document.applicationBlocks.head?.map (·.name)

end Document

/-- Read a field bag as an application on its own, outside any document. -/
def Application.ofFields (fields : Fields) : Checked Application :=
  Entity.parseFields .application fields (Path.root.key Kind.application.name)

end AppManifest
