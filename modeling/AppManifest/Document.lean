import AppManifest.Value
/-!
# Documents

A document is a list of packages, a package a list of named blocks, each with a kind and a bag of
untyped fields. The first package is the entry package. Searches go through all packages in order
and take the first block that fits.
-/

namespace AppManifest

/-- A unit of a document: a kind, a name, and fields. The fields stand apart, so that a field
called `kind` is not the kind of the block. -/
structure Block where
  kind : String
  name : String
  fields : Fields

/-- A list of blocks, perhaps with a name. -/
structure Package where
  name : Option String
  blocks : List Block

/-- A list of packages, perhaps with the version of the format. -/
structure Document where
  version : Option String
  packages : List Package

namespace Block

/-- A block without fields. -/
def bare (kind name : String) : Block := ⟨kind, name, []⟩

/-- The block with one more field, or with a new value for a field that it has. -/
def withField (block : Block) (key : String) (value : Value) : Block :=
  { block with fields := Entries.insert block.fields key value }

/-- The reference to a block, with its kind as the hint. -/
def reference (block : Block) : BlockRef := ⟨block.name, some block.kind⟩

end Block

namespace Package

/-- The blocks of a kind, in order. -/
def blocksOfKind (package : Package) (kind : String) : List Block :=
  package.blocks.filter (·.kind == kind)

end Package

namespace Document

/-- The document without packages. -/
def empty : Document := ⟨none, []⟩

/-- The first package. -/
def entryPackage? (document : Document) : Option Package := document.packages.head?

/-- All blocks of all packages, in order. -/
def blocks (document : Document) : List Block := document.packages.flatMap (·.blocks)

/-- The first block with a name. -/
def findBlock? (document : Document) (name : String) : Option Block :=
  document.blocks.find? (·.name == name)

/-- The first block with a kind and a name. -/
def findBlockOfKind? (document : Document) (kind name : String) : Option Block :=
  document.blocks.find? fun block ↦ block.kind == kind && block.name == name

/-- No field bag in the document repeats a key, as none does that was read or built by insertion. -/
def WellKeyed (document : Document) : Prop :=
  ∀ block ∈ document.blocks, block.fields.WellKeyed

end Document

end AppManifest
