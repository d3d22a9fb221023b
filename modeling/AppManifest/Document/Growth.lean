import AppManifest.Document
/-!
# Growing documents

A document is built up at its end: a new package goes behind the others, a new block into the last
package, and a new field into the last block of the last package.
-/

namespace AppManifest

/-- Change the last element of a list, if there is one and it can be changed. -/
def modifyLast? {α : Type} (change? : α → Option α) : List α → Option (List α)
  | [] => none
  | [last] => (change? last).map fun last ↦ [last]
  | first :: rest => (modifyLast? change? rest).map (first :: ·)

namespace Document

/-- The document with an empty package behind the others. -/
def withPackage (document : Document) (name : Option String) : Document :=
  { document with packages := document.packages ++ [⟨name, []⟩] }

/-- The last package. -/
def lastPackage? (document : Document) : Option Package := document.packages.getLast?

/-- The last block of the last package. -/
def lastBlock? (document : Document) : Option Block :=
  document.lastPackage?.bind fun package ↦ package.blocks.getLast?

/-- The document with a block at the end of its last package, if it has a package. -/
def withBlock? (document : Document) (block : Block) : Option Document := do
  let packages ← modifyLast?
    (fun package ↦ some { package with blocks := package.blocks ++ [block] }) document.packages
  some { document with packages }

/-- The document with a field in the last block of its last package, if there is that block. -/
def withField? (document : Document) (key : String) (value : Value) : Option Document := do
  let packages ← modifyLast?
    (fun package ↦ do
      let blocks ← modifyLast? (fun block ↦ some (block.withField key value)) package.blocks
      some { package with blocks })
    document.packages
  some { document with packages }

end Document

end AppManifest
