import AppManifest.Lint
/-!
# Blocks declared twice

Lookups take the first block of a kind and a name, so later ones with both are out of reach. Each
such pair is reported once, at its second block.
-/

namespace AppManifest.Lint.DuplicateBlock

/-- The name of the lint. -/
def name : String := "duplicate-block"

/-- The finding for a kind and a name that two blocks share. -/
def finding (kind blockName : String) : Diagnostic :=
  ⟨.warning, name,
    "duplicate " ++ kind ++ " block '" ++ blockName ++ "'; only the first declaration is used",
    some (kind ++ "." ++ blockName)⟩

/-- The findings among some blocks, given the kinds and names seen and those reported so far. -/
def findings (seen reported : List (String × String)) : List Block → List Diagnostic
  | [] => []
  | block :: rest =>
    let key := (block.kind, block.name)
    if key ∈ seen then
      if key ∈ reported then findings seen reported rest
      else finding block.kind block.name :: findings seen (key :: reported) rest
    else findings (key :: seen) reported rest

/-- The lint. -/
def lint : Lint :=
  ⟨name, "Detect blocks declared twice with the same kind and name",
    fun document _ ↦ findings [] [] document.blocks⟩

end AppManifest.Lint.DuplicateBlock
