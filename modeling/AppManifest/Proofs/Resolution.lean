import AppManifest.Resolution
import AppManifest.Proofs.Entity.Decoding
import AppManifest.Proofs.Validation.Paths
/-!
# What resolves

A lookup goes through the blocks once and remembers the kind of the first block with the right name
but another kind. `Document.lookup_eq` says what comes out of that: the first block of the kind and
the name if there is one, and otherwise an error that depends on the first block of the name. Two
searches, one by kind and name and one by name alone, would find the same
(`Document.lookup_combines_searches`).

So a reference resolves exactly if the first block of its kind and name is valid for that kind
(`Document.exists_resolve_iff`). A block behind the first one never counts, even if it is valid and
the first one is not.
-/

namespace AppManifest

namespace Document

variable {document : Document} {kind : Kind} {name : String}

/-- What a lookup among some blocks comes to. -/
theorem lookupFrom_eq (kind : Kind) (name : String) (other : Option String) (blocks : List Block) :
    lookupFrom kind name other blocks =
      match blocks.find? fun block ↦ block.kind == kind.name && block.name == name with
      | some block => .ok block
      | none =>
        match other.or ((blocks.find? (·.name == name)).map (·.kind)) with
        | some actual => .error (.kindMismatch name kind actual)
        | none => .error (.danglingReference kind name) := by
  induction blocks generalizing other with
  | nil => cases other <;> rfl
  | cons block rest ih =>
    by_cases hname : block.name = name
    · by_cases hkind : block.kind = kind.name
      · simp [lookupFrom, hname, hkind]
      · -- the kind of this block is remembered, unless an earlier one was
        simp [lookupFrom, hname, hkind, ih]
    · simp [lookupFrom, hname, ih]

/-- **A lookup finds the first block of a kind and a name**, or says what the first block of the
name is instead. -/
theorem lookup_eq (document : Document) (kind : Kind) (name : String) :
    document.lookup kind name =
      match document.findBlockOfKind? kind.name name with
      | some block => .ok block
      | none =>
        match document.findBlock? name with
        | some block => .error (.kindMismatch name kind block.kind)
        | none => .error (.danglingReference kind name) := by
  rw [lookup, lookupFrom_eq, findBlockOfKind?, findBlock?]
  cases document.blocks.find? fun block ↦ block.kind == kind.name && block.name == name with
  | some block => rfl
  | none => cases document.blocks.find? (·.name == name) <;> rfl

theorem lookup_eq_ok_iff {block : Block} :
    document.lookup kind name = .ok block ↔
      document.findBlockOfKind? kind.name name = some block := by
  rw [lookup_eq]
  cases document.findBlockOfKind? kind.name name with
  | some found => simp
  | none => cases document.findBlock? name <;> simp

theorem kind_of_findBlockOfKind? {kind : String} {block : Block}
    (h : document.findBlockOfKind? kind name = some block) : block.kind = kind := by
  have hblock := List.find?_some h
  rw [Bool.and_eq_true, beq_iff_eq] at hblock
  exact hblock.1

theorem name_of_findBlockOfKind? {kind : String} {block : Block}
    (h : document.findBlockOfKind? kind name = some block) : block.name = name := by
  have hblock := List.find?_some h
  rw [Bool.and_eq_true, beq_iff_eq, beq_iff_eq] at hblock
  exact hblock.2

/-- A reference resolves to what the first block of its kind and name is parsed as. -/
theorem resolve_eq_ok_iff {reference : Reference kind} {entity : Entity kind} :
    document.resolve reference = .ok entity ↔
      ∃ block, document.findBlockOfKind? kind.name reference.name = some block ∧
        Entity.parseFields kind block.fields (Path.ofBlock kind.name block.name) = .ok entity := by
  rw [resolve, Checked.bind_eq_ok]
  refine exists_congr fun block ↦ ?_
  rw [lookup_eq_ok_iff]
  refine and_congr_right fun hfound ↦ ?_
  rw [Entity.parseBlock, if_pos (kind_of_findBlockOfKind? hfound)]

/-- **A reference resolves exactly if it finds a block of its kind, and that block is valid.** A
block of another kind with that name makes no difference to this, but to the error. -/
theorem exists_resolve_iff {reference : Reference kind} :
    (∃ entity, document.resolve reference = .ok entity) ↔
      ∃ block valid, document.findBlockOfKind? kind.name reference.name = some block ∧
        kind.schema.check block.fields (Path.ofBlock kind.name block.name) = .ok valid := by
  constructor
  · rintro ⟨entity, h⟩
    obtain ⟨block, hfound, hparse⟩ := resolve_eq_ok_iff.1 h
    obtain ⟨valid, hvalid⟩ := Entity.exists_parseFields_iff.1 ⟨entity, hparse⟩
    exact ⟨block, valid, hfound, hvalid⟩
  · rintro ⟨block, valid, hfound, hvalid⟩
    obtain ⟨entity, hparse⟩ := Entity.exists_parseFields_iff.2 ⟨valid, hvalid⟩
    exact ⟨entity, resolve_eq_ok_iff.2 ⟨block, hfound, hparse⟩⟩

/-- Where a lookup finds a block, the reference comes to what that block is parsed as. -/
theorem resolve_of_lookup {reference : Reference kind} {block : Block}
    (h : document.lookup kind reference.name = .ok block) :
    document.resolve reference =
      Entity.parseFields kind block.fields (Path.ofBlock kind.name reference.name) := by
  have hfound := lookup_eq_ok_iff.1 h
  rw [resolve, h]
  show Entity.parseBlock kind block = _
  rw [Entity.parseBlock, if_pos (kind_of_findBlockOfKind? hfound), name_of_findBlockOfKind? hfound]

/-- A reference fails where its lookup does, or where the block that is found is not valid. -/
theorem resolve_eq_error_iff {reference : Reference kind} {e : Error} :
    document.resolve reference = .error e ↔
      document.lookup kind reference.name = .error e ∨
        ∃ block, document.lookup kind reference.name = .ok block ∧
          Entity.parseFields kind block.fields (Path.ofBlock kind.name reference.name) =
            .error e := by
  rcases hlookup : document.lookup kind reference.name with e' | block
  · rw [resolve, hlookup]
    show (.error e' : Checked (Entity kind)) = .error e ↔ _
    simp
  · rw [resolve_of_lookup hlookup]
    simp

theorem findBlockOfKind?_of_lookup_error {e : Error} (h : document.lookup kind name = .error e) :
    document.findBlockOfKind? kind.name name = none := by
  rcases hfound : document.findBlockOfKind? kind.name name with - | block
  · rfl
  · rw [lookup_eq_ok_iff.2 hfound] at h
    exact absurd h (by simp)

/-- A block of another kind is only spoken of where there is none of the right kind. -/
theorem findBlockOfKind?_of_mismatch {reference : Reference kind} {wanted actual : String}
    {expected : Kind}
    (h : document.resolve reference = .error (.kindMismatch wanted expected actual)) :
    document.findBlockOfKind? kind.name reference.name = none := by
  rcases resolve_eq_error_iff.1 h with hlookup | ⟨block, -, hparse⟩
  · exact findBlockOfKind?_of_lookup_error hlookup
  · -- the error of a block that is not valid says where in the block it is
    obtain ⟨place, hplace, -⟩ := Entity.below_of_parseFields hparse
    exact absurd hplace (by simp [Error.path?])

theorem mem_blocks_of_findBlockOfKind? {kind : String} {block : Block}
    (h : document.findBlockOfKind? kind name = some block) : block ∈ document.blocks :=
  List.mem_of_find?_eq_some h

theorem mem_blocks_of_mem_applicationBlocks {block : Block}
    (h : block ∈ document.applicationBlocks) : block ∈ document.blocks := by
  rw [applicationBlocks, entryPackage?] at h
  cases hpackage : document.packages.head? with
  | none => simp [hpackage] at h
  | some package =>
    rw [hpackage] at h
    exact List.mem_flatMap.2 ⟨package, List.mem_of_head? hpackage, (List.mem_filter.1 h).1⟩

/-- **A lookup is two searches in one.** It finds what the search by kind and name finds. Where that
finds nothing, the lookup speaks of the kind of the first block of the name, or of a dangling
reference if no block has the name. So a reference is only a mismatch of kinds where no block of its
kind has the name, and otherwise it comes to what the first such block is parsed as. -/
theorem lookup_combines_searches (document : Document) (kind : Kind) (name : String) :
    (∀ block, document.lookup kind name = .ok block ↔
        document.findBlockOfKind? kind.name name = some block) ∧
      (document.findBlockOfKind? kind.name name = none →
        ((∃ block ∈ document.blocks, block.name = name) →
          ∃ block, document.findBlock? name = some block ∧ block.kind ≠ kind.name ∧
            document.lookup kind name = .error (.kindMismatch name kind block.kind)) ∧
        ((∀ block ∈ document.blocks, block.name ≠ name) →
          document.lookup kind name = .error (.danglingReference kind name))) ∧
      (∀ wanted expected actual, document.resolve (⟨name⟩ : Reference kind) =
          .error (.kindMismatch wanted expected actual) →
        ∀ block ∈ document.blocks, ¬ (block.kind = kind.name ∧ block.name = name)) ∧
      ((∃ block ∈ document.blocks, block.kind = kind.name ∧ block.name = name) →
        ∃ block, document.findBlockOfKind? kind.name name = some block ∧
          document.resolve (⟨name⟩ : Reference kind) =
            Entity.parseFields kind block.fields (Path.ofBlock kind.name name)) := by
  have hnone : document.findBlockOfKind? kind.name name = none ↔
      ∀ block ∈ document.blocks, ¬ (block.kind = kind.name ∧ block.name = name) := by
    simp [findBlockOfKind?, List.find?_eq_none]
  refine ⟨fun block ↦ lookup_eq_ok_iff, fun h ↦ ⟨?_, fun hname ↦ ?_⟩, ?_, ?_⟩
  · rintro ⟨other, hmem, hname⟩
    rcases hfound : document.findBlock? name with - | block
    · exact absurd hname (by simpa using List.find?_eq_none.1 hfound other hmem)
    · have hblock : block.name = name := by simpa using List.find?_some hfound
      refine ⟨block, rfl, fun hkind ↦ ?_, by rw [lookup_eq, h, hfound]⟩
      exact hnone.1 h block (List.mem_of_find?_eq_some hfound) ⟨hkind, hblock⟩
  · have hfound : document.findBlock? name = none := by
      simpa [findBlock?, List.find?_eq_none] using hname
    rw [lookup_eq, h, hfound]
  · exact fun wanted expected actual h ↦ hnone.1 (findBlockOfKind?_of_mismatch h)
  · rintro ⟨block, hmem, hblock⟩
    rcases hfound : document.findBlockOfKind? kind.name name with - | first
    · exact absurd hblock (hnone.1 hfound block hmem)
    · exact ⟨first, rfl, resolve_of_lookup (lookup_eq_ok_iff.2 hfound)⟩

end Document

end AppManifest
