import AppManifest.Proofs.Resolution
/-!
# The application blocks of the entry package

The application of a document depends on very little of it: on the blocks of the first package whose
kind is `application`, in their order. `Document.entryApplications` lists these blocks straight from
the packages. `Document.resolveApplication_cases` says all that a resolution can do with them: there
is none, there is one and it is parsed, or there are several and none of them is looked at.

What the first two errors say is then certain. A block that is parsed and is not valid fails with an
error that has a path (`parseBlock_ne_error`), so it is never taken for a block that is missing or
for one of several.
-/

namespace AppManifest.Document

variable {document : Document}

/-- The blocks of the first package that are applications, in their order. -/
def entryApplications (document : Document) : List Block :=
  ((document.packages.take 1).flatMap (·.blocks)).filter (·.kind = "application")

theorem applicationBlocks_eq_entryApplications (document : Document) :
    document.applicationBlocks = document.entryApplications := by
  obtain ⟨version, packages⟩ := document
  cases packages with
  | nil => rfl
  | cons package rest =>
    show package.blocks.filter (·.kind = "application") =
      (package.blocks ++ []).filter (·.kind = "application")
    rw [List.append_nil]

/-- **There is no application block, or there is one and it is parsed, or there are several.** Only
the application blocks of the first package are counted, whatever the other packages hold. -/
theorem resolveApplication_cases (document : Document) :
    (document.entryApplications = [] ∧
        document.resolveApplication = .error .missingApplication) ∨
      (∃ block, document.entryApplications = [block] ∧
        document.resolveApplication = Entity.parseBlock .application block) ∨
      (2 ≤ document.entryApplications.length ∧
        document.resolveApplication =
          .error (.ambiguousApplication (document.entryApplications.map (·.name)))) := by
  rw [resolveApplication, applicationBlocks_eq_entryApplications]
  rcases document.entryApplications with - | ⟨block, - | ⟨second, rest⟩⟩
  · exact Or.inl ⟨rfl, rfl⟩
  · exact Or.inr (Or.inl ⟨block, rfl, rfl⟩)
  · exact Or.inr (Or.inr ⟨Nat.le_add_left 2 rest.length, rfl⟩)

/-- An application block that is not valid fails with an error that says where. -/
theorem parseBlock_ne_error {block : Block} {e : Error} (h : document.entryApplications = [block])
    (he : e.path? = none) : Entity.parseBlock .application block ≠ .error e := by
  intro herror
  have hmem : block ∈ document.entryApplications := h ▸ List.mem_singleton_self block
  have hkind : block.kind = Kind.application.name := of_decide_eq_true (List.mem_filter.1 hmem).2
  rw [Entity.parseBlock, if_pos hkind] at herror
  obtain ⟨path, hpath, -⟩ := Entity.below_of_parseFields herror
  exact absurd (he.symm.trans hpath) (Option.some_ne_none path).symm

theorem resolveApplication_eq_missing_iff :
    document.resolveApplication = .error .missingApplication ↔
      document.entryApplications = [] := by
  obtain ⟨happs, h⟩ | ⟨block, happs, h⟩ | ⟨happs, h⟩ := document.resolveApplication_cases
  · exact iff_of_true h happs
  · rw [h]
    exact iff_of_false (parseBlock_ne_error happs rfl) (by simp [happs])
  · rw [h]
    exact iff_of_false (by simp) (List.ne_nil_of_length_pos (by omega))

theorem resolveApplication_eq_ambiguous_iff {names : List String} :
    document.resolveApplication = .error (.ambiguousApplication names) ↔
      2 ≤ document.entryApplications.length ∧
        names = document.entryApplications.map (·.name) := by
  obtain ⟨happs, h⟩ | ⟨block, happs, h⟩ | ⟨happs, h⟩ := document.resolveApplication_cases
  · rw [h, happs]
    exact iff_of_false (by simp) (by simp)
  · rw [h]
    exact iff_of_false (parseBlock_ne_error happs rfl) (by simp [happs])
  · rw [h, and_iff_right happs]
    simp [eq_comm]

/-- The error of several blocks says how many there are, and names them all. -/
theorem message_of_blocks (blocks : List Block) :
    Error.message (.ambiguousApplication (blocks.map (·.name))) =
      "found " ++ toString blocks.length ++ " @application blocks: " ++
        ", ".intercalate (blocks.map fun block ↦ "'" ++ block.name ++ "'") := by
  have hquoted : (blocks.map (·.name)).map Error.quote =
      blocks.map fun block ↦ "'" ++ block.name ++ "'" := List.map_map
  rw [← hquoted, ← List.length_map (·.name)]
  rfl

/-- **Only the application blocks of the entry package count.** Documents that have the same ones,
in the same order, have the same application or fail with the same error. The application is missing
exactly if there is no such block. It is ambiguous exactly if there are two or more, valid or not,
and the error names them all in their order and says how many there are. A single block is what it
is parsed as. -/
theorem only_entry_applications_count :
    (∀ first second : Document, first.entryApplications = second.entryApplications →
      first.resolveApplication = second.resolveApplication) ∧
    ∀ document : Document,
      (document.resolveApplication = .error .missingApplication ↔
        document.entryApplications = []) ∧
      (∀ names, document.resolveApplication = .error (.ambiguousApplication names) ↔
        2 ≤ document.entryApplications.length ∧
          names = document.entryApplications.map (·.name)) ∧
      Error.message (.ambiguousApplication (document.entryApplications.map (·.name))) =
        "found " ++ toString document.entryApplications.length ++ " @application blocks: " ++
          ", ".intercalate (document.entryApplications.map fun block ↦ "'" ++ block.name ++ "'") ∧
      ∀ block, document.entryApplications = [block] →
        document.resolveApplication = Entity.parseBlock .application block := by
  refine ⟨fun first second h ↦ ?_, fun document ↦ ⟨resolveApplication_eq_missing_iff,
    fun names ↦ resolveApplication_eq_ambiguous_iff, message_of_blocks _, fun block h ↦ ?_⟩⟩
  · rw [resolveApplication, resolveApplication, applicationBlocks_eq_entryApplications,
      applicationBlocks_eq_entryApplications, h]
  · rw [resolveApplication, applicationBlocks_eq_entryApplications, h]

/-- Blocks of other kinds, other packages and the version make no difference. -/
theorem other_blocks_do_not_count :
    let app : Block := ⟨"application", "app", [("defaultProvider", .reference ⟨"p", none⟩)]⟩
    let first : Document := ⟨none, [⟨none, [app]⟩]⟩
    let second : Document := ⟨some "1", [⟨some "main", [⟨"provider", "p", []⟩, app,
      ⟨"secret", "app", []⟩]⟩, ⟨none, [⟨"application", "other", []⟩]⟩]⟩
    (first.entryApplications = second.entryApplications ∧
      first.resolveApplication = second.resolveApplication) ∧
    second.entryApplications = [app] ∧
      second.resolveApplication = Entity.parseBlock .application app := by
  intro app first second
  obtain ⟨same, each⟩ := only_entry_applications_count
  obtain ⟨-, -, -, single⟩ := each second
  exact ⟨⟨rfl, same first second rfl⟩, rfl, single app rfl⟩

end AppManifest.Document
