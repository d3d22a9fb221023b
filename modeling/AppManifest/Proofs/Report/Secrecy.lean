import AppManifest.Report.Check
import AppManifest.Report.Expansion
import AppManifest.Report.Info
import AppManifest.Proofs.Lint.Severity
import AppManifest.Proofs.Resolution
/-!
# Secrets stay out of all reports

No application refers to a secret, so whatever stands in the secret blocks of a document shows in
none of its reports. This is about two documents: if they are the same once the fields of their
secrets have been taken out (`Document.withoutSecrets`), then they have the same application, the
same expansion, the same summary and the same check, errors and findings included
(`Document.reports_are_blind_to_secrets`). A secret may be declared twice, bear the name of another
block, be referred to as something else, or be no valid secret at all.

What the reports read of a document is what its references resolve to, and the kinds and names of
its blocks. A lookup for another kind compares the kind and the name of a secret and goes on
(`Document.lookup_withoutSecrets`); the rest follows from that, one report after the other.
-/

namespace AppManifest

/-- The block, without its fields if it is a secret. -/
def Block.withoutSecret (block : Block) : Block :=
  if block.kind = Kind.secret.name then { block with fields := [] } else block

/-- The package with the fields of its secrets taken out. -/
def Package.withoutSecrets (package : Package) : Package :=
  { package with blocks := package.blocks.map Block.withoutSecret }

/-- The document with the fields of its secrets taken out. -/
def Document.withoutSecrets (document : Document) : Document :=
  { document with packages := document.packages.map Package.withoutSecrets }

namespace Block

/-- A block keeps its kind and its name, so a search by these comes to the same block. -/
@[simp] theorem kind_withoutSecret (block : Block) : block.withoutSecret.kind = block.kind := by
  rw [withoutSecret]
  split <;> rfl

@[simp] theorem name_withoutSecret (block : Block) : block.withoutSecret.name = block.name := by
  rw [withoutSecret]
  split <;> rfl

/-- A block of another kind is left as it is. -/
theorem withoutSecret_of_kind {block : Block} {kind : Kind} (h : block.kind = kind.name)
    (other : kind ≠ .secret) : block.withoutSecret = block :=
  if_neg fun hsecret ↦ other (Kind.name_injective (h.symm.trans hsecret))

end Block

namespace Document

variable {document : Document} {kind : Kind}

/-! ### Lookups -/

theorem blocks_withoutSecrets (document : Document) :
    document.withoutSecrets.blocks = document.blocks.map Block.withoutSecret := by
  rw [blocks, blocks, withoutSecrets, List.flatMap_map, List.map_flatMap]
  rfl

/-- A search by kinds and names finds the same block. -/
theorem find?_withoutSecrets {wanted : Block → Bool}
    (h : ∀ block : Block, wanted block.withoutSecret = wanted block) :
    document.withoutSecrets.blocks.find? wanted =
      (document.blocks.find? wanted).map Block.withoutSecret := by
  rw [blocks_withoutSecrets, List.find?_map]
  exact congrArg (fun p ↦ (document.blocks.find? p).map Block.withoutSecret) (funext h)

/-- **A lookup for anything but a secret does not read the fields of secrets**, whether it finds a
block or not. -/
theorem lookup_withoutSecrets (other : kind ≠ .secret) (name : String) :
    document.withoutSecrets.lookup kind name = document.lookup kind name := by
  rw [lookup_eq, lookup_eq, findBlockOfKind?, findBlockOfKind?, findBlock?, findBlock?,
    find?_withoutSecrets fun block ↦ by simp, find?_withoutSecrets fun block ↦ by simp]
  -- a block that is found has the kind that was asked for, so it is no secret
  cases hfound : document.blocks.find? fun b ↦ b.kind == kind.name && b.name == name with
  | some block => simp [Block.withoutSecret_of_kind (kind_of_findBlockOfKind? hfound) other]
  | none => cases document.blocks.find? (·.name == name) <;> simp

/-- A reference to anything but a secret resolves to the same entity, or fails in the same way, with
the same message. -/
theorem resolve_withoutSecrets (document : Document) (other : kind ≠ .secret)
    (reference : Reference kind) :
    document.withoutSecrets.resolve reference = document.resolve reference := by
  rw [resolve, resolve, lookup_withoutSecrets other]

/-! ### The application -/

/-- The applications are the same, as they are no secrets. -/
theorem applicationBlocks_withoutSecrets (document : Document) :
    document.withoutSecrets.applicationBlocks = document.applicationBlocks := by
  have hpackage (package : Package) : package.withoutSecrets.blocksOfKind Kind.application.name =
      package.blocksOfKind Kind.application.name := by
    rw [Package.blocksOfKind, Package.withoutSecrets, List.filter_map]
    have hkind : (fun block : Block ↦ block.kind == Kind.application.name) ∘ Block.withoutSecret =
        fun block ↦ block.kind == Kind.application.name := funext fun block ↦ by simp
    have hself : ∀ block ∈ package.blocks.filter (·.kind == Kind.application.name),
        block.withoutSecret = id block := fun block hmem ↦
      Block.withoutSecret_of_kind (beq_iff_eq.1 (List.mem_filter.1 hmem).2) (by decide)
    rw [hkind, List.map_congr_left hself, List.map_id, Package.blocksOfKind]
  rw [applicationBlocks, applicationBlocks, entryPackage?, entryPackage?, withoutSecrets,
    List.head?_map]
  cases document.packages.head? with
  | none => rfl
  | some package => exact hpackage package

theorem resolveApplication_withoutSecrets (document : Document) :
    document.withoutSecrets.resolveApplication = document.resolveApplication := by
  rw [resolveApplication, resolveApplication, applicationBlocks_withoutSecrets]

/-! ### The reports -/

/-- The expansion is the same. It resolves references to providers, functions and workflows only. -/
theorem expand_withoutSecrets (document : Document) (app : Application) :
    document.withoutSecrets.expand app = document.expand app := by
  have hreference {kind : Kind} (other : kind ≠ .secret) (reference : Reference kind) :
      document.withoutSecrets.expandReference reference = document.expandReference reference := by
    rw [expandReference, expandReference, document.resolve_withoutSecrets other]
  have hall {kind : Kind} (other : kind ≠ .secret) (references : List (Reference kind)) :
      document.withoutSecrets.expandAll references = document.expandAll references := by
    induction references with
    | nil => rfl
    | cons reference rest ih => rw [expandAll, expandAll, hreference other, ih]
  have hoption (reference? : Option (Reference .workflow)) :
      document.withoutSecrets.expandOption reference? = document.expandOption reference? := by
    cases reference? with
    | none => rfl
    | some reference => rw [expandOption, expandOption, hreference (by decide)]
  rw [expand, expand, hreference (by decide), hall (by decide), hall (by decide), hoption]

/-- Secrets are counted in the statistics, but for that only their kind is read. -/
theorem stats_withoutSecrets (document : Document) :
    document.withoutSecrets.stats = document.stats := by
  have hkinds : document.withoutSecrets.blocks.map (·.kind) = document.blocks.map (·.kind) := by
    rw [blocks_withoutSecrets, List.map_map]
    exact List.map_congr_left fun block _ ↦ block.kind_withoutSecret
  rw [stats, stats, hkinds, withoutSecrets, List.length_map]

theorem info_withoutSecrets (document : Document) (path : String) :
    document.withoutSecrets.info path = document.info path := by
  have hprovider : document.withoutSecrets.providerInfo = document.providerInfo :=
    funext fun reference ↦ by
      rw [providerInfo, providerInfo, document.resolve_withoutSecrets (by decide)]
  have hfunction : document.withoutSecrets.functionInfo = document.functionInfo :=
    funext fun reference ↦ by
      rw [functionInfo, functionInfo, document.resolve_withoutSecrets (by decide)]
  have hworkflow : document.withoutSecrets.workflowInfo = document.workflowInfo :=
    funext fun reference ↦ by
      rw [workflowInfo, workflowInfo, document.resolve_withoutSecrets (by decide), hfunction]
  rw [info, info, resolveApplication_withoutSecrets, hprovider, hfunction, hworkflow,
    stats_withoutSecrets, applicationName?, applicationName?, applicationBlocks_withoutSecrets]

end Document

namespace Lint

/-- Repeated declarations of secrets are reported, with their kinds and names only. By induction
along the blocks, with what was seen before on both sides. -/
theorem findings_withoutSecrets (blocks : List Block) (seen reported : List (String × String)) :
    DuplicateBlock.findings seen reported (blocks.map Block.withoutSecret) =
      DuplicateBlock.findings seen reported blocks := by
  induction blocks generalizing seen reported with
  | nil => rfl
  | cons block rest ih =>
    rw [List.map_cons, DuplicateBlock.findings, DuplicateBlock.findings]
    simp only [Block.kind_withoutSecret, Block.name_withoutSecret, ih]

/-- One step of the walk over references is the same, and what it finds behind them is too. -/
theorem visit_withoutSecrets (document : Document) {kind : Kind} (other : kind ≠ .secret)
    (reference : Reference kind) (location : String) (next : Entity kind → List Diagnostic) :
    DanglingReference.visit document.withoutSecrets reference location next =
      DanglingReference.visit document reference location next := by
  rw [DanglingReference.visit, DanglingReference.visit, document.resolve_withoutSecrets other]

/-- The walk over the references of an application reports the same. Each of its steps asks for a
provider, a function, an event or a workflow, which are no secrets. -/
theorem checkDangling_withoutSecrets (document : Document) (app : Application) :
    DanglingReference.check document.withoutSecrets app = DanglingReference.check document app := by
  have hprovider := visit_withoutSecrets document (show Kind.provider ≠ .secret by decide)
  have hevent := visit_withoutSecrets document (show Kind.event ≠ .secret by decide)
  have hfunction : DanglingReference.visitFunction document.withoutSecrets =
      DanglingReference.visitFunction document := by
    funext reference location
    rw [DanglingReference.visitFunction, visit_withoutSecrets document (by decide)]
    simp only [hevent, DanglingReference.visitFunction]
  have hworkflow : DanglingReference.visitWorkflow document.withoutSecrets =
      DanglingReference.visitWorkflow document := by
    funext reference
    rw [DanglingReference.visitWorkflow, visit_withoutSecrets document (by decide), hfunction,
      DanglingReference.visitWorkflow]
  simp only [DanglingReference.check, hprovider, hfunction, hworkflow]

theorem checkEmpty_withoutSecrets (document : Document) (app : Application) :
    EmptyWorkflow.check document.withoutSecrets app = EmptyWorkflow.check document app := by
  cases hworkflow : app.workflow with
  | none => simp only [EmptyWorkflow.check, hworkflow]
  | some reference =>
    have hresolve : document.withoutSecrets.resolve reference = document.resolve reference :=
      document.resolve_withoutSecrets (by decide) reference
    simp only [EmptyWorkflow.check, hworkflow, hresolve]

theorem checkAll_withoutSecrets (document : Document) (app : Application) :
    checkAll standard document.withoutSecrets app = checkAll standard document app := by
  rw [checkAll_standard, checkAll_standard, warnings, warnings, checkDangling_withoutSecrets,
    Document.blocks_withoutSecrets, findings_withoutSecrets, checkEmpty_withoutSecrets]

end Lint

namespace Document

/-- The report of a check is the same, errors included. -/
theorem check_withoutSecrets (document : Document) (path : String) :
    document.withoutSecrets.check path = document.check path := by
  have hrun : Lint.run Lint.standard document.withoutSecrets = Lint.run Lint.standard document := by
    rw [Lint.run, Lint.run, resolveApplication_withoutSecrets]
    simp only [Lint.checkAll_withoutSecrets]
  rw [check, check, hrun, applicationName?, applicationName?, applicationBlocks_withoutSecrets]

/-- **Secrets stay out of all reports.** Two documents that differ in the fields of secret blocks
only have the same application, and in all of what is reported about it they are the same. -/
theorem reports_are_blind_to_secrets {a b : Document} (h : a.withoutSecrets = b.withoutSecrets) :
    a.resolveApplication = b.resolveApplication ∧ (∀ app, a.expand app = b.expand app) ∧
      (∀ path, a.info path = b.info path) ∧ ∀ path, a.check path = b.check path := by
  refine ⟨?_, fun app ↦ ?_, fun path ↦ ?_, fun path ↦ ?_⟩
  · rw [← resolveApplication_withoutSecrets a, h, resolveApplication_withoutSecrets]
  · rw [← expand_withoutSecrets a, h, expand_withoutSecrets]
  · rw [← info_withoutSecrets a, h, info_withoutSecrets]
  · rw [← check_withoutSecrets a, h, check_withoutSecrets]

/-- A secret that bears the name of the default provider and stands before it, valid or not. -/
theorem provider_namesake_is_hidden :
    let document (secret : Fields) : Document := ⟨none, [⟨none,
      [⟨"secret", "p", secret⟩, ⟨"provider", "p", [("kind", .string "oss")]⟩,
        ⟨"application", "app", [("defaultProvider", .reference ⟨"p", none⟩)]⟩]⟩]⟩
    let hidden := document [("name", .string "key"), ("value", .string "hunter2")]
    let malformed := document [("value", .null)]
    hidden.withoutSecrets = malformed.withoutSecrets ∧
      hidden.resolveApplication = malformed.resolveApplication ∧
      (∀ app, hidden.expand app = malformed.expand app) ∧
      (∀ path, hidden.info path = malformed.info path) ∧
      ∀ path, hidden.check path = malformed.check path := by
  intro document hidden malformed
  have h : hidden.withoutSecrets = malformed.withoutSecrets := rfl
  exact ⟨h, reports_are_blind_to_secrets h⟩

end Document

end AppManifest
