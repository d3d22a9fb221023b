import AppManifest.Report.Info
import AppManifest.Proofs.Entity.Rearrangement
import AppManifest.Proofs.Lint.DanglingReference
/-!
# Documents mean the same whatever the order of keys

Two documents are rearrangements of each other if they differ in the order of keys only, in the
fields of their blocks and in the objects below (`Document.Rearranged`), as a document in one
notation and the same document in another that sorts its keys. Packages and blocks keep their order.

Such documents have equal applications, every reference resolves to equal entities in both, their
summaries are the same, and the walk over the references fails at the same places
(`Document.meaning_ignores_key_order`). Where one of them fails, the other one does too, perhaps
with another violation, since the first one that is found depends on the order.

What is said of documents rests on three facts: blocks are found by kinds and names, which are the
same on both sides (`Document.Rearranged.lookup_agree`), a block is read as an equal entity
(`Block.Rearranged.parse_agree`), and equal entities name the same references.
-/

namespace AppManifest

/-- Two blocks differ in the order of keys only. -/
structure Block.Rearranged (a b : Block) : Prop where
  kind : a.kind = b.kind
  name : a.name = b.name
  fields : Fields.Rearranged a.fields b.fields

/-- Two packages differ in the order of keys only. -/
structure Package.Rearranged (a b : Package) : Prop where
  name : a.name = b.name
  blocks : List.Forall₂ Block.Rearranged a.blocks b.blocks

/-- Two documents differ in the order of keys only. -/
structure Document.Rearranged (a b : Document) : Prop where
  version : a.version = b.version
  packages : List.Forall₂ Package.Rearranged a.packages b.packages

/-! ### Lists side by side -/

section Lists

variable {α β γ : Type} {R : α → β → Prop} {as : List α} {bs : List β}

/-- In lists that are related element by element, a search that does not tell related elements apart
finds related elements. -/
theorem rel_find? {p : α → Bool} {q : β → Bool} (h : List.Forall₂ R as bs)
    (same : ∀ a b, R a b → p a = q b) : Option.Rel R (as.find? p) (bs.find? q) := by
  induction h with
  | nil => exact .none
  | @cons a b _ _ hab _ ih =>
    rw [List.find?_cons, List.find?_cons, same a b hab]
    cases q b with
    | true => exact .some hab
    | false => exact ih

theorem rel_head? (h : List.Forall₂ R as bs) : Option.Rel R as.head? bs.head? := by
  cases h with
  | nil => exact .none
  | cons hab _ => exact .some hab

theorem map_eq_of_forall₂ {f : α → γ} {g : β → γ} (h : List.Forall₂ R as bs)
    (same : ∀ a b, R a b → f a = g b) : as.map f = bs.map g := by
  induction h with
  | nil => rfl
  | cons hab _ ih => rw [List.map_cons, List.map_cons, same _ _ hab, ih]

end Lists

/-! ### Blocks -/

namespace Block.Rearranged

/-- **A block is read as an equal entity.** Whether it is one at all does not depend on the order of
keys either, but the violation that is reported does. -/
theorem parse_agree {a b : Block} (h : a.Rearranged b) (keyed : a.fields.WellKeyed) (kind : Kind) :
    Checked.Agree (fun x y ↦ Entity.same kind x y = true) (Entity.parseBlock kind a)
      (Entity.parseBlock kind b) := by
  rw [Entity.parseBlock, Entity.parseBlock, h.kind]
  split
  · exact Entity.parseFields_agree h.fields keyed
  · exact .error _ _

end Block.Rearranged

namespace Document.Rearranged

variable {a b : Document}

/-- The blocks of the documents are rearrangements one by one, in the same order. -/
theorem blocks (h : a.Rearranged b) : List.Forall₂ Block.Rearranged a.blocks b.blocks :=
  List.rel_flatMap h.packages fun _ _ hpackage ↦ hpackage.blocks

/-! ### Lookups and references -/

/-- **The same block is found.** A lookup compares kinds and names only, and these are the same on
both sides. -/
theorem lookup_agree (h : a.Rearranged b) (kind : Kind) (name : String) :
    Checked.Agree Block.Rearranged (a.lookup kind name) (b.lookup kind name) := by
  have hfind : Option.Rel Block.Rearranged (a.findBlockOfKind? kind.name name)
      (b.findBlockOfKind? kind.name name) :=
    rel_find? h.blocks fun x y hxy ↦ by rw [hxy.kind, hxy.name]
  rw [lookup_eq, lookup_eq]
  generalize a.findBlockOfKind? kind.name name = x?, b.findBlockOfKind? kind.name name = y? at hfind
  cases hfind with
  | some hxy => exact .ok hxy
  | none =>
    cases a.findBlock? name <;> cases b.findBlock? name <;> exact .error _ _

/-- **A reference resolves to equal entities**, or to none in both documents. -/
theorem resolve_agree (h : a.Rearranged b) (keyed : a.WellKeyed) {kind : Kind}
    (reference : Reference kind) :
    Checked.Agree (fun x y ↦ Entity.same kind x y = true) (a.resolve reference)
      (b.resolve reference) := by
  refine (h.lookup_agree kind reference.name).bind fun x y hx hxy ↦ ?_
  exact hxy.parse_agree (keyed x (mem_blocks_of_findBlockOfKind? (lookup_eq_ok_iff.1 hx))) kind

/-! ### The application -/

theorem applicationBlocks (h : a.Rearranged b) :
    List.Forall₂ Block.Rearranged a.applicationBlocks b.applicationBlocks := by
  have hpackage {p q : Package} (hpq : p.Rearranged q) :
      List.Forall₂ Block.Rearranged (p.blocksOfKind Kind.application.name)
        (q.blocksOfKind Kind.application.name) :=
    List.rel_filter (fun x y hxy ↦ by
      show (x.kind == _) = true ↔ (y.kind == _) = true
      rw [hxy.kind]) hpq.blocks
  rw [Document.applicationBlocks, Document.applicationBlocks, entryPackage?, entryPackage?]
  generalize a.packages.head? = p?, b.packages.head? = q?, rel_head? h.packages = hpackages
  cases hpackages with
  | none => exact .nil
  | some hpq => exact hpackage hpq

theorem applicationName?_eq (h : a.Rearranged b) :
    a.applicationName? = b.applicationName? := by
  rw [applicationName?, applicationName?, ← List.head?_map, ← List.head?_map,
    map_eq_of_forall₂ h.applicationBlocks fun _ _ hxy ↦ hxy.name]

/-- **The applications are equal**, or neither document has one. That there are several of them
shows in both. -/
theorem resolveApplication_agree (h : a.Rearranged b) (keyed : a.WellKeyed) :
    Checked.Agree (fun x y ↦ Application.same x y = true) a.resolveApplication
      b.resolveApplication := by
  have hkeyed : ∀ block ∈ a.applicationBlocks, block.fields.WellKeyed := fun block hmem ↦
    keyed block (mem_blocks_of_mem_applicationBlocks hmem)
  rw [resolveApplication, resolveApplication]
  generalize a.applicationBlocks = xs, b.applicationBlocks = ys, h.applicationBlocks = hblocks
    at hkeyed
  cases hblocks with
  | nil => exact .error _ _
  | cons hfirst hrest =>
    cases hrest with
    | nil => exact hfirst.parse_agree (hkeyed _ List.mem_cons_self) .application
    | cons _ _ => exact .error _ _

end Document.Rearranged

/-! ### What equal entities have in common -/

/-- What it means part by part that two applications are equal. Samples and options have comparisons
of their own, since numbers and keys occur in them. -/
theorem Application.same_iff {x y : Application} :
    x.same y = true ↔ x.name = y.name ∧ x.defaultProvider = y.defaultProvider ∧
      x.providers = y.providers ∧ x.functions = y.functions ∧ x.workflow = y.workflow ∧
      sameList InputExample.same x.inputExamples y.inputExamples = true ∧
      sameOption Fields.same x.options y.options = true := by
  simp only [Application.same, Bool.and_eq_true, beq_iff_eq, and_assoc]

/-- Equal lists are of the same length; the summary counts samples. -/
theorem length_eq_of_sameList {α : Type} {same : α → α → Bool} {as bs : List α}
    (h : Application.sameList same as bs = true) : as.length = bs.length := by
  induction as generalizing bs with
  | nil =>
    cases bs with
    | nil => rfl
    | cons b bs => exact absurd h (by simp [Application.sameList])
  | cons a as ih =>
    cases bs with
    | nil => exact absurd h (by simp [Application.sameList])
    | cons b bs =>
      rw [Application.sameList, Bool.and_eq_true] at h
      rw [List.length_cons, List.length_cons, ih h.2]

/-- Equal providers are of the same kind, which is all that the summary says of them. -/
theorem Provider.kind_eq_of_same {x y : Provider} (h : x.same y = true) : x.kind = y.kind := by
  simp only [Provider.same, Bool.and_eq_true, beq_iff_eq, and_assoc] at h
  exact h.1

theorem Function.parts_eq_of_same {x y : Function} (h : x.same y = true) :
    x.runtime = y.runtime ∧ x.triggers = y.triggers ∧ x.pubsub = y.pubsub := by
  simp only [Function.same, Bool.and_eq_true, beq_iff_eq] at h
  tauto

theorem Workflow.functions_eq_of_same {x y : Workflow} (h : x.same y = true) :
    x.functions = y.functions := by
  simp only [Workflow.same, Bool.and_eq_true, beq_iff_eq] at h
  tauto

namespace Document.Rearranged

variable {a b : Document}

/-! ### The summary -/

/-- The providers are listed in the same way. One that does not resolve is listed without its kind,
on both sides. -/
theorem providerInfo_eq (h : a.Rearranged b) (keyed : a.WellKeyed) :
    a.providerInfo = b.providerInfo := by
  funext reference
  rw [providerInfo, providerInfo]
  generalize a.resolve reference = x, b.resolve reference = y, h.resolve_agree keyed reference = hxy
  cases hxy with
  | ok hxy =>
    show ProviderInfo.mk _ _ = ProviderInfo.mk _ _
    rw [Provider.kind_eq_of_same hxy]
  | error => rfl

theorem functionInfo_eq (h : a.Rearranged b) (keyed : a.WellKeyed) :
    a.functionInfo = b.functionInfo := by
  funext reference
  rw [functionInfo, functionInfo]
  generalize a.resolve reference = x, b.resolve reference = y, h.resolve_agree keyed reference = hxy
  cases hxy with
  | @ok x y hxy =>
    obtain ⟨hruntime, htriggers, -⟩ := Function.parts_eq_of_same hxy
    show FunctionInfo.mk _ _ _ = FunctionInfo.mk _ _ _
    rw [hruntime, htriggers]
  | error => rfl

theorem workflowInfo_eq (h : a.Rearranged b) (keyed : a.WellKeyed) :
    a.workflowInfo = b.workflowInfo := by
  funext reference
  rw [workflowInfo, workflowInfo, h.functionInfo_eq keyed]
  generalize a.resolve reference = x, b.resolve reference = y, h.resolve_agree keyed reference = hxy
  cases hxy with
  | ok hxy =>
    show WorkflowInfo.mk _ _ = WorkflowInfo.mk _ _
    rw [Workflow.functions_eq_of_same hxy]
  | error => rfl

/-- The blocks are counted in the same way, since only their kinds are. -/
theorem stats_eq (h : a.Rearranged b) : a.stats = b.stats := by
  rw [stats, stats, h.packages.length_eq, map_eq_of_forall₂ h.blocks fun _ _ hxy ↦ hxy.kind]

/-- **The summaries are the same.** They are compared by equality, as they show no part in which
keys could stand. -/
theorem info_agree (h : a.Rearranged b) (keyed : a.WellKeyed) (path : String) :
    Checked.Agree Eq (a.info path) (b.info path) := by
  refine (h.resolveApplication_agree keyed).bind fun x y _ hxy ↦ .ok ?_
  obtain ⟨hname, hdefault, hproviders, hfunctions, hworkflow, hsamples, -⟩ :=
    Application.same_iff.1 hxy
  rw [hname, hdefault, hproviders, hfunctions, hworkflow, length_eq_of_sameList hsamples,
    h.applicationName?_eq, h.providerInfo_eq keyed, h.functionInfo_eq keyed,
    h.workflowInfo_eq keyed, h.stats_eq]

end Document.Rearranged

/-! ### The walk over the references -/

namespace Lint.DanglingReference

variable {a b : Document}

/-- What the walk finds behind a reference is the same if equal entities lead it to the same. -/
theorem behind_eq (h : a.Rearranged b) (keyed : a.WellKeyed) {kind : Kind}
    (reference : Reference kind) {next next' : Entity kind → List Occurrence}
    (same : ∀ x y, Entity.same kind x y = true → next x = next' y) :
    behind a reference next = behind b reference next' := by
  rw [behind, behind]
  generalize a.resolve reference = x, b.resolve reference = y, h.resolve_agree keyed reference = hxy
  cases hxy with
  | ok hxy => exact same _ _ hxy
  | error => rfl

theorem ofFunction_eq (h : a.Rearranged b) (keyed : a.WellKeyed) :
    ofFunction a = ofFunction b := by
  funext reference location
  rw [ofFunction, ofFunction, behind_eq h keyed reference fun x y hxy ↦ ?_]
  obtain ⟨-, -, hpubsub⟩ := Function.parts_eq_of_same hxy
  rw [hpubsub]

theorem ofWorkflow_eq (h : a.Rearranged b) (keyed : a.WellKeyed) :
    ofWorkflow a = ofWorkflow b := by
  funext reference
  rw [ofWorkflow, ofWorkflow, behind_eq h keyed reference fun x y hxy ↦ ?_]
  rw [ofFunction_eq h keyed, Workflow.functions_eq_of_same hxy]

/-- **The walk comes to the same references at the same places.** Places are texts made of names and
numbers, and no key of a bag is in them. -/
theorem occurrences_eq (h : a.Rearranged b) (keyed : a.WellKeyed) {x y : Application}
    (hxy : x.same y = true) : occurrences a x = occurrences b y := by
  obtain ⟨-, hdefault, hproviders, hfunctions, hworkflow, -, -⟩ := Application.same_iff.1 hxy
  rw [occurrences, occurrences, hdefault, hproviders, hfunctions, hworkflow, ofFunction_eq h keyed,
    ofWorkflow_eq h keyed]

/-- A reference fails to resolve in both documents or in none. Only the place is compared: the
message of a violation may name another field. -/
theorem location_of_finding?_eq (h : a.Rearranged b) (keyed : a.WellKeyed) (o : Occurrence) :
    (finding? a o).map (·.location) = (finding? b o).map (·.location) := by
  rw [finding?, finding?]
  generalize a.resolve o.reference = x, b.resolve o.reference = y,
    h.resolve_agree keyed o.reference = hxy
  cases hxy <;> rfl

/-- **The walk fails at the same places**, in the same order. -/
theorem locations_eq (h : a.Rearranged b) (keyed : a.WellKeyed) {x y : Application}
    (hxy : x.same y = true) :
    (check a x).map (·.location) = (check b y).map (·.location) := by
  rw [check_eq_filterMap, check_eq_filterMap, occurrences_eq h keyed hxy, List.map_filterMap,
    List.map_filterMap]
  exact List.filterMap_congr fun o _ ↦ location_of_finding?_eq h keyed o

end Lint.DanglingReference

namespace Document

/-- **The meaning of a document does not depend on the order of keys.** Two documents that differ in
it only have equal applications or none; every reference resolves to equal entities in both or in
neither; their summaries are the same, or there is none of either; and where they have applications,
the walk over the references of these fails at the same places, in the same order. -/
theorem meaning_ignores_key_order {a b : Document} (h : a.Rearranged b) (keyed : a.WellKeyed) :
    Checked.Agree (fun x y ↦ Application.same x y = true) a.resolveApplication
        b.resolveApplication ∧
      (∀ (kind : Kind) (reference : Reference kind),
        Checked.Agree (fun x y ↦ Entity.same kind x y = true) (a.resolve reference)
          (b.resolve reference)) ∧
      (∀ path, Checked.Agree Eq (a.info path) (b.info path)) ∧
      ∀ x y, a.resolveApplication = .ok x → b.resolveApplication = .ok y →
        (Lint.DanglingReference.check a x).map (·.location) =
          (Lint.DanglingReference.check b y).map (·.location) := by
  have happlication := h.resolveApplication_agree keyed
  refine ⟨happlication, fun kind ↦ h.resolve_agree keyed, h.info_agree keyed,
    fun x y hx hy ↦ ?_⟩
  rw [hx, hy] at happlication
  cases happlication with
  | ok hxy => exact Lint.DanglingReference.locations_eq h keyed hxy

/-- A provider with its keys in another order, at the top and in a nested setting. -/
theorem sorted_provider_means_the_same :
    let document (provider : Fields) : Document := ⟨none, [⟨none,
      [⟨"provider", "p", provider⟩,
        ⟨"application", "app", [("defaultProvider", .reference ⟨"p", none⟩)]⟩]⟩]⟩
    let a := document [("limits", .object [("rate", .int 1), ("burst", .int 3)]),
      ("kind", .string "oss")]
    let b := document [("kind", .string "oss"),
      ("limits", .object [("burst", .int 3), ("rate", .int 1)])]
    a.Rearranged b ∧ a.WellKeyed ∧
      ∃ report, a.info "app.json" = .ok report ∧ b.info "app.json" = .ok report := by
  intro document a b
  have hlimits : (Value.object [("rate", .int 1), ("burst", .int 3)]).Rearranged
      (.object [("burst", .int 3), ("rate", .int 1)]) :=
    have h := Fields.rearranged_of_perm (by decide) (List.Perm.swap _ _ _)
    .object h.keys h.each
  have hprovider : Fields.Rearranged
      [("limits", .object [("rate", .int 1), ("burst", .int 3)]), ("kind", .string "oss")]
      [("kind", .string "oss"), ("limits", .object [("burst", .int 3), ("rate", .int 1)])] :=
    (Entries.Rel.cons "limits" hlimits (Fields.Rearranged.refl _)).perm (by decide)
      (List.Perm.swap _ _ _)
  have h : a.Rearranged b :=
    ⟨rfl, .cons ⟨rfl, .cons ⟨rfl, rfl, hprovider⟩ (.cons ⟨rfl, rfl, .refl _⟩ .nil)⟩ .nil⟩
  have keyed : a.WellKeyed := List.forall_mem_cons.2
    ⟨⟨by decide, ⟨by decide, trivial, trivial, trivial⟩, trivial, trivial⟩,
      List.forall_mem_singleton.2 ⟨by decide, trivial, trivial⟩⟩
  obtain ⟨-, -, hinfo, -⟩ := meaning_ignores_key_order h keyed
  obtain ⟨report, hreport⟩ : ∃ report, a.info "app.json" = .ok report := ⟨_, rfl⟩
  have hagree := hinfo "app.json"
  rw [hreport] at hagree
  refine ⟨h, keyed, report, hreport, ?_⟩
  cases hagree with
  | ok hsame => exact hsame ▸ rfl

end Document

end AppManifest
