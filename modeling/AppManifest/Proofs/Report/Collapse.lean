import AppManifest.Proofs.Report.Ambiguity
import AppManifest.Proofs.Report.Expansion
/-!
# Expansions collapse to the application

An expansion holds an entity for each reference of the application and nothing else. If the entities
are left out again, what is left is the application itself (`ExpandedApplication.collapse`), and
each entity is what its reference resolves to (`ExpandedApplication.Resolves`). These two facts
determine the expansion, so they say exactly when it succeeds and with what. Where it fails, the
error is that of the first reference that does not resolve
(`Document.expand_collapses_or_fails_first`).
-/

namespace AppManifest

variable {document : Document} {kind : Kind}

namespace Named

/-- The entity is the one that the name resolves to. -/
def Resolves (document : Document) (named : Named kind) : Prop :=
  document.resolve named.reference = .ok named.entity

end Named

namespace ExpandedApplication

/-- The application with references in the places of the named entities. -/
def collapse (expanded : ExpandedApplication) : Application where
  name := expanded.name
  defaultProvider := expanded.defaultProvider.reference
  providers := expanded.providers.map Named.reference
  functions := expanded.functions.map Named.reference
  workflow := expanded.workflow.map Named.reference
  inputExamples := expanded.inputExamples
  options := expanded.options

/-- Every entity is the one that its name resolves to. -/
structure Resolves (document : Document) (expanded : ExpandedApplication) : Prop where
  defaultProvider : expanded.defaultProvider.Resolves document
  providers : ∀ provider ∈ expanded.providers, provider.Resolves document
  functions : ∀ function ∈ expanded.functions, function.Resolves document
  workflow : ∀ workflow ∈ expanded.workflow, workflow.Resolves document

end ExpandedApplication

namespace Document

/-! ### References one by one -/

theorem expandReference_eq_ok_iff_resolves {reference : Reference kind} {named : Named kind} :
    document.expandReference reference = .ok named ↔
      named.reference = reference ∧ named.Resolves document := by
  rw [expandReference_eq_ok_iff]
  constructor
  · rintro ⟨hname, hentity⟩
    obtain rfl : named.reference = reference := by rw [Named.reference, hname]
    exact ⟨rfl, hentity⟩
  · rintro ⟨rfl, hentity⟩
    exact ⟨rfl, hentity⟩

/-- **Lists keep their length, their order and their repetitions.** A name that is listed twice is
resolved twice, to the same entity. -/
theorem expandAll_eq_ok_iff_resolves {references : List (Reference kind)}
    {named : List (Named kind)} :
    document.expandAll references = .ok named ↔
      named.map Named.reference = references ∧ ∀ n ∈ named, n.Resolves document := by
  rw [expandAll_eq_ok_iff]
  constructor
  · intro h
    induction h with
    | nil => exact ⟨rfl, fun n hmem ↦ absurd hmem List.not_mem_nil⟩
    | cons hfirst _ ih =>
      obtain ⟨hname, hresolves⟩ := expandReference_eq_ok_iff_resolves.1 hfirst
      exact ⟨by rw [List.map_cons, hname, ih.1], List.forall_mem_cons.2 ⟨hresolves, ih.2⟩⟩
  · rintro ⟨rfl, h⟩
    exact List.forall₂_map_left_iff.2 (List.forall₂_same.2 fun n hmem ↦
      expandReference_eq_ok_iff_resolves.2 ⟨rfl, h n hmem⟩)

theorem expandOption_eq_ok_iff_resolves {reference? : Option (Reference kind)}
    {named? : Option (Named kind)} :
    document.expandOption reference? = .ok named? ↔
      named?.map Named.reference = reference? ∧ ∀ n ∈ named?, n.Resolves document := by
  constructor
  · intro h
    rcases rel_of_expandOption h with hreference | -
    · obtain ⟨rfl, hresolves⟩ := expandReference_eq_ok_iff_resolves.1 hreference
      refine ⟨rfl, fun n hmem ↦ ?_⟩
      rwa [← Option.some.inj hmem]
    · exact ⟨rfl, fun n hmem ↦ absurd hmem (by simp)⟩
  · rintro ⟨rfl, h⟩
    rcases named? with - | named
    · rfl
    · have hnamed := expandReference_eq_ok_iff_resolves.2 ⟨rfl, h named rfl⟩
      exact Checked.bind_eq_ok.2 ⟨named, hnamed, rfl⟩

/-! ### Whole applications -/

/-- **An expansion is what collapses to the application and resolves.** So an expansion has all the
information of the application, and nothing beside it but what the references resolve to. -/
theorem expand_eq_ok_iff {app : Application} {expanded : ExpandedApplication} :
    document.expand app = .ok expanded ↔
      expanded.collapse = app ∧ expanded.Resolves document := by
  rw [expand]
  constructor
  · intro h
    obtain ⟨defaultProvider, hdefault, h⟩ := Checked.bind_eq_ok.1 h
    obtain ⟨providers, hproviders, h⟩ := Checked.bind_eq_ok.1 h
    obtain ⟨functions, hfunctions, h⟩ := Checked.bind_eq_ok.1 h
    obtain ⟨workflow, hworkflow, h⟩ := Checked.bind_eq_ok.1 h
    obtain rfl := Except.ok.inj h
    obtain ⟨hdefault, resolvesDefault⟩ := expandReference_eq_ok_iff_resolves.1 hdefault
    obtain ⟨hproviders, resolvesProviders⟩ := expandAll_eq_ok_iff_resolves.1 hproviders
    obtain ⟨hfunctions, resolvesFunctions⟩ := expandAll_eq_ok_iff_resolves.1 hfunctions
    obtain ⟨hworkflow, resolvesWorkflow⟩ := expandOption_eq_ok_iff_resolves.1 hworkflow
    refine ⟨?_, resolvesDefault, resolvesProviders, resolvesFunctions, resolvesWorkflow⟩
    rw [ExpandedApplication.collapse, hdefault, hproviders, hfunctions, hworkflow]
  · rintro ⟨rfl, hdefault, hproviders, hfunctions, hworkflow⟩
    refine Checked.bind_eq_ok.2 ⟨_, expandReference_eq_ok_iff_resolves.2 ⟨rfl, hdefault⟩, ?_⟩
    refine Checked.bind_eq_ok.2 ⟨_, expandAll_eq_ok_iff_resolves.2 ⟨rfl, hproviders⟩, ?_⟩
    refine Checked.bind_eq_ok.2 ⟨_, expandAll_eq_ok_iff_resolves.2 ⟨rfl, hfunctions⟩, ?_⟩
    exact Checked.bind_eq_ok.2 ⟨_, expandOption_eq_ok_iff_resolves.2 ⟨rfl, hworkflow⟩, rfl⟩

/-- **An expansion fails with the error of the first reference that does not resolve.** The order of
the references is the one in which their fields are expanded, the workflow last. -/
theorem expand_eq_error_iff {app : Application} {e : Error} :
    document.expand app = .error e ↔ ∃ before first after,
      app.references = before ++ first :: after ∧ document.resolve first.2 = .error e ∧
        ∀ reference ∈ before, ∃ entity, document.resolve reference.2 = .ok entity := by
  rw [← Checked.failure?_eq_some_iff, failure?_expand_eq_findSome?, List.findSome?_eq_some_iff]
  simp only [Checked.failure?_eq_some_iff, Checked.failure?_eq_none_iff]

/-- **Expansion loses and invents nothing.** It gives exactly the applications with entities that
collapse to the given one, with its names and lists, and whose entities are what the references
resolve to. If it fails, it does so with the error of the first reference that does not resolve, in
the order of the default provider, the providers, the functions and the workflow. -/
theorem expand_collapses_or_fails_first (document : Document) (app : Application) :
    (∀ expanded, document.expand app = .ok expanded ↔
      expanded.collapse = app ∧ expanded.Resolves document) ∧
    ∀ e, document.expand app = .error e ↔ ∃ before first after,
      app.references = before ++ first :: after ∧ document.resolve first.2 = .error e ∧
        ∀ reference ∈ before, ∃ entity, document.resolve reference.2 = .ok entity :=
  ⟨fun _ ↦ expand_eq_ok_iff, fun _ ↦ expand_eq_error_iff⟩

end Document

end AppManifest
