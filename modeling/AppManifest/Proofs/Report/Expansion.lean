import AppManifest.Report.Expansion
import AppManifest.Proofs.Lint.DanglingReference
/-!
# Expansion and the findings at direct locations

Expansion stops at the first error and looks at the references of the application alone. The lint
for references that do not resolve goes on, and looks behind functions and workflows in between.
Both see the same references in the same order: those of the application are the occurrences at a
direct location (`filter_occurrences`, `map_directs`), and expansion fails with the error of the
first of them that fails (`failure?_expand_eq_findSome?`).

What the lint finds in between stands at locations of functions and workflows. Hence the first
finding at a direct location has the message of the error of the expansion
(`exists_first_finding`).
-/

namespace AppManifest

/-- The references that an application names itself, in the order in which they are expanded. -/
def Application.references (app : Application) : List ((kind : Kind) × Reference kind) :=
  [⟨.provider, app.defaultProvider⟩] ++ (app.providers.map (Sigma.mk .provider) ++
    (app.functions.map (Sigma.mk .function) ++ app.workflow.toList.map (Sigma.mk .workflow)))

namespace Lint.DanglingReference

/-! ### Direct locations -/

/-- The places of the references that an application names itself. -/
inductive DirectLocation : String → Prop where
  | defaultProvider : DirectLocation "application.defaultProvider"
  | provider (i : Nat) : DirectLocation ("application.providers[" ++ toString i ++ "]")
  | function (i : Nat) : DirectLocation ("application.functions[" ++ toString i ++ "]")
  | workflow : DirectLocation "application.workflow"

/-- Whether a location is inside the application. -/
def isDirect (location : String) : Bool := "application.".toList.isPrefixOf location.toList

/-- Direct locations start with the word for the application. The converse fails, but no occurrence
of the walk needs it. -/
theorem isDirect_of_directLocation {location : String} (h : DirectLocation location) :
    isDirect location = true := by
  cases h <;> simp [isDirect, String.toList_append]

/-- Events are at a location of their function. -/
theorem isDirect_events (name : String) (i : Nat) :
    isDirect ("function." ++ name ++ ".pubsub.events" ++ "[" ++ toString i ++ "]") = false := by
  simp [isDirect, String.toList_append, List.isPrefixOf]

/-- Functions of a workflow are at a location of the workflow. -/
theorem isDirect_workflowFunctions (name : String) (i : Nat) :
    isDirect ("workflow." ++ name ++ ".functions" ++ "[" ++ toString i ++ "]") = false := by
  simp [isDirect, String.toList_append, List.isPrefixOf]

/-- The elements of the two lists of the application are at direct locations. -/
theorem directLocation_provider (i : Nat) :
    DirectLocation ("application.providers" ++ "[" ++ toString i ++ "]") := .provider i

theorem directLocation_function (i : Nat) :
    DirectLocation ("application.functions" ++ "[" ++ toString i ++ "]") := .function i

/-- The occurrences of the references that an application names itself. -/
def directs (app : Application) : List Occurrence :=
  [⟨.provider, app.defaultProvider, "application.defaultProvider"⟩] ++
  (listed "application.providers" app.providers ++
  (listed "application.functions" app.functions ++
  app.workflow.toList.map fun workflow ↦ ⟨.workflow, workflow, "application.workflow"⟩))

variable {document : Document} {app : Application}

/-- The references of a list, without the places where they stand. -/
theorem map_listed {kind : Kind} (list : String) (references : List (Reference kind)) :
    (listed list references).map (fun o ↦ (⟨o.kind, o.reference⟩ : (k : Kind) × Reference k)) =
      references.map (Sigma.mk kind) := by
  have hmap : (references.mapIdx fun i reference ↦
      [(⟨kind, reference, list ++ "[" ++ toString i ++ "]"⟩ : Occurrence)]).map
        (List.map fun o ↦ (⟨o.kind, o.reference⟩ : (k : Kind) × Reference k)) =
      references.map fun reference ↦ [⟨kind, reference⟩] :=
    List.ext_getElem (by simp) fun i h₁ h₂ ↦ by simp
  rw [listed, each, List.map_flatten, hmap, ← List.flatMap_def, ← List.map_eq_flatMap]

/-- The references of the application stand at the direct locations, in their order. -/
theorem map_directs (app : Application) :
    (directs app).map (fun o ↦ (⟨o.kind, o.reference⟩ : (k : Kind) × Reference k)) =
      app.references := by
  rw [directs, List.map_append, List.map_append, List.map_append, map_listed, map_listed,
    List.map_map]
  rfl

theorem directLocation_of_mem_directs {o : Occurrence} (hmem : o ∈ directs app) :
    DirectLocation o.location := by
  rw [directs, List.mem_append, List.mem_append, List.mem_append] at hmem
  rcases hmem with hmem | hmem | hmem | hmem
  · rw [List.mem_singleton.1 hmem]
    exact .defaultProvider
  · obtain ⟨i, h, rfl⟩ := mem_listed_iff.1 hmem
    exact directLocation_provider i
  · obtain ⟨i, h, rfl⟩ := mem_listed_iff.1 hmem
    exact directLocation_function i
  · obtain ⟨workflow, -, rfl⟩ := List.mem_map.1 hmem
    exact .workflow

/-- What is kept of a list is kept of each of its elements. -/
theorem filter_each {α : Type} {p : Occurrence → Bool} {at? direct? : α → String → List Occurrence}
    {list : String} (h : ∀ (a : α) (i : Nat), (at? a (list ++ "[" ++ toString i ++ "]")).filter p =
      direct? a (list ++ "[" ++ toString i ++ "]")) (as : List α) :
    (each at? list as).filter p = each direct? list as := by
  have hmap : (as.mapIdx fun i a ↦ at? a (list ++ "[" ++ toString i ++ "]")).map (List.filter p) =
      as.mapIdx fun i a ↦ direct? a (list ++ "[" ++ toString i ++ "]") := by
    refine List.ext_getElem (by simp) fun i h₁ h₂ ↦ ?_
    simp only [List.getElem_map, List.getElem_mapIdx, h]
  rw [each, List.filter_flatten, hmap, each]

/-- What lies behind a function is at no direct location. -/
theorem filter_ofFunction (reference : Reference .function) (location : String) :
    (ofFunction document reference location).filter (isDirect ·.location) =
      if isDirect location then [⟨.function, reference, location⟩] else [] := by
  have hbehind : List.filter (isDirect ·.location) (behind document reference fun target ↦
      listed ("function." ++ reference.name ++ ".pubsub.events")
        ((Function.pubsub target).toList.flatMap (·.events))) = [] := by
    rw [List.filter_eq_nil_iff]
    intro o hmem
    obtain ⟨target, -, hmem⟩ := mem_behind_iff.1 hmem
    obtain ⟨i, h, rfl⟩ := mem_listed_iff.1 hmem
    rw [isDirect_events]
    exact Bool.false_ne_true
  rw [ofFunction, List.filter_cons, hbehind]

/-- What lies behind a workflow is at no direct location, and neither is what lies behind that. -/
theorem filter_ofWorkflow (reference : Reference .workflow) :
    (ofWorkflow document reference).filter (isDirect ·.location) =
      [⟨.workflow, reference, "application.workflow"⟩] := by
  have hbehind : (behind document reference fun target ↦
      each (ofFunction document) ("workflow." ++ reference.name ++ ".functions")
        (Workflow.functions target)).filter (isDirect ·.location) = [] := by
    rw [List.filter_eq_nil_iff]
    intro o hmem hdirect
    obtain ⟨target, -, hmem⟩ := mem_behind_iff.1 hmem
    obtain ⟨i, h, hmem⟩ := mem_each_iff.1 hmem
    have hfilter : o ∈ (ofFunction document _ _).filter (isDirect ·.location) :=
      List.mem_filter.2 ⟨hmem, hdirect⟩
    rw [filter_ofFunction, isDirect_workflowFunctions] at hfilter
    exact absurd hfilter (by simp)
  rw [ofWorkflow, List.filter_cons, hbehind, if_pos (isDirect_of_directLocation .workflow)]

/-- **The occurrences at direct locations are the references of the application itself**, in
order. -/
theorem filter_occurrences (document : Document) (app : Application) :
    (occurrences document app).filter (isDirect ·.location) = directs app := by
  have hproviders : (listed "application.providers" app.providers).filter (isDirect ·.location) =
      listed "application.providers" app.providers := by
    refine filter_each (fun reference i ↦ ?_) app.providers
    exact List.filter_cons_of_pos (isDirect_of_directLocation (directLocation_provider i))
  have hfunctions : (each (ofFunction document) "application.functions" app.functions).filter
      (isDirect ·.location) = listed "application.functions" app.functions := by
    refine filter_each (fun reference i ↦ ?_) app.functions
    rw [filter_ofFunction, if_pos (isDirect_of_directLocation (directLocation_function i))]
  have hworkflow : (app.workflow.toList.flatMap (ofWorkflow document)).filter
      (isDirect ·.location) = app.workflow.toList.map
        fun workflow ↦ ⟨.workflow, workflow, "application.workflow"⟩ := by
    cases app.workflow with
    | none => rfl
    | some workflow =>
      show (ofWorkflow document workflow ++ []).filter _ = _
      rw [List.append_nil, filter_ofWorkflow]
      rfl
  have hdefault := isDirect_of_directLocation .defaultProvider
  rw [occurrences, List.filter_append, List.filter_append, List.filter_append, hproviders,
    hfunctions, hworkflow, directs, List.filter_cons, if_pos hdefault, List.filter_nil]

/-! ### The first failure -/

/-- The error of an occurrence that fails to resolve. -/
def failure? (document : Document) (o : Occurrence) : Option Error :=
  (document.resolve o.reference).failure?

/-- An occurrence that fails is found, with the message of its error. -/
theorem finding?_of_failure? {o : Occurrence} {e : Error} (h : failure? document o = some e) :
    finding? document o = some ⟨.error, "dangling-reference", e.message, some o.location⟩ :=
  finding?_eq_some_iff.2 ⟨e, Checked.failure?_eq_some_iff.1 h, rfl⟩

end Lint.DanglingReference

namespace Document

open Lint.DanglingReference

variable {document : Document} {app : Application}

theorem failure?_expandReference {kind : Kind} (reference : Reference kind) :
    (document.expandReference reference).failure? = (document.resolve reference).failure? := by
  rw [expandReference, Checked.failure?_map]

theorem failure?_expandAll {kind : Kind} (references : List (Reference kind)) :
    (document.expandAll references).failure? =
      references.findSome? fun reference ↦ (document.resolve reference).failure? := by
  induction references with
  | nil => rfl
  | cons reference rest ih =>
    have hcons : (document.expandAll (reference :: rest)).failure? =
        (document.expandReference reference).failure?.or (document.expandAll rest).failure? :=
      Checked.failure?_bind fun _ ↦ Checked.failure?_map _ _
    rw [hcons, ih, failure?_expandReference, List.findSome?_cons]
    cases (document.resolve reference).failure? <;> rfl

theorem failure?_expandOption {kind : Kind} (reference? : Option (Reference kind)) :
    (document.expandOption reference?).failure? =
      reference?.toList.findSome? fun reference ↦ (document.resolve reference).failure? := by
  cases reference? with
  | none => rfl
  | some reference =>
    rw [expandOption, Checked.failure?_map, failure?_expandReference]
    show _ = [reference].findSome? _
    rw [List.findSome?_singleton]

/-- **Expansion fails with the error of the first reference of the application that fails.** The
errors are those of `resolve`, as they are. -/
theorem failure?_expand_eq_findSome? (document : Document) (app : Application) :
    (document.expand app).failure? =
      app.references.findSome? fun reference ↦ (document.resolve reference.2).failure? := by
  have hexpand : (document.expand app).failure? =
      (document.expandReference app.defaultProvider).failure?.or
        ((document.expandAll app.providers).failure?.or
          ((document.expandAll app.functions).failure?.or
            (document.expandOption app.workflow).failure?)) :=
    Checked.failure?_bind fun _ ↦ Checked.failure?_bind fun _ ↦ Checked.failure?_bind fun _ ↦
      Checked.failure?_map _ _
  rw [hexpand, failure?_expandReference, failure?_expandAll, failure?_expandAll,
    failure?_expandOption, Application.references, List.findSome?_append, List.findSome?_append,
    List.findSome?_append, List.findSome?_map, List.findSome?_map, List.findSome?_map,
    List.findSome?_singleton]
  rfl

/-- The same among the occurrences at direct locations. -/
theorem failure?_expand (document : Document) (app : Application) :
    (document.expand app).failure? =
      (directs app).findSome? (Lint.DanglingReference.failure? document) := by
  rw [failure?_expand_eq_findSome?, ← map_directs, List.findSome?_map]
  rfl

end Document

namespace Lint.DanglingReference

/-! ### The first finding -/

/-- A finding of this lint for a reference that the application names itself. -/
structure DirectFinding (d : Diagnostic) : Prop where
  severity : d.severity = .error
  lint : d.lint = "dangling-reference"
  location : ∃ location, d.location = some location ∧ DirectLocation location

/-- Among the occurrences of the walk, the direct ones are known by their locations. -/
theorem mem_directs_iff {o : Occurrence} :
    o ∈ directs app ↔ o ∈ occurrences document app ∧ isDirect o.location = true := by
  rw [← filter_occurrences document, List.mem_filter]

/-- An error of this lint at a direct occurrence is a direct finding, whatever it says. -/
theorem directFinding_of_mem_directs {o : Occurrence} (hmem : o ∈ directs app) (message : String) :
    DirectFinding ⟨.error, "dangling-reference", message, some o.location⟩ :=
  ⟨rfl, rfl, o.location, rfl, directLocation_of_mem_directs hmem⟩

/-- A finding at a direct location is for a reference of the application. -/
theorem exists_mem_directs {d : Diagnostic} {os : List Occurrence}
    (hmem : d ∈ os.filterMap (finding? document)) {location : String}
    (hlocation : d.location = some location) (hdirect : DirectLocation location) :
    ∃ o ∈ os, isDirect o.location = true ∧ (failure? document o).isSome = true := by
  obtain ⟨o, ho, hfinding⟩ := List.mem_filterMap.1 hmem
  obtain ⟨e, he, rfl⟩ := finding?_eq_some_iff.1 hfinding
  obtain rfl : o.location = location := Option.some.inj hlocation
  have hfails : failure? document o = some e := Checked.failure?_eq_some_iff.2 he
  exact ⟨o, ho, isDirect_of_directLocation hdirect, by rw [hfails]; rfl⟩

/-- **Expansion succeeds exactly if the standard lints find no direct reference that fails.**
Findings at places behind a direct reference do not keep an application from being expanded. -/
theorem exists_expand_iff (document : Document) (app : Application) :
    (∃ expanded, document.expand app = .ok expanded) ↔
      ∀ d ∈ checkAll standard document app, ¬ DirectFinding d := by
  rw [← Checked.failure?_eq_none_iff, Document.failure?_expand, List.findSome?_eq_none_iff]
  constructor
  · rintro h d hmem ⟨hseverity, -, location, hlocation, hdirect⟩
    rw [checkAll_standard, List.mem_append] at hmem
    rcases hmem with hmem | hmem
    · rw [check_eq_filterMap] at hmem
      obtain ⟨o, ho, hisDirect, hfails⟩ := exists_mem_directs hmem hlocation hdirect
      rw [h o (mem_directs_iff.2 ⟨ho, hisDirect⟩)] at hfails
      exact absurd hfails (by decide)
    · rw [severity_of_mem_warnings hmem] at hseverity
      exact absurd hseverity (by decide)
  · intro h o ho
    cases he : failure? document o with
    | none => rfl
    | some e =>
      refine absurd (directFinding_of_mem_directs ho e.message) (h _ ?_)
      rw [checkAll_standard, List.mem_append, check_eq_filterMap, List.mem_filterMap]
      exact Or.inl ⟨o, (mem_directs_iff.1 ho).1, finding?_of_failure? he⟩

/-- **Where expansion fails, its error has the message of the first finding at a direct location.**
No finding of any lint stands at such a location before it. -/
theorem exists_first_finding {e : Error} (h : document.expand app = .error e) :
    ∃ before d after, checkAll standard document app = before ++ d :: after ∧ DirectFinding d ∧
      d.message = e.message ∧
      ∀ b ∈ before, ∀ location, b.location = some location → ¬ DirectLocation location := by
  rw [← Checked.failure?_eq_some_iff, Document.failure?_expand, List.findSome?_eq_some_iff] at h
  obtain ⟨earlier, o, later, hdirects, ho, hearlier⟩ := h
  have hmem : o ∈ directs app := by
    rw [hdirects]
    exact List.mem_append_right _ List.mem_cons_self
  -- the walk up to `o`: its direct part resolves, and the rest is found elsewhere
  have hfilter := filter_occurrences document app
  rw [hdirects, List.filter_eq_append_iff] at hfilter
  obtain ⟨first, rest, hwalk, hfirst, hrest⟩ := hfilter
  rw [List.filter_eq_cons_iff] at hrest
  obtain ⟨between, after, rfl, hbetween, -, -⟩ := hrest
  refine ⟨(first ++ between).filterMap (finding? document), _,
    after.filterMap (finding? document) ++ warnings document app, ?_,
    directFinding_of_mem_directs hmem e.message, rfl, ?_⟩
  · rw [checkAll_standard, check_eq_filterMap, hwalk, List.filterMap_append, List.filterMap_append,
      List.filterMap_append, List.filterMap_cons_some (finding?_of_failure? ho), List.append_assoc,
      List.append_assoc, List.append_assoc]
    rfl
  · intro b hb location hlocation hdirect
    -- such a finding would be for a direct reference that fails before the first one
    obtain ⟨o', ho', hisDirect, hfails⟩ := exists_mem_directs hb hlocation hdirect
    rcases List.mem_append.1 ho' with ho' | ho'
    · have hmem' : o' ∈ earlier := hfirst ▸ List.mem_filter.2 ⟨ho', hisDirect⟩
      rw [hearlier o' hmem'] at hfails
      exact absurd hfails (by decide)
    · exact hbetween o' ho' hisDirect

end Lint.DanglingReference

end AppManifest
