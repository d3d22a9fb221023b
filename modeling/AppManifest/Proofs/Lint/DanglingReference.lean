import AppManifest.Proofs.Lint.Severity
import AppManifest.Proofs.Resolution
/-!
# The walk over the references of an application

The walk is described by what it visits. `occurrences` lists every reference together with the place
where it stands, in the order of the walk; what lies behind a function or a workflow is there if
that resolves. `finding?` is the diagnostic that an occurrence deserves. Both are written from the
fields of the entities and from the texts of a report, and share nothing with the walk but the
resolution of references. The lint finds one error for each occurrence that fails to resolve, and
nothing else (`check_eq_filterMap`).

The same references are described without places and without an order by `Reachable`: the ones that
the application names, the functions of a workflow that resolves, and the events of any reachable
function that resolves. Both agree (`exists_occurrence_iff`), so a report is valid exactly if every
reachable reference finds a valid block of its kind.
-/

namespace AppManifest.Lint.DanglingReference

/-- A reference at a place in the document. -/
structure Occurrence where
  kind : Kind
  reference : Reference kind
  location : String

/-- What stands at each element of a list, whose place is its index behind the text of the list. -/
def each {α : Type} (at? : α → String → List Occurrence) (list : String) (as : List α) :
    List Occurrence :=
  (as.mapIdx fun i a ↦ at? a (list ++ "[" ++ toString i ++ "]")).flatten

/-- The references of a list. -/
def listed {kind : Kind} (list : String) (references : List (Reference kind)) : List Occurrence :=
  each (fun reference location ↦ [⟨kind, reference, location⟩]) list references

/-- What lies behind a reference: nothing if it fails to resolve. -/
def behind {kind : Kind} (document : Document) (reference : Reference kind)
    (next : Entity kind → List Occurrence) : List Occurrence :=
  match document.resolve reference with
  | .ok target => next target
  | .error _ => []

/-- A function and, behind it, its events. -/
def ofFunction (document : Document) (reference : Reference .function) (location : String) :
    List Occurrence :=
  ⟨.function, reference, location⟩ :: behind document reference fun target ↦
    listed ("function." ++ reference.name ++ ".pubsub.events")
      ((Function.pubsub target).toList.flatMap (·.events))

/-- A workflow and, behind it, its functions. -/
def ofWorkflow (document : Document) (reference : Reference .workflow) : List Occurrence :=
  ⟨.workflow, reference, "application.workflow"⟩ :: behind document reference fun target ↦
    each (ofFunction document) ("workflow." ++ reference.name ++ ".functions")
      (Workflow.functions target)

/-- Every occurrence of a reference that the walk comes to, in order. -/
def occurrences (document : Document) (app : Application) : List Occurrence :=
  [⟨.provider, app.defaultProvider, "application.defaultProvider"⟩] ++
  (listed "application.providers" app.providers ++
  (each (ofFunction document) "application.functions" app.functions ++
  app.workflow.toList.flatMap (ofWorkflow document)))

/-- The diagnostic for an occurrence: none if its reference resolves, and otherwise an error with
the message of the resolution, at the place of the occurrence. -/
def finding? (document : Document) (occurrence : Occurrence) : Option Diagnostic :=
  match document.resolve occurrence.reference with
  | .ok _ => none
  | .error e => some ⟨.error, "dangling-reference", e.message, some occurrence.location⟩

variable {document : Document} {app : Application}

/-! ### The walk finds what fails -/

/-- The events that the walk goes on to are those of the subscriptions, if there are any. -/
theorem events_eq (function : Function) :
    function.events = function.pubsub.toList.flatMap (·.events) := by
  rw [Function.events]
  cases function.pubsub with
  | none => rfl
  | some pubsub => exact (List.append_nil pubsub.events).symm

/-- A visit finds what the occurrence itself deserves, and then what the occurrences behind it
do. -/
theorem visit_eq {kind : Kind} (reference : Reference kind) (location : String)
    {next : Entity kind → List Diagnostic} {after : Entity kind → List Occurrence}
    (h : ∀ target, next target = (after target).filterMap (finding? document)) :
    visit document reference location next =
      List.filterMap (finding? document)
        (⟨kind, reference, location⟩ :: behind document reference after) := by
  rw [visit, List.filterMap_cons, finding?, behind]
  cases document.resolve reference with
  | ok target => exact h target
  | error e => rfl

/-- The elements of a list are visited at their indices; the walk counts on from `i`. -/
theorem visitEach_eq {α : Type} {visitOne : α → String → List Diagnostic}
    {at? : α → String → List Occurrence}
    (h : ∀ a location, visitOne a location = (at? a location).filterMap (finding? document))
    (list : String) (as : List α) :
    visitEach visitOne list 0 as = (each at? list as).filterMap (finding? document) := by
  -- the walk counts up while the list gets shorter, so the induction is for every start
  have hfrom : ∀ (as : List α) (i : Nat), visitEach visitOne list i as =
      ((as.mapIdx fun j a ↦ at? a (list ++ "[" ++ toString (i + j) ++ "]")).flatten).filterMap
        (finding? document) := by
    intro as
    induction as with
    | nil => exact fun _ ↦ rfl
    | cons a rest ih =>
      intro i
      have hshift : (fun j a ↦ at? a (list ++ "[" ++ toString (i + (j + 1)) ++ "]")) =
          fun j a ↦ at? a (list ++ "[" ++ toString (i + 1 + j) ++ "]") := by
        funext j a
        rw [Nat.add_assoc, Nat.add_comm 1 j]
      rw [visitEach, List.mapIdx_cons, List.flatten_cons, List.filterMap_append, h, ih (i + 1),
        hshift]
      rfl
  rw [hfrom as 0, each]
  simp only [Nat.zero_add]

/-- Where nothing lies behind a reference, a visit is about that reference alone. -/
theorem visit_leaf {kind : Kind} (reference : Reference kind) (location : String) :
    visit document reference location (fun _ ↦ []) =
      List.filterMap (finding? document) [⟨kind, reference, location⟩] := by
  have hnone : behind document reference (fun _ ↦ []) = [] := by
    rw [behind]
    cases document.resolve reference <;> rfl
  rw [visit_eq reference location fun _ ↦ (List.filterMap_nil (f := finding? document)).symm, hnone]

/-- The walk goes from a function to its events. -/
theorem visitFunction_eq (reference : Reference .function) (location : String) :
    visitFunction document reference location =
      (ofFunction document reference location).filterMap (finding? document) := by
  refine visit_eq reference location fun target ↦ ?_
  rw [visitEach_eq visit_leaf, events_eq, listed]

/-- The walk goes from a workflow to its functions, and from each of them to its events. -/
theorem visitWorkflow_eq (reference : Reference .workflow) :
    visitWorkflow document reference =
      (ofWorkflow document reference).filterMap (finding? document) :=
  visit_eq reference _ fun target ↦ visitEach_eq visitFunction_eq _ (Workflow.functions target)

/-- **The lint finds an error for each occurrence that fails**, in the order of the walk. The lint
goes on behind a reference only where it resolves, as the list of occurrences does. -/
theorem check_eq_filterMap (document : Document) (app : Application) :
    check document app = (occurrences document app).filterMap (finding? document) := by
  rw [check, visit_leaf, visitEach_eq visit_leaf, visitEach_eq visitFunction_eq, occurrences,
    List.filterMap_append, List.filterMap_append, List.filterMap_append,
    List.append_assoc, List.append_assoc, ← listed]
  cases app.workflow with
  | none => rfl
  | some workflow =>
    show _ ++ (_ ++ (_ ++ visitWorkflow document workflow)) =
      _ ++ (_ ++ (_ ++ List.filterMap _ (ofWorkflow document workflow ++ [])))
    rw [visitWorkflow_eq, List.append_nil]

/-! ### What can be reached -/

/-- The references that can be reached from an application. Only what lies behind a reference that
resolves is reached through it. -/
inductive Reachable (document : Document) (app : Application) :
    {kind : Kind} → Reference kind → Prop where
  | defaultProvider : Reachable document app app.defaultProvider
  | provider {reference : Reference .provider} (listed : reference ∈ app.providers) :
      Reachable document app reference
  | function {reference : Reference .function} (listed : reference ∈ app.functions) :
      Reachable document app reference
  | workflow {reference : Reference .workflow} (given : app.workflow = some reference) :
      Reachable document app reference
  | workflowFunction {workflow : Reference .workflow} {target : Workflow}
      {reference : Reference .function} (given : app.workflow = some workflow)
      (resolves : document.resolve workflow = .ok target) (listed : reference ∈ target.functions) :
      Reachable document app reference
  | event {function : Reference .function} {target : Function} {pubsub : PubSub}
      {reference : Reference .event} (reachable : Reachable document app function)
      (resolves : document.resolve function = .ok target) (subscribes : target.pubsub = some pubsub)
      (listed : reference ∈ pubsub.events) : Reachable document app reference

/-- An occurrence in a list stands at one of its elements, and at the index of that element. -/
theorem mem_each_iff {α : Type} {at? : α → String → List Occurrence} {list : String} {as : List α}
    {o : Occurrence} : o ∈ each at? list as ↔
      ∃ i, ∃ h : i < as.length, o ∈ at? as[i] (list ++ "[" ++ toString i ++ "]") := by
  rw [each, List.mem_flatten]
  constructor
  · rintro ⟨found, hfound, hmem⟩
    obtain ⟨i, h, rfl⟩ := List.mem_mapIdx.1 hfound
    exact ⟨i, h, hmem⟩
  · rintro ⟨i, h, hmem⟩
    exact ⟨_, List.mem_mapIdx.2 ⟨i, h, rfl⟩, hmem⟩

/-- The occurrences of a list of references are these references at their indices. -/
theorem mem_listed_iff {kind : Kind} {list : String} {references : List (Reference kind)}
    {o : Occurrence} : o ∈ listed list references ↔ ∃ i, ∃ h : i < references.length,
      o = ⟨kind, references[i], list ++ "[" ++ toString i ++ "]"⟩ := by
  rw [listed, mem_each_iff]
  simp only [List.mem_singleton]

/-- Something lies behind a reference only if the reference resolves. -/
theorem mem_behind_iff {kind : Kind} {reference : Reference kind}
    {next : Entity kind → List Occurrence} {o : Occurrence} :
    o ∈ behind document reference next ↔
      ∃ target, document.resolve reference = .ok target ∧ o ∈ next target := by
  rw [behind]
  cases document.resolve reference <;> simp

/-- The walk comes to an occurrence on one of four ways. -/
theorem mem_occurrences_iff {o : Occurrence} :
    o ∈ occurrences document app ↔
      o = ⟨.provider, app.defaultProvider, "application.defaultProvider"⟩ ∨
      o ∈ listed "application.providers" app.providers ∨
      o ∈ each (ofFunction document) "application.functions" app.functions ∨
      ∃ workflow, app.workflow = some workflow ∧ o ∈ ofWorkflow document workflow := by
  simp only [occurrences, List.mem_append, List.mem_singleton, List.mem_flatMap, Option.mem_toList]

/-- What the walk comes to at a function that can be reached can be reached. -/
theorem reachable_of_mem_ofFunction {function : Reference .function} {location : String}
    (reachable : Reachable document app function) {o : Occurrence}
    (hmem : o ∈ ofFunction document function location) : Reachable document app o.reference := by
  rcases List.mem_cons.1 hmem with rfl | hmem
  · exact reachable
  · obtain ⟨target, hresolves, hmem⟩ := mem_behind_iff.1 hmem
    obtain ⟨i, h, rfl⟩ := mem_listed_iff.1 hmem
    obtain ⟨pubsub, hsubscribes, hlisted⟩ := List.mem_flatMap.1 (List.getElem_mem h)
    exact .event reachable hresolves (Option.mem_toList.1 hsubscribes) hlisted

/-- **The walk comes to nothing that cannot be reached.** Each step of the walk is one of the ways
in which a reference can be reached. -/
theorem reachable_of_mem_occurrences {o : Occurrence} (hmem : o ∈ occurrences document app) :
    Reachable document app o.reference := by
  rcases mem_occurrences_iff.1 hmem with rfl | hmem | hmem | ⟨workflow, hgiven, hmem⟩
  · exact .defaultProvider
  · obtain ⟨i, h, rfl⟩ := mem_listed_iff.1 hmem
    exact .provider (List.getElem_mem h)
  · obtain ⟨i, h, hmem⟩ := mem_each_iff.1 hmem
    exact reachable_of_mem_ofFunction (.function (List.getElem_mem h)) hmem
  · rcases List.mem_cons.1 hmem with rfl | hmem
    · exact .workflow hgiven
    · obtain ⟨target, hresolves, hmem⟩ := mem_behind_iff.1 hmem
      obtain ⟨i, h, hmem⟩ := mem_each_iff.1 hmem
      exact reachable_of_mem_ofFunction
        (.workflowFunction hgiven hresolves (List.getElem_mem h)) hmem

/-- Where a function stands in a list, its events stand behind it. -/
theorem ofFunction_subset_each {reference : Reference .function} {location list : String}
    {references : List (Reference .function)}
    (hmem : ⟨.function, reference, location⟩ ∈ each (ofFunction document) list references) :
    ∃ place, ofFunction document reference place ⊆ each (ofFunction document) list references := by
  obtain ⟨i, h, hmem⟩ := mem_each_iff.1 hmem
  rcases List.mem_cons.1 hmem with heq | hmem
  · cases heq
    exact ⟨_, fun o ho ↦ mem_each_iff.2 ⟨i, h, ho⟩⟩
  · -- behind a function there are only events
    obtain ⟨target, -, hmem⟩ := mem_behind_iff.1 hmem
    obtain ⟨j, h', heq⟩ := mem_listed_iff.1 hmem
    cases heq

/-- The same for the whole walk: wherever it comes to a function, it goes on to what stands behind
it. The occurrence that is given may be any of the function. -/
theorem ofFunction_subset {reference : Reference .function} {location : String}
    (hmem : ⟨.function, reference, location⟩ ∈ occurrences document app) :
    ∃ place, ofFunction document reference place ⊆ occurrences document app := by
  rcases mem_occurrences_iff.1 hmem with heq | hmem | hmem | ⟨workflow, hgiven, hmem⟩
  · cases heq
  · obtain ⟨i, h, heq⟩ := mem_listed_iff.1 hmem
    cases heq
  · obtain ⟨place, hsubset⟩ := ofFunction_subset_each hmem
    exact ⟨place, fun o ho ↦ mem_occurrences_iff.2 (Or.inr (Or.inr (Or.inl (hsubset ho))))⟩
  · rcases List.mem_cons.1 hmem with heq | hmem
    · cases heq
    · obtain ⟨target, hresolves, hmem⟩ := mem_behind_iff.1 hmem
      obtain ⟨place, hsubset⟩ := ofFunction_subset_each hmem
      refine ⟨place, fun o ho ↦ mem_occurrences_iff.2 (Or.inr (Or.inr (Or.inr ?_)))⟩
      refine ⟨workflow, hgiven, List.mem_cons_of_mem _ ?_⟩
      exact mem_behind_iff.2 ⟨target, hresolves, hsubset ho⟩

/-- **The walk comes to everything that can be reached**, by induction on how it is reached. The
walk has a fixed depth, and no way to reach a reference is longer. -/
theorem exists_occurrence_of_reachable {kind : Kind} {reference : Reference kind}
    (h : Reachable document app reference) :
    ∃ location, ⟨kind, reference, location⟩ ∈ occurrences document app := by
  induction h with
  | defaultProvider => exact ⟨_, mem_occurrences_iff.2 (Or.inl rfl)⟩
  | provider hlisted =>
    obtain ⟨i, h, rfl⟩ := List.getElem_of_mem hlisted
    refine ⟨"application.providers" ++ "[" ++ toString i ++ "]",
      mem_occurrences_iff.2 (Or.inr (Or.inl ?_))⟩
    exact mem_listed_iff.2 ⟨i, h, rfl⟩
  | function hlisted =>
    obtain ⟨i, h, rfl⟩ := List.getElem_of_mem hlisted
    refine ⟨"application.functions" ++ "[" ++ toString i ++ "]",
      mem_occurrences_iff.2 (Or.inr (Or.inr (Or.inl ?_)))⟩
    exact mem_each_iff.2 ⟨i, h, List.mem_cons_self⟩
  | workflow hgiven =>
    refine ⟨"application.workflow", mem_occurrences_iff.2 (Or.inr (Or.inr (Or.inr ?_)))⟩
    exact ⟨_, hgiven, List.mem_cons_self⟩
  | @workflowFunction workflow target _ hgiven hresolves hlisted =>
    obtain ⟨i, h, rfl⟩ := List.getElem_of_mem hlisted
    refine ⟨"workflow." ++ workflow.name ++ ".functions" ++ "[" ++ toString i ++ "]",
      mem_occurrences_iff.2 (Or.inr (Or.inr (Or.inr ⟨workflow, hgiven, ?_⟩)))⟩
    refine List.mem_cons_of_mem _ (mem_behind_iff.2 ⟨target, hresolves, ?_⟩)
    exact mem_each_iff.2 ⟨i, h, List.mem_cons_self⟩
  | @event function target pubsub reference _ hresolves hsubscribes hlisted ih =>
    -- the function stands in the walk already, and its events behind it
    obtain ⟨location, hmem⟩ := ih
    obtain ⟨place, hsubset⟩ := ofFunction_subset hmem
    have hevent : reference ∈ (Function.pubsub target).toList.flatMap (·.events) :=
      List.mem_flatMap.2 ⟨pubsub, Option.mem_toList.2 hsubscribes, hlisted⟩
    obtain ⟨i, h, rfl⟩ := List.getElem_of_mem hevent
    refine ⟨"function." ++ function.name ++ ".pubsub.events" ++ "[" ++ toString i ++ "]",
      hsubset (List.mem_cons_of_mem _ (mem_behind_iff.2 ⟨target, hresolves, ?_⟩))⟩
    exact mem_listed_iff.2 ⟨i, h, rfl⟩

/-- **The walk comes to exactly the references that can be reached.** References are compared
without their places, since one reference may be reached in several ways. -/
theorem exists_occurrence_iff {kind : Kind} {reference : Reference kind} :
    (∃ location, ⟨kind, reference, location⟩ ∈ occurrences document app) ↔
      Reachable document app reference :=
  ⟨fun ⟨_, hmem⟩ ↦ reachable_of_mem_occurrences hmem, exists_occurrence_of_reachable⟩

/-- There is nothing to be found at an occurrence exactly if its reference resolves. -/
theorem finding?_eq_none_iff {o : Occurrence} :
    finding? document o = none ↔ ∃ target, document.resolve o.reference = .ok target := by
  rw [finding?]
  cases document.resolve o.reference <;> simp

/-- What is found at an occurrence is an error with the message of the resolution. -/
theorem finding?_eq_some_iff {o : Occurrence} {d : Diagnostic} :
    finding? document o = some d ↔ ∃ e, document.resolve o.reference = .error e ∧
      d = ⟨.error, "dangling-reference", e.message, some o.location⟩ := by
  rw [finding?]
  cases document.resolve o.reference <;> simp [eq_comm]

/-- Nothing is found exactly if every reference that can be reached resolves. -/
theorem check_eq_nil_iff :
    check document app = [] ↔ ∀ {kind : Kind} (reference : Reference kind),
      Reachable document app reference → ∃ target, document.resolve reference = .ok target := by
  rw [check_eq_filterMap, List.filterMap_eq_nil_iff]
  constructor
  · intro h kind reference hreachable
    obtain ⟨location, hmem⟩ := exists_occurrence_of_reachable hreachable
    exact finding?_eq_none_iff.1 (h _ hmem)
  · intro h o hmem
    exact finding?_eq_none_iff.2 (h o.reference (reachable_of_mem_occurrences hmem))

/-- Whatever the lint finds is an error, and never a warning. -/
theorem severity_of_mem_check {d : Diagnostic} (hmem : d ∈ check document app) :
    d.severity = .error := by
  rw [check_eq_filterMap] at hmem
  obtain ⟨o, -, hfinding⟩ := List.mem_filterMap.1 hmem
  obtain ⟨e, -, rfl⟩ := finding?_eq_some_iff.1 hfinding
  rfl

/-- **A report is valid exactly if every reference that can be reached resolves.** The other lints
only warn, and warnings leave a report valid. -/
theorem isValid_iff {report : CheckReport}
    (h : report.errors = CheckReport.entries .error (check document app)) :
    report.isValid = true ↔ ∀ {kind : Kind} (reference : Reference kind),
      Reachable document app reference → ∃ target, document.resolve reference = .ok target := by
  have hall : (check document app).filter (·.severity = .error) = check document app :=
    List.filter_eq_self.2 fun d hmem ↦ decide_eq_true (severity_of_mem_check hmem)
  rw [CheckReport.isValid, List.isEmpty_iff, h, CheckReport.entries, hall, List.map_eq_nil_iff]
  exact check_eq_nil_iff

/-- **The lint is sound and complete, with exact multiplicity.** It finds one error for each
occurrence that fails to resolve, in the order of the walk, and nothing else; the occurrences are of
the references that can be reached. So where the application of a document resolves, its report is
valid exactly if every reference that can be reached finds a block of its kind, and that block is
valid. -/
theorem finds_every_failing_occurrence (document : Document) (app : Application) :
    check document app = (occurrences document app).filterMap (finding? document) ∧
      (∀ {kind : Kind} (reference : Reference kind), Reachable document app reference ↔
        ∃ location, ⟨kind, reference, location⟩ ∈ occurrences document app) ∧
      (document.resolveApplication = .ok app → ∀ path, ∃ report, document.check path = .ok report ∧
        (report.isValid = true ↔ ∀ {kind : Kind} (reference : Reference kind),
          Reachable document app reference →
            ∃ block valid, document.findBlockOfKind? kind.name reference.name = some block ∧
              kind.schema.check block.fields (Path.ofBlock kind.name block.name) = .ok valid)) := by
  refine ⟨check_eq_filterMap document app, fun reference ↦ exists_occurrence_iff.symm, ?_⟩
  intro h path
  obtain ⟨report, hreport, herrors⟩ := Document.exists_report h path
  refine ⟨report, hreport, (isValid_iff herrors).trans ?_⟩
  constructor
  · intro hresolves kind reference hreachable
    exact Document.exists_resolve_iff.1 (hresolves reference hreachable)
  · intro hfinds kind reference hreachable
    exact Document.exists_resolve_iff.2 (hfinds reference hreachable)

end AppManifest.Lint.DanglingReference
