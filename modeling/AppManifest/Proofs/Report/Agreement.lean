import Mathlib.Data.List.Forall2
import AppManifest.Report.Info
import AppManifest.Proofs.Report.Expansion
/-!
# Checking, summarising and expanding agree

A check collects every error, expansion stops at the first one, and a summary leaves out what does
not resolve. `Document.reports_agree` says how the three fit together on every document: they fail
for the same applications and with the same error; expansion fails exactly where a check finds a
reference of the application itself that fails, and with the first such message; and after a check
without errors a summary leaves nothing out.

A summary is *complete* if it shows the kind of every provider and the runtime of every function,
those of the workflow included. For the workflow this says that it resolves, since a workflow that
does not is shown without functions.
-/

namespace AppManifest

namespace Document

variable {document : Document} {app : Application}

/-- A provider is shown with its kind. -/
def ShowsProvider (document : Document) (reference : Reference .provider) (info : ProviderInfo) :
    Prop :=
  ∃ provider, document.resolve reference = .ok provider ∧
    info = ⟨reference.name, some (Provider.kind provider)⟩

/-- A function is shown with its runtime and its triggers. -/
def ShowsFunction (document : Document) (reference : Reference .function) (info : FunctionInfo) :
    Prop :=
  ∃ function, document.resolve reference = .ok function ∧
    info = ⟨reference.name, some (Function.runtime function),
      (Function.triggers function).map (·.name)⟩

/-- A workflow is shown with all of its functions. -/
def ShowsWorkflow (document : Document) (reference : Reference .workflow) (info : WorkflowInfo) :
    Prop :=
  info.name = reference.name ∧ ∃ workflow, document.resolve reference = .ok workflow ∧
    List.Forall₂ document.ShowsFunction (Workflow.functions workflow) info.functions

/-- A summary shows all that an application names. -/
structure Complete (document : Document) (app : Application) (summary : InfoReport) : Prop where
  defaultProvider : document.ShowsProvider app.defaultProvider summary.defaultProvider
  /-- The default provider is not listed a second time. -/
  providers : List.Forall₂ document.ShowsProvider
    (app.providers.filter (· ≠ app.defaultProvider)) summary.providers
  functions : List.Forall₂ document.ShowsFunction app.functions summary.functions
  workflow : Option.Rel document.ShowsWorkflow app.workflow summary.workflow

/-! ### What resolves is shown -/

theorem showsProvider_of_resolves {reference : Reference .provider}
    (h : ∃ provider, document.resolve reference = .ok provider) :
    document.ShowsProvider reference (document.providerInfo reference) := by
  obtain ⟨provider, hprovider⟩ := h
  exact ⟨provider, hprovider, by rw [providerInfo, hprovider]⟩

theorem showsFunction_of_resolves {reference : Reference .function}
    (h : ∃ function, document.resolve reference = .ok function) :
    document.ShowsFunction reference (document.functionInfo reference) := by
  obtain ⟨function, hfunction⟩ := h
  exact ⟨function, hfunction, by rw [functionInfo, hfunction]⟩

theorem forall₂_map_of_forall {α β : Type} {R : α → β → Prop} {f : α → β} {as : List α}
    (h : ∀ a ∈ as, R a (f a)) : List.Forall₂ R as (as.map f) := by
  rw [List.forall₂_map_right_iff, List.forall₂_same]
  exact h

/-- A workflow that resolves is shown with its functions, if these resolve as well. -/
theorem showsWorkflow_of_resolves {reference : Reference .workflow} {workflow : Workflow}
    (h : document.resolve reference = .ok workflow)
    (hfunctions : ∀ function ∈ workflow.functions,
      ∃ target, document.resolve function = .ok target) :
    document.ShowsWorkflow reference (document.workflowInfo reference) := by
  rw [ShowsWorkflow, workflowInfo, h]
  refine ⟨rfl, workflow, rfl, forall₂_map_of_forall fun function hmem ↦ ?_⟩
  exact showsFunction_of_resolves (hfunctions function hmem)

open Lint.DanglingReference in
/-- **Where every reference that can be reached resolves, a summary leaves nothing out.** A summary
puts up with references that fail, and this says that there are none to put up with. -/
theorem exists_complete_info (happ : document.resolveApplication = .ok app)
    (h : ∀ {kind : Kind} (reference : Reference kind),
      Reachable document app reference → ∃ target, document.resolve reference = .ok target)
    (path : String) :
    ∃ summary, document.info path = .ok summary ∧ document.Complete app summary := by
  rw [info, happ]
  refine ⟨_, rfl, ⟨showsProvider_of_resolves (h _ .defaultProvider), ?_, ?_, ?_⟩⟩
  · refine forall₂_map_of_forall fun reference hmem ↦ ?_
    exact showsProvider_of_resolves (h _ (.provider (List.mem_filter.1 hmem).1))
  · exact forall₂_map_of_forall fun reference hmem ↦
      showsFunction_of_resolves (h _ (.function hmem))
  · show Option.Rel _ app.workflow (app.workflow.map document.workflowInfo)
    cases hworkflow : app.workflow with
    | none => exact .none
    | some reference =>
      obtain ⟨workflow, hresolves⟩ := h _ (.workflow hworkflow)
      exact .some (showsWorkflow_of_resolves hresolves fun function hmem ↦
        h _ (.workflowFunction hworkflow hresolves hmem))

/-! ### The three together -/

/-- Where the application does not resolve, a check and a summary fail, both with that error. -/
theorem check_eq_error {e : Error} (h : document.resolveApplication = .error e) (path : String) :
    document.check path = .error e := by
  rw [check, Lint.run, h]
  rfl

theorem info_eq_error {e : Error} (h : document.resolveApplication = .error e) (path : String) :
    document.info path = .error e := by
  rw [info, h]
  rfl

theorem exists_info (h : document.resolveApplication = .ok app) (path : String) :
    ∃ summary, document.info path = .ok summary := by
  rw [info, h]
  exact ⟨_, rfl⟩

/-- After a check without errors, every reference that can be reached resolves. -/
theorem exists_resolves_of_check {path : String} {report : CheckReport}
    (h : document.check path = .ok report) (hnone : report.errors = []) :
    ∃ app, document.resolveApplication = .ok app ∧ ∀ {kind : Kind} (reference : Reference kind),
      Lint.DanglingReference.Reachable document app reference →
        ∃ target, document.resolve reference = .ok target := by
  cases happ : document.resolveApplication with
  | error e =>
    rw [check_eq_error happ] at h
    exact absurd h (by simp)
  | ok app =>
    obtain ⟨report', hreport', herrors⟩ := exists_report happ path
    obtain rfl : report = report' := Except.ok.inj (h.symm.trans hreport')
    have hvalid : report.isValid = true := by
      rw [CheckReport.isValid, hnone]
      rfl
    exact ⟨app, rfl, (Lint.DanglingReference.isValid_iff herrors).1 hvalid⟩

open Lint Lint.DanglingReference in
/-- **Check, summary and expansion agree on every document.** Check and summary fail exactly where
the application does not resolve, with the same error. Expansion succeeds exactly if no reference of
the application itself is found to fail, and otherwise its error has the message of the first
finding at such a place. After a check without errors, expansion succeeds and a summary is
complete. -/
theorem reports_agree (document : Document) :
    (∀ e, document.resolveApplication = .error e →
        ∀ path, document.check path = .error e ∧ document.info path = .error e) ∧
      (∀ app, document.resolveApplication = .ok app → ∀ path,
        (∃ report, document.check path = .ok report) ∧
          ∃ summary, document.info path = .ok summary) ∧
      (∀ app, ((∃ expanded, document.expand app = .ok expanded) ↔
          ∀ d ∈ checkAll standard document app, ¬ DirectFinding d) ∧
        ∀ e, document.expand app = .error e → ∃ before d after,
          checkAll standard document app = before ++ d :: after ∧ DirectFinding d ∧
            d.message = e.message ∧
            ∀ b ∈ before, ∀ location, b.location = some location → ¬ DirectLocation location) ∧
      ∀ path report, document.check path = .ok report → report.errors = [] →
        ∃ app, document.resolveApplication = .ok app ∧
          (∃ expanded, document.expand app = .ok expanded) ∧
          ∀ path', ∃ summary, document.info path' = .ok summary ∧
            document.Complete app summary := by
  refine ⟨fun e h path ↦ ⟨check_eq_error h path, info_eq_error h path⟩, ?_, ?_, ?_⟩
  · intro app h path
    obtain ⟨report, hreport, -⟩ := exists_report h path
    exact ⟨⟨report, hreport⟩, exists_info h path⟩
  · exact fun app ↦ ⟨exists_expand_iff document app, fun e ↦ exists_first_finding⟩
  · intro path report h hnone
    obtain ⟨app, happ, hresolves⟩ := exists_resolves_of_check h hnone
    refine ⟨app, happ, ?_, exists_complete_info happ hresolves⟩
    rw [← Checked.failure?_eq_none_iff, failure?_expand, List.findSome?_eq_none_iff]
    intro o ho
    have hwalk : o ∈ occurrences document app := (mem_directs_iff.1 ho).1
    exact Checked.failure?_eq_none_iff.2
      (hresolves o.reference (reachable_of_mem_occurrences hwalk))

end Document

end AppManifest
