import Mathlib.Data.Finset.Card
import AppManifest.Lint.DefaultProvider
import AppManifest.Proofs.Occurrences
import AppManifest.Report.Info
/-!
# Candidate providers

The providers that an application may run on are collected by a loop that adds what is not there
yet, from the default provider on. What comes out are the first occurrences in the default provider
followed by the listed ones (`Application.candidateProviders_eq_eraseDups`).

Two other places look at the same list in ways of their own. A summary leaves the default provider
out and keeps repetitions (`Document.exists_info_providers`), and a lint asks whether the default
provider is listed (`Lint.DefaultProvider.exists_warning_iff`). `Application.candidates_agree` says
how the three fit together.
-/

namespace AppManifest

theorem Reference.name_injective {kind : Kind} :
    Function.Injective (Reference.name : Reference kind → String) :=
  fun ⟨_⟩ ⟨_⟩ h ↦ congrArg Reference.mk h

namespace Application

variable (app : Application)

/-- Adding what is not there yet gives the first occurrences. -/
theorem foldl_addNew {α : Type} [DecidableEq α] (xs : List α) :
    xs.foldl addNew [] = xs.eraseDups := by
  induction xs using List.reverseRecOn with
  | nil => rfl
  | append_singleton xs a ih =>
    rw [List.foldl_concat, ih, eraseDups_concat, addNew]
    simp only [List.mem_eraseDups]

/-- **The candidates are the first occurrences, with the default provider in front of all.** The
loop skips what it has seen, as the library function does, so the facts below are read off the
latter. -/
theorem candidateProviders_eq_eraseDups :
    app.candidateProviders = (app.defaultProvider :: app.providers).eraseDups := by
  rw [← foldl_addNew]
  rfl

/-- The candidates behind the default one are the first occurrences of the others. -/
theorem candidateProviders_eq_cons :
    app.candidateProviders =
      app.defaultProvider :: (app.providers.filter (· ≠ app.defaultProvider)).eraseDups := by
  rw [candidateProviders_eq_eraseDups, List.eraseDups_cons]
  congr 2
  exact List.filter_congr fun provider _ ↦ (decide_not).symm

theorem mem_candidateProviders_iff {provider : Reference .provider} :
    provider ∈ app.candidateProviders ↔
      provider = app.defaultProvider ∨ provider ∈ app.providers := by
  rw [candidateProviders_eq_eraseDups, List.mem_eraseDups, List.mem_cons]

theorem nodup_names_candidateProviders : (app.candidateProviders.map (·.name)).Nodup := by
  rw [candidateProviders_eq_eraseDups]
  exact (firstOccurrences_eraseDups _).nodup.map Reference.name_injective

theorem mem_names_candidateProviders_iff {name : String} :
    name ∈ app.candidateProviders.map (·.name) ↔
      name = app.defaultProvider.name ∨ name ∈ app.providers.map (·.name) := by
  simp only [List.mem_map, mem_candidateProviders_iff]
  constructor
  · rintro ⟨provider, rfl | hmem, rfl⟩
    · exact Or.inl rfl
    · exact Or.inr ⟨provider, hmem, rfl⟩
  · rintro (rfl | ⟨provider, hmem, rfl⟩)
    · exact ⟨_, Or.inl rfl, rfl⟩
    · exact ⟨provider, Or.inr hmem, rfl⟩

/-- **The candidates behind the default one come in the order in which the list first has them.**
The default provider itself may be listed anywhere, and it is not repeated. -/
theorem pairwise_idxOf_tail_candidateProviders :
    app.candidateProviders.tail.Pairwise fun a b ↦
      app.providers.idxOf a < app.providers.idxOf b := by
  have hall := (firstOccurrences_eraseDups (app.defaultProvider :: app.providers)).order
  rw [← candidateProviders_eq_eraseDups] at hall
  have hother {a : Reference .provider} (ha : a ∈ app.candidateProviders.tail) :
      app.defaultProvider ≠ a := by
    rw [candidateProviders_eq_cons, List.tail_cons, List.mem_eraseDups, List.mem_filter] at ha
    exact (of_decide_eq_true ha.2).symm
  refine hall.tail.imp_of_mem fun ha hb hlt ↦ ?_
  -- in front of the list stands the default provider, which is neither of the two
  rw [List.idxOf_cons_ne _ (hother ha), List.idxOf_cons_ne _ (hother hb)] at hlt
  exact Nat.lt_of_succ_lt_succ hlt

/-- **There are more candidates than listed names iff the default provider is not listed.**
Repetitions count once on both sides. -/
theorem card_names_lt_iff :
    (app.providers.map (·.name)).toFinset.card < app.candidateProviders.length ↔
      app.defaultProvider ∉ app.providers := by
  have hnames : (app.candidateProviders.map (·.name)).toFinset =
      insert app.defaultProvider.name (app.providers.map (·.name)).toFinset := by
    ext name
    rw [List.mem_toFinset, mem_names_candidateProviders_iff, Finset.mem_insert, List.mem_toFinset]
  have hlength := List.toFinset_card_of_nodup app.nodup_names_candidateProviders
  rw [hnames, List.length_map] at hlength
  rw [← hlength, ← List.mem_map_of_injective Reference.name_injective, ← List.mem_toFinset]
  by_cases h : app.defaultProvider.name ∈ (app.providers.map (·.name)).toFinset
  · rw [Finset.insert_eq_of_mem h]
    exact iff_of_false (Nat.lt_irrefl _) (not_not_intro h)
  · rw [Finset.card_insert_of_notMem h]
    exact iff_of_true (Nat.lt_succ_self _) h

end Application

/-- The lint warns exactly if providers are listed and the default one is not among them. -/
theorem Lint.DefaultProvider.exists_warning_iff (document : Document) (app : Application) :
    (∃ finding ∈ lint.check document app, finding.severity = .warning) ↔
      app.providers ≠ [] ∧ app.defaultProvider ∉ app.providers := by
  show (∃ finding ∈ check app, finding.severity = .warning) ↔ _
  simp only [check, List.isEmpty_iff]
  split
  · next h => exact iff_of_false (by simp) fun hlisted ↦ h.elim hlisted.1 hlisted.2
  · next h => exact iff_of_true ⟨_, List.mem_singleton_self _, rfl⟩ (not_or.1 h)

/-- A summary names the providers other than the default one, in their order. -/
theorem Document.exists_info_providers {document : Document} {app : Application}
    (h : document.resolveApplication = .ok app) (path : String) :
    ∃ report, document.info path = .ok report ∧ report.providers.map (·.name) =
      (app.providers.filter (· ≠ app.defaultProvider)).map (·.name) := by
  have hname (reference : Reference .provider) :
      (document.providerInfo reference).name = reference.name := by
    rw [providerInfo]
    split <;> rfl
  rw [info, h]
  refine ⟨_, rfl, ?_⟩
  rw [List.map_map]
  exact List.map_congr_left fun reference _ ↦ hname reference

/-- **The candidate providers are the default provider and then the listed ones, each once, and the
other views of the list agree.** The candidates begin with the default provider, no name occurs
twice, the names are those of the default provider and of the listed ones, and the others come in
the order in which they are first listed. The providers that a summary names, without repetitions,
are the candidates behind the first. The lint for a default provider that is not listed warns
exactly if there is a list and there are more candidates than different names in it. -/
theorem Application.candidates_agree (app : Application) :
    app.candidateProviders.head? = some app.defaultProvider ∧
      (app.candidateProviders.map (·.name)).Nodup ∧
      (∀ name, name ∈ app.candidateProviders.map (·.name) ↔
        name = app.defaultProvider.name ∨ name ∈ app.providers.map (·.name)) ∧
      (app.candidateProviders.tail.Pairwise fun a b ↦
        app.providers.idxOf a < app.providers.idxOf b) ∧
      (∀ (document : Document) (path : String), document.resolveApplication = .ok app →
        ∃ report, document.info path = .ok report ∧
          report.providers.map (·.name) =
            (app.providers.filter (· ≠ app.defaultProvider)).map (·.name) ∧
          (report.providers.map (·.name)).eraseDups =
            app.candidateProviders.tail.map (·.name)) ∧
      ∀ document,
        (∃ finding ∈ Lint.DefaultProvider.lint.check document app, finding.severity = .warning) ↔
          app.providers ≠ [] ∧
            (app.providers.map (·.name)).toFinset.card < app.candidateProviders.length := by
  refine ⟨by rw [candidateProviders_eq_cons, List.head?_cons], app.nodup_names_candidateProviders,
    fun name ↦ app.mem_names_candidateProviders_iff, app.pairwise_idxOf_tail_candidateProviders,
    fun document path h ↦ ?_, fun document ↦ ?_⟩
  · obtain ⟨report, hreport, hnames⟩ := Document.exists_info_providers h path
    refine ⟨report, hreport, hnames, ?_⟩
    rw [hnames, eraseDups_map Reference.name_injective, candidateProviders_eq_cons, List.tail_cons]
  · rw [card_names_lt_iff]
    exact Lint.DefaultProvider.exists_warning_iff document app

/-- A provider that is listed twice, the default one in between, and neither of them declared. -/
theorem Application.repeated_providers_agree :
    let fields : Fields := [("defaultProvider", .reference ⟨"a", none⟩),
      ("providers", .list [.reference ⟨"b", none⟩, .reference ⟨"a", none⟩, .reference ⟨"b", none⟩])]
    let document : Document := ⟨none, [⟨none, [⟨"application", "app", fields⟩]⟩]⟩
    let app : Application := ⟨none, ⟨"a"⟩, [⟨"b"⟩, ⟨"a"⟩, ⟨"b"⟩], [], none, [], none⟩
    document.resolveApplication = .ok app ∧
      ∃ report, document.info "app.json" = .ok report ∧
        report.providers.map (·.name) = ["b", "b"] ∧
        (report.providers.map (·.name)).eraseDups = app.candidateProviders.tail.map (·.name) := by
  intro fields document app
  have happ : document.resolveApplication = .ok app := rfl
  obtain ⟨-, -, -, -, hinfo, -⟩ := candidates_agree app
  obtain ⟨report, hreport, hnames, honce⟩ := hinfo document "app.json" happ
  exact ⟨happ, report, hreport, hnames, honce⟩

end AppManifest
