import Mathlib.Data.List.Forall2
import AppManifest.Proofs.Entity.Contents
import AppManifest.Proofs.Entity.WrittenKeys
import AppManifest.Proofs.Resolution
import AppManifest.Report.Expansion
/-!
# Where an expanded application is ambiguous

An expanded application is written as JSON with the name of each block in front of the members of
its entity. Functions and workflows have no member of that name. A provider may have a further
setting of the name `name`, which is then written a second time; nothing else in the JSON form
repeats a key (`Document.expansion_is_ambiguous_iff`).
-/

namespace AppManifest

/-- The options and samples of an application repeat no key, as none do that were read
(`Document.wellKeyed_of_resolveApplication`). -/
structure Application.WellKeyed (app : Application) : Prop where
  options : ∀ options ∈ app.options, options.WellKeyed
  samples : ∀ sample ∈ app.inputExamples, ∀ value ∈ sample.value, value.DistinctKeys

/-- An application that was read repeats no key: its options and samples are normal forms of what
was given. -/
theorem Application.wellKeyed_of_holds {raw : Fields} {app : Application} (keyed : raw.WellKeyed)
    (holds : app.Holds raw) : app.WellKeyed where
  options options hmem := by
    obtain ⟨value, hgiven, fields, rfl, rfl⟩ := exists_given_of_rel holds.options hmem
    exact Value.wellKeyed_normalizeFields (keyed.present? hgiven)
  samples sample hmem value hvalue := by
    have hdistinct : ((present? raw "inputExamples").getD (.list [])).DistinctKeys := by
      cases hgiven : present? raw "inputExamples" with
      | none => exact trivial
      | some given => exact keyed.present? hgiven
    obtain ⟨items, hitems, hall⟩ := holds.inputExamples
    rw [hitems] at hdistinct
    obtain ⟨item, hitem, fields, rfl, hsample⟩ := exists_mem_of_forall₂ hall hmem
    have hfields : Fields.WellKeyed fields := Value.itemsDistinct_iff.1 hdistinct _ hitem
    rw [hsample.value] at hvalue
    obtain ⟨given, hgiven, hkept⟩ := Option.bind_eq_some_iff.1 hvalue
    rw [Value.kept?] at hkept
    split at hkept
    · exact absurd hkept (by simp)
    · rw [← Option.some.inj hkept]
      exact Value.distinctKeys_normalize (hfields.present? hgiven)

/-- An object has one member for a name, and it is the given name. -/
def Json.NamedOnce (name : String) (tree : Json) : Prop :=
  ∃ members, tree = .object members ∧
    membersNamed "name" members = [("name", .string name)]

namespace Document

variable {document : Document} {kind : Kind}

/-- The block that a provider is read from has a field `name` of its own. -/
def SetsName (document : Document) (reference : Reference .provider) : Prop :=
  ∃ block, document.findBlockOfKind? Kind.provider.name reference.name = some block ∧
    "name" ∈ Entries.keys block.fields

/-! ### What an expansion consists of -/

theorem expandReference_eq_ok_iff {reference : Reference kind} {named : Named kind} :
    document.expandReference reference = .ok named ↔
      named.name = reference.name ∧ document.resolve reference = .ok named.entity := by
  rw [expandReference, Checked.bind_eq_ok]
  constructor
  · rintro ⟨entity, hentity, h⟩
    obtain rfl := Except.ok.inj h
    exact ⟨rfl, hentity⟩
  · rintro ⟨hname, hentity⟩
    exact ⟨named.entity, hentity, by rw [← hname]⟩

theorem expandAll_eq_ok_iff {references : List (Reference kind)} {named : List (Named kind)} :
    document.expandAll references = .ok named ↔
      List.Forall₂ (fun reference n ↦ document.expandReference reference = .ok n)
        references named := by
  induction references generalizing named with
  | nil =>
    rw [expandAll, List.forall₂_nil_left_iff]
    exact ⟨fun h ↦ (Except.ok.inj h).symm, fun h ↦ by rw [h]⟩
  | cons reference rest ih =>
    rw [expandAll, Checked.bind_eq_ok, List.forall₂_cons_left_iff]
    constructor
    · rintro ⟨first, hfirst, h⟩
      obtain ⟨others, hothers, h⟩ := Checked.bind_eq_ok.1 h
      exact ⟨first, others, hfirst, ih.1 hothers, (Except.ok.inj h).symm⟩
    · rintro ⟨first, others, hfirst, hothers, rfl⟩
      exact ⟨first, hfirst, Checked.bind_eq_ok.2 ⟨others, ih.2 hothers, rfl⟩⟩

/-- Parts that are related stay so under a weaker relation. -/
theorem rel_imp {α β : Type} {R S : α → β → Prop} {a? : Option α} {b? : Option β}
    (h : Option.Rel R a? b?) (imp : ∀ {a b}, R a b → S a b) : Option.Rel S a? b? := by
  cases h with
  | none => exact .none
  | some h => exact .some (imp h)

theorem rel_of_expandOption {reference? : Option (Reference kind)} {named? : Option (Named kind)}
    (h : document.expandOption reference? = .ok named?) :
    Option.Rel (fun reference n ↦ document.expandReference reference = .ok n)
      reference? named? := by
  cases reference? with
  | none =>
    obtain rfl := Except.ok.inj h
    exact .none
  | some reference =>
    obtain ⟨named, hnamed, h⟩ := Checked.bind_eq_ok.1 h
    obtain rfl := Except.ok.inj h
    exact .some hnamed

/-- The parts of an expansion are those of the application, each reference with its entity. -/
structure Expands (document : Document) (app : Application) (expanded : ExpandedApplication) :
    Prop where
  defaultProvider : document.expandReference app.defaultProvider = .ok expanded.defaultProvider
  providers : List.Forall₂ (fun reference n ↦ document.expandReference reference = .ok n)
    app.providers expanded.providers
  functions : List.Forall₂ (fun reference n ↦ document.expandReference reference = .ok n)
    app.functions expanded.functions
  workflow : Option.Rel (fun reference n ↦ document.expandReference reference = .ok n)
    app.workflow expanded.workflow
  inputExamples : expanded.inputExamples = app.inputExamples
  options : expanded.options = app.options

/-- The parts of an expansion are those of the application. From here on an expansion is looked at
part by part. -/
theorem expands_of_expand {app : Application} {expanded : ExpandedApplication}
    (h : document.expand app = .ok expanded) : document.Expands app expanded := by
  rw [expand] at h
  obtain ⟨defaultProvider, hdefault, h⟩ := Checked.bind_eq_ok.1 h
  obtain ⟨providers, hproviders, h⟩ := Checked.bind_eq_ok.1 h
  obtain ⟨functions, hfunctions, h⟩ := Checked.bind_eq_ok.1 h
  obtain ⟨workflow, hworkflow, h⟩ := Checked.bind_eq_ok.1 h
  obtain rfl := Except.ok.inj h
  exact ⟨hdefault, expandAll_eq_ok_iff.1 hproviders, expandAll_eq_ok_iff.1 hfunctions,
    rel_of_expandOption hworkflow, rfl, rfl⟩

end Document

/-! ### Named entities -/

namespace Named

variable {document : Document} {kind : Kind} {named : Named kind}

/-- A named entity repeats a key exactly if the entity has a member `name` of its own. -/
theorem distinctKeys_iff (h : (Entity.toJson named.entity).DistinctKeys) :
    named.toJson.DistinctKeys ↔ "name" ∉ Entries.keys (Entity.toMembers kind named.entity) :=
  Json.distinctKeys_cons_iff trivial h

/-- A named entity has one name exactly if the entity has no member `name` of its own. The name in
front is the one of the reference. -/
theorem namedOnce_iff {reference : Reference kind} (hname : named.name = reference.name) :
    named.toJson.NamedOnce reference.name ↔
      "name" ∉ Entries.keys (Entity.toMembers kind named.entity) := by
  rw [← Json.membersNamed_cons_iff (.string reference.name), ← hname, Json.NamedOnce]
  constructor
  · rintro ⟨members, heq, h⟩
    obtain rfl := Json.object.inj heq
    exact h
  · exact fun h ↦ ⟨_, rfl, h⟩

/-- A provider is written without repeated keys, and has a member `name` where its block has a
field of that name. -/
theorem provider_keys {reference : Reference .provider} {named : Named .provider}
    (keyed : document.WellKeyed) (h : document.expandReference reference = .ok named) :
    (Entity.toJson named.entity).DistinctKeys ∧
      ("name" ∈ Entries.keys (Entity.toMembers .provider named.entity) ↔
        document.SetsName reference) := by
  obtain ⟨-, hresolve⟩ := Document.expandReference_eq_ok_iff.1 h
  obtain ⟨block, hfound, hparse⟩ := Document.resolve_eq_ok_iff.1 hresolve
  have hkeyed := keyed block (Document.mem_blocks_of_findBlockOfKind? hfound)
  have holds : Provider.Holds block.fields named.entity :=
    Entity.holds_of_parseFields hkeyed hparse
  have hkeys : Entries.keys (Provider.extra named.entity) =
      Entries.keys (Schema.provider.undeclared block.fields) := by
    rw [holds.extra, Value.keys_normalizeFields]
  have hundeclared : Schema.provider.declares "name" = false := by decide
  constructor
  · refine Provider.distinctKeys (fun overrides hmem ↦ ?_) ?_ fun key hmem ↦ ?_
    · obtain ⟨value, hgiven, hvalue⟩ := exists_given_of_rel holds.invoke hmem
      exact hvalue.distinctKeys (hkeyed.present? hgiven)
    · rw [holds.extra]
      exact Value.wellKeyed_normalizeFields (Layout.wellKeyed_undeclared hkeyed)
    · rw [hkeys] at hmem
      exact SchemaOf.not_declares_of_mem_keys hmem
  · refine (Provider.layout.mem_keys_toMembers_iff hundeclared).trans ?_
    show "name" ∈ Entries.keys (Provider.extra named.entity) ↔ _
    rw [hkeys, SchemaOf.mem_keys_undeclared_iff hundeclared, Document.SetsName, hfound]
    simp

/-- A provider is ambiguous exactly where it sets a name of its own, in both senses of the word: a
key is repeated, and the name is not the only one. -/
theorem provider_iff {reference : Reference .provider} {named : Named .provider}
    (keyed : document.WellKeyed) (h : document.expandReference reference = .ok named) :
    (named.toJson.DistinctKeys ↔ ¬document.SetsName reference) ∧
      (named.toJson.NamedOnce reference.name ↔ ¬document.SetsName reference) := by
  obtain ⟨hdistinct, hkeys⟩ := provider_keys keyed h
  rw [distinctKeys_iff hdistinct, namedOnce_iff (Document.expandReference_eq_ok_iff.1 h).1, hkeys]
  exact ⟨Iff.rfl, Iff.rfl⟩

/-- Functions have no member `name` of their own. -/
theorem function_keys (function : Function) :
    "name" ∉ Entries.keys (Entity.toMembers .function function) := fun hmem ↦
  absurd ((Function.layout.mem_keys_toMembers_iff (by decide)).1 hmem) List.not_mem_nil

/-- Workflows have no member `name` of their own. -/
theorem workflow_keys (workflow : Workflow) :
    "name" ∉ Entries.keys (Entity.toMembers .workflow workflow) := fun hmem ↦
  absurd ((Workflow.layout.mem_keys_toMembers_iff (by decide)).1 hmem) List.not_mem_nil

theorem distinctKeys_function (named : Named .function) : named.toJson.DistinctKeys := by
  have h : (Entity.toJson named.entity).DistinctKeys := Function.distinctKeys named.entity
  exact (distinctKeys_iff h).2 (function_keys named.entity)

theorem distinctKeys_workflow (named : Named .workflow) : named.toJson.DistinctKeys := by
  have h : (Entity.toJson named.entity).DistinctKeys := Workflow.distinctKeys named.entity
  exact (distinctKeys_iff h).2 (workflow_keys named.entity)

end Named

namespace ExpandedApplication

variable {app : ExpandedApplication}

/-- What holds of the members of an optional part holds of the part if it is there. -/
theorem forall_mem_given {α : Type} {key : String} {write : α → Json} {part : Option α}
    {p : String × Json → Prop} :
    (∀ member ∈ Json.Members.given key write part, p member) ↔
      ∀ a ∈ part, p (key, write a) := by
  cases part <;> simp [Json.Members.given]

/-- An expanded application repeats a key exactly if one of its parts does: the keys of its own
members are distinct. -/
theorem distinctKeys_toJson_iff :
    app.toJson.DistinctKeys ↔
      (∀ named ∈ app.defaultProvider :: app.providers, named.toJson.DistinctKeys) ∧
      (∀ named ∈ app.functions, named.toJson.DistinctKeys) ∧
      (∀ named ∈ app.workflow, named.toJson.DistinctKeys) ∧
      (∀ sample ∈ app.inputExamples, (Json.object sample.toMembers).DistinctKeys) ∧
      ∀ options ∈ app.options, (Json.object (Value.toMembers options)).DistinctKeys := by
  have hkeys : Entries.DistinctKeys (Json.Members.given "name" .string app.name ++
      [("defaultProvider", app.defaultProvider.toJson),
        ("providers", .array (app.providers.map Named.toJson)),
        ("functions", .array (app.functions.map Named.toJson))] ++
      Json.Members.given "workflow" Named.toJson app.workflow ++
      [("inputExamples", .array (app.inputExamples.map fun e ↦ .object e.toMembers))] ++
      Json.Members.given "options" (fun options ↦ .object (Value.toMembers options))
        app.options) := by
    cases app.name <;> cases app.workflow <;> cases app.options <;>
      simp [Entries.DistinctKeys, Entries.keys, Json.Members.given]
  rw [toJson, Json.distinctKeys_object_iff, and_iff_right hkeys]
  simp only [List.forall_mem_append, forall_mem_given, List.forall_mem_cons, Json.DistinctKeys,
    Json.itemsDistinct_iff, List.forall_mem_map, List.not_mem_nil, false_implies, implies_true,
    and_true, true_and, and_assoc]

end ExpandedApplication

namespace Document

variable {document : Document} {app : Application} {expanded : ExpandedApplication}

/-- The application of a document repeats no key if the document does not, so the condition of
`expansion_is_ambiguous_iff` on it is met by what was read. -/
theorem wellKeyed_of_resolveApplication (keyed : document.WellKeyed)
    (h : document.resolveApplication = .ok app) : app.WellKeyed := by
  rw [resolveApplication] at h
  split at h
  · exact absurd h (by simp)
  · next block hblocks =>
    have hmem : block ∈ document.applicationBlocks := by simp [hblocks]
    have hkeyed := keyed block (mem_blocks_of_mem_applicationBlocks hmem)
    rw [Entity.parseBlock] at h
    split at h
    · exact Application.wellKeyed_of_holds hkeyed (Entity.holds_of_parseFields hkeyed h)
    · exact absurd h (by simp)
  · exact absurd h (by simp)

/-- What holds of one list where something else holds of another holds of all where that does. It
carries `provider_iff` from one provider to the list of them. -/
theorem forall_mem_iff_of_forall₂ {α β : Type} {p : α → Prop} {q : β → Prop} {as : List α}
    {bs : List β} (h : List.Forall₂ (fun a b ↦ p a ↔ q b) as bs) :
    (∀ a ∈ as, p a) ↔ ∀ b ∈ bs, q b := by
  induction h with
  | nil => simp
  | cons hab _ ih => rw [List.forall_mem_cons, List.forall_mem_cons, hab, ih]

/-- **An expanded application is ambiguous exactly where a provider sets a name of its own.** If no
key is repeated in the options and the samples of an application and in the fields of a document,
then the JSON form of an expansion repeats a key if and only if the block of a provider, the default
one or another, has a field `name`. Such a provider is written with a second member of that name.
All other providers, all functions and the workflow have one such member, with the name of the
reference that they stand for. -/
theorem expansion_is_ambiguous_iff (keyed : document.WellKeyed) (happ : app.WellKeyed)
    (h : document.expand app = .ok expanded) :
    (¬expanded.toJson.DistinctKeys ↔
        ∃ reference ∈ app.defaultProvider :: app.providers, document.SetsName reference) ∧
      List.Forall₂ (fun reference named ↦
          named.toJson.NamedOnce reference.name ↔ ¬document.SetsName reference)
        (app.defaultProvider :: app.providers)
        (expanded.defaultProvider :: expanded.providers) ∧
      List.Forall₂ (fun reference named ↦ named.toJson.NamedOnce reference.name)
        app.functions expanded.functions ∧
      Option.Rel (fun reference named ↦ named.toJson.NamedOnce reference.name)
        app.workflow expanded.workflow := by
  have parts := expands_of_expand h
  have hproviders : List.Forall₂ (fun reference n ↦ document.expandReference reference = .ok n)
      (app.defaultProvider :: app.providers) (expanded.defaultProvider :: expanded.providers) :=
    .cons parts.defaultProvider parts.providers
  have named {kind : Kind} {reference : Reference kind} {n : Named kind}
      (hn : document.expandReference reference = .ok n) : n.name = reference.name :=
    (expandReference_eq_ok_iff.1 hn).1
  refine ⟨?_, ?_, ?_, ?_⟩
  · -- all parts but the providers are written without repeated keys in every case
    have hsamples : ∀ sample ∈ expanded.inputExamples,
        (Json.object sample.toMembers).DistinctKeys := by
      rw [parts.inputExamples]
      exact fun sample hmem ↦ InputExample.distinctKeys (happ.samples sample hmem)
    have hoptions : ∀ options ∈ expanded.options,
        (Json.object (Value.toMembers options)).DistinctKeys := by
      rw [parts.options]
      exact fun options hmem ↦ Value.distinctKeys_toJson (happ.options options hmem)
    have hall : (∀ n ∈ expanded.defaultProvider :: expanded.providers, n.toJson.DistinctKeys) ↔
        ∀ reference ∈ app.defaultProvider :: app.providers, ¬document.SetsName reference :=
      (forall_mem_iff_of_forall₂
        (hproviders.imp fun _ _ hn ↦ ((Named.provider_iff keyed hn).1).symm)).symm
    rw [ExpandedApplication.distinctKeys_toJson_iff, hall,
      and_iff_left ⟨fun n _ ↦ n.distinctKeys_function, fun n _ ↦ n.distinctKeys_workflow, hsamples,
        hoptions⟩]
    simp only [not_forall, not_not, exists_prop]
  · exact hproviders.imp fun _ _ hn ↦ (Named.provider_iff keyed hn).2
  · exact parts.functions.imp fun _ n hn ↦
      (Named.namedOnce_iff (named hn)).2 (Named.function_keys n.entity)
  · exact rel_imp parts.workflow fun hn ↦
      (Named.namedOnce_iff (named hn)).2 (Named.workflow_keys _)

/-- A provider with a further setting of another name, and a function, are written with one name
each. -/
theorem expansion_of_named_blocks_is_unambiguous :
    let document : Document := ⟨none, [⟨none,
      [⟨"provider", "p", [("kind", .string "oss"), ("nickname", .string "x")]⟩,
        ⟨"function", "f", [("runtime", .string "nodejs")]⟩,
        ⟨"application", "app", [("defaultProvider", .reference ⟨"p", none⟩),
          ("functions", .list [.reference ⟨"f", none⟩])]⟩]⟩]⟩
    let app : Application := ⟨none, ⟨"p"⟩, [], [⟨"f"⟩], none, [], none⟩
    let expanded : ExpandedApplication :=
      ⟨none, ⟨"p", ⟨"oss", none, none, none, none, none, none, [("nickname", .string "x")]⟩⟩, [],
        [⟨"f", ⟨"nodejs", none, none, "", none, none, none, [], none, none⟩⟩], none, [], none⟩
    document.WellKeyed ∧ document.resolveApplication = .ok app ∧
      document.expand app = .ok expanded ∧ expanded.toJson.DistinctKeys := by
  intro document app expanded
  have keyed : document.WellKeyed := by
    simp [document, WellKeyed, blocks, Fields.WellKeyed, Value.DistinctKeys, Value.fieldsDistinct,
      Value.itemsDistinct]
  have hresolves : document.resolveApplication = .ok app := rfl
  have happ : app.WellKeyed := wellKeyed_of_resolveApplication keyed hresolves
  have h : document.expand app = .ok expanded := rfl
  have hnone : ¬∃ reference ∈ app.defaultProvider :: app.providers,
      document.SetsName reference := by
    rintro ⟨reference, hmem, block, hfound, hname⟩
    obtain rfl : reference = ⟨"p"⟩ := List.mem_singleton.1 hmem
    obtain rfl := Option.some.inj hfound
    exact absurd hname (by decide)
  exact ⟨keyed, hresolves, h, not_not.1 (mt (expansion_is_ambiguous_iff keyed happ h).1.1 hnone)⟩

/-- The name that a provider sets is written behind the name of its block. -/
theorem name_of_provider_is_written_twice :
    let document : Document := ⟨none, [⟨none,
      [⟨"provider", "p", [("kind", .string "oss"), ("name", .string "x")]⟩]⟩]⟩
    let app : Application := ⟨none, ⟨"p"⟩, [], [], none, [], none⟩
    document.WellKeyed ∧ app.WellKeyed ∧ ∃ expanded, document.expand app = .ok expanded ∧
      expanded.defaultProvider.toJson =
        .object [("name", .string "p"), ("kind", .string "oss"), ("name", .string "x")] ∧
      ¬expanded.toJson.DistinctKeys := by
  intro document app
  have keyed : document.WellKeyed := by
    simp [document, WellKeyed, blocks, Fields.WellKeyed, Value.DistinctKeys, Value.fieldsDistinct]
  have happ : app.WellKeyed :=
    ⟨fun _ h ↦ absurd h (by simp [app]), fun _ h ↦ absurd h List.not_mem_nil⟩
  refine ⟨keyed, happ,
    ⟨none, ⟨"p", ⟨"oss", none, none, none, none, none, none, [("name", .string "x")]⟩⟩, [], [],
      none, [], none⟩, rfl, rfl, ?_⟩
  rintro ⟨-, ⟨hkeys, -⟩, -⟩
  exact absurd hkeys (by decide)

end Document

end AppManifest
