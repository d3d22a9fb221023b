import AppManifest.Proofs.Binary64.Exact
import AppManifest.Proofs.Entity.Contents
import AppManifest.Proofs.Value.Plain
/-!
# What is kept of accepted settings

An accepted field bag is kept field by field (`Entity.Holds`). Two kinds of values may be kept in
another form, and here is when they are not lost (`Entity.settings_are_kept`).

* A number of cores is kept exactly if it is finite and a floating point number stands for it. An
  infinite number of cores is accepted and dropped, and an integer that takes more than 53 bits may
  be rounded.
* A setting of any form is kept exactly if it is plain. A number that is not finite becomes `null`,
  and an object that looks like a reference becomes one.

All other settings are kept in every case.
-/

namespace AppManifest

namespace Value

/-! ### Numbers of cores -/

/-- A value is numerically equal to a number. -/
def IsNumber : Value → Binary64 → Prop
  | .int i, x => x.toRat? = some (i.toInt : ℚ)
  | .float x, y => x.same y = true
  | _, _ => False

theorem isFinite_of_cores? {value : Value} {x : Binary64} (h : value.cores? = some x)
    (hx : value.IsNumber x) : x.isFinite = true := by
  cases value with
  | int i =>
    cases x with
    | finite negative magnitude => rfl
    | infinity negative => exact absurd hx (by simp [IsNumber, Binary64.toRat?])
    | nan => exact absurd hx (by simp [IsNumber, Binary64.toRat?])
  | float y =>
    rw [cores?] at h
    split at h
    · next hy => exact Option.some.inj h ▸ hy
    · exact absurd h (by simp)
  | _ => exact absurd h (by simp [cores?])

/-- **A number of cores is read as an equal number exactly if there is a finite one.** Integers that
no float stands for are rounded to another number, and infinities are dropped. -/
theorem cores?_isNumber_iff (value : Value) :
    (∃ x, value.cores? = some x ∧ value.IsNumber x) ↔
      ∃ x : Binary64, x.isFinite = true ∧ value.IsNumber x := by
  constructor
  · rintro ⟨x, h, hx⟩
    exact ⟨x, isFinite_of_cores? h hx, hx⟩
  · rintro ⟨x, hfinite, hx⟩
    cases value with
    | int i => exact ⟨_, rfl, Binary64.toRat?_ofInt_iff.2 ⟨x, hx⟩⟩
    | float y =>
      -- a number that equals a finite one is finite itself
      have hy : y.isFinite = true := by
        cases y with
        | finite negative magnitude => rfl
        | infinity negative =>
          cases x with
          | finite negative' magnitude => exact absurd hx (by simp [IsNumber, Binary64.same])
          | _ => exact absurd hfinite (by simp [Binary64.isFinite])
        | nan => exact absurd hx (by simp [IsNumber, Binary64.same])
      exact ⟨y, if_pos hy, Binary64.same_self hy⟩
    | _ => exact hx.elim

/-! ### Values of any form -/

mutual

/-- A value that equals its normal form is plain. -/
theorem plain_of_same_normalize : ∀ {value : Value}, value.DistinctKeys →
    same value value.normalize = true → value.Plain
  | .null, _, _ | .bool _, _, _ | .int _, _, _ | .string _, _, _ | .reference _, _, _ => trivial
  | .float x, _, h => by
    cases hx : x.isFinite with
    | true => exact hx
    | false =>
      have hnull : (Value.float x).normalize = .null := by simp [normalize, hx]
      rw [hnull] at h
      exact absurd h (by simp [same])
  | .list items, distinct, h => itemsPlain_of_same distinct h
  | .object fields, distinct, h => by
    cases hl : lookalike? (normalizeFields fields) with
    | some target =>
      have hform : (Value.object fields).normalize = .reference target := by rw [normalize, hl]
      rw [hform] at h
      exact absurd h (by simp [same])
    | none =>
      have hform : (Value.object fields).normalize = .object (normalizeFields fields) := by
        rw [normalize, hl]
      rw [hform, same, Bool.and_eq_true] at h
      refine ⟨fieldsPlain_of_same distinct.2 h.2 fun entry hmem ↦ ?_, fun hlooks ↦ ?_⟩
      · rw [get?_normalizeFields, Entries.get?_eq_some_of_mem distinct.1 hmem, Option.map_some]
      · exact absurd (isSome_lookalike?_iff.2 hlooks) (by simp [hl])

theorem itemsPlain_of_same : ∀ {items : List Value}, itemsDistinct items →
    sameItems items (normalizeItems items) = true → itemsPlain items
  | [], _, _ => trivial
  | item :: rest, distinct, h => by
    rw [normalizeItems, sameItems, Bool.and_eq_true] at h
    exact ⟨plain_of_same_normalize distinct.1 h.1, itemsPlain_of_same distinct.2 h.2⟩

theorem fieldsPlain_of_same : ∀ {fields all : List (String × Value)}, fieldsDistinct fields →
    sameUnderKeys fields all = true →
    (∀ entry ∈ fields, Entries.get? all entry.1 = some entry.2.normalize) → fieldsPlain fields
  | [], _, _, _, _ => trivial
  | (key, value) :: rest, all, distinct, h, hall => by
    have hget : Entries.get? all key = some value.normalize := hall (key, value) List.mem_cons_self
    simp only [sameUnderKeys, hget, Bool.and_eq_true] at h
    exact ⟨plain_of_same_normalize distinct.1 h.1, fieldsPlain_of_same distinct.2 h.2
      fun entry hmem ↦ hall entry (List.mem_cons_of_mem _ hmem)⟩

end

/-- **A value equals its normal form exactly if it is plain.** What a normal form changes are
objects that look like references, and numbers that are not finite. -/
theorem same_normalize_iff {value : Value} (distinct : value.DistinctKeys) :
    same value value.normalize = true ↔ value.Plain := by
  refine ⟨plain_of_same_normalize distinct, fun h ↦ ?_⟩
  have hnormal := (normalize_eq_self_iff value).2 h
  rw [hnormal]
  exact same_self distinct hnormal

/-- A value that is not `null` is kept as an equal value exactly if it is plain. -/
theorem kept?_same_iff {value : Value} (distinct : value.DistinctKeys) (hnull : value ≠ .null) :
    (∃ held, value.kept? = some held ∧ same value held = true) ↔ value.Plain := by
  rw [← same_normalize_iff distinct]
  constructor
  · rintro ⟨held, hheld, hsame⟩
    rw [kept?] at hheld
    split at hheld
    · exact absurd hheld (by simp)
    · exact Option.some.inj hheld ▸ hsame
  · intro h
    have hnormal := (normalize_eq_self_iff value).2 (plain_of_same_normalize distinct h)
    have hkept : value.normalize.isNull = false := by
      rw [hnormal]
      cases value with
      | null => exact absurd rfl hnull
      | _ => rfl
    exact ⟨value.normalize, by rw [kept?, hkept]; rfl, h⟩

end Value

/-! ### The settings that may be lost -/

namespace Entity

/-- The number of cores that the fields of a kind give. -/
def givenCores? : Kind → Fields → Option Value
  | .function, raw | .workflow, raw => do
    let resource ← present? raw "resource" >>= Value.object?
    present? resource "cpu"
  | _, _ => none

/-- The number of cores that an entity holds. -/
def cores? : (kind : Kind) → Entity kind → Option Binary64
  | .function, entity => (Function.resource entity).bind (·.cpu)
  | .workflow, entity => (Workflow.resource entity).bind (·.cpu)
  | _, _ => none

end Entity

/-- The place of a setting that may have any form. -/
inductive FreeSetting where
  /-- A field of a provider that is not shared by all providers. -/
  | extra (key : String)
  /-- An option of an application. -/
  | option (key : String)
  /-- The sample input at an index. -/
  | sample (index : Nat)

namespace FreeSetting

/-- The value that the fields of a kind give to a setting. -/
def given? : FreeSetting → Kind → Fields → Option Value
  | .extra key, .provider, raw =>
    if Schema.provider.declares key then none else Entries.get? raw key
  | .option key, .application, raw => do
    let options ← present? raw "options" >>= Value.object?
    Entries.get? options key
  | .sample index, .application, raw => do
    let samples ← present? raw "inputExamples" >>= Value.list?
    let sample ← samples[index]? >>= Value.object?
    present? sample "value"
  | _, _, _ => none

/-- The value that an entity holds for a setting. -/
def held? : FreeSetting → (kind : Kind) → Entity kind → Option Value
  | .extra key, .provider, entity => Provider.extra? entity key
  | .option key, .application, entity => Application.option? entity key
  | .sample index, .application, entity => do
    let sample ← (Application.inputExamples entity)[index]?
    sample.value
  | _, _, _ => none

end FreeSetting

/-- In lists that are related element by element, what stands at an index has a partner there. -/
theorem exists_getElem?_of_forall₂ {α β : Type} {R : α → β → Prop} {as : List α} {bs : List β}
    (h : List.Forall₂ R as bs) {i : Nat} {a : α} (ha : as[i]? = some a) :
    ∃ b, bs[i]? = some b ∧ R a b := by
  induction h generalizing i with
  | nil => exact absurd ha (by simp)
  | @cons first b _ _ hab _ ih =>
    cases i with
    | zero =>
      obtain rfl : first = a := by simpa using ha
      exact ⟨b, rfl, hab⟩
    | succ i => exact ih (by simpa using ha)

namespace Value

theorem object?_eq_some_iff {value : Value} {fields : Fields} :
    value.object? = some fields ↔ value = .object fields := by
  cases value <;> simp [object?]

theorem list?_eq_some_iff {value : Value} {items : List Value} :
    value.list? = some items ↔ value = .list items := by
  cases value <;> simp [list?]

end Value

namespace Entity

variable {kind : Kind} {raw : Fields} {entity : Entity kind} {value : Value}

/-- The number of cores in resources that are held is what is read of the one that is given. -/
theorem cpu_of_rel {resource : Option Resource}
    (h : Option.Rel (Value.IsObject Resource.Holds) (present? raw "resource") resource)
    (hgiven : (present? raw "resource" >>= Value.object? >>= fun fields ↦ present? fields "cpu") =
      some value) :
    resource.bind (·.cpu) = value.cores? := by
  obtain ⟨fields, hfields, hcpu⟩ := Option.bind_eq_some_iff.1 hgiven
  obtain ⟨nested, hnested, hobject⟩ := Option.bind_eq_some_iff.1 hfields
  obtain ⟨r, rfl, raw', hraw', holds⟩ := exists_part_of_rel h hnested
  obtain rfl := Value.object.inj ((Value.object?_eq_some_iff.1 hobject).symm.trans hraw')
  rw [Option.bind_some, holds.cpu, hcpu, Option.bind_some]

/-- The number of cores of a function or a workflow is what is read of the given one; the two kinds
keep it at different places. -/
theorem cores?_eq (holds : Entity.Holds kind raw entity)
    (h : givenCores? kind raw = some value) : cores? kind entity = value.cores? := by
  cases kind with
  | function => exact cpu_of_rel (Function.Holds.resource holds) h
  | workflow => exact cpu_of_rel (Workflow.Holds.resource holds) h
  | _ => exact absurd h (by simp [givenCores?])

end Entity

namespace FreeSetting

variable {kind : Kind} {raw : Fields} {entity : Entity kind} {value : Value}

/-- A further setting of a provider is held as its normal form. -/
theorem held?_extra {provider : Provider} (keyed : raw.WellKeyed) (holds : provider.Holds raw)
    {key : String} (h : (extra key).given? .provider raw = some value) :
    value.DistinctKeys ∧ (extra key).held? .provider provider = some value.normalize := by
  have hget : Entries.get? (Schema.provider.undeclared raw) key = some value :=
    (SchemaOf.get?_undeclared _ _ _).trans h
  refine ⟨Fields.WellKeyed.get? (Layout.wellKeyed_undeclared keyed) hget, ?_⟩
  show Entries.get? provider.extra key = _
  rw [holds.extra, Value.get?_normalizeFields, hget, Option.map_some]

/-- An option of an application is held as its normal form. -/
theorem held?_option {app : Application} (keyed : raw.WellKeyed) (holds : app.Holds raw)
    {key : String} (h : (option key).given? .application raw = some value) :
    value.DistinctKeys ∧ (option key).held? .application app = some value.normalize := by
  obtain ⟨fields, hfields, hget⟩ := Option.bind_eq_some_iff.1 h
  obtain ⟨options, hoptions, hobject⟩ := Option.bind_eq_some_iff.1 hfields
  obtain rfl := Value.object?_eq_some_iff.1 hobject
  obtain ⟨held, happ, fields', heq, rfl⟩ := exists_part_of_rel holds.options hoptions
  obtain rfl := Value.object.inj heq
  refine ⟨Fields.WellKeyed.get? (keyed.present? hoptions) hget, ?_⟩
  show app.option? key = _
  rw [Application.option?, happ, Option.bind_some, Value.get?_normalizeFields, hget,
    Option.map_some]

/-- A sample input is held as what is kept of it. -/
theorem held?_sample {app : Application} (keyed : raw.WellKeyed) (holds : app.Holds raw)
    {index : Nat} (h : (sample index).given? .application raw = some value) :
    (value.DistinctKeys ∧ value ≠ .null) ∧
      (sample index).held? .application app = value.kept? := by
  obtain ⟨items, hitems, h⟩ := Option.bind_eq_some_iff.1 h
  obtain ⟨list, hlist, heq⟩ := Option.bind_eq_some_iff.1 hitems
  obtain rfl := Value.list?_eq_some_iff.1 heq
  obtain ⟨fields, hfields, hvalue⟩ := Option.bind_eq_some_iff.1 h
  obtain ⟨item, hitem, hobject⟩ := Option.bind_eq_some_iff.1 hfields
  obtain rfl := Value.object?_eq_some_iff.1 hobject
  obtain ⟨items', heq, hall⟩ := holds.inputExamples
  rw [hlist] at heq
  obtain rfl := Value.list.inj heq
  obtain ⟨held, hheld, fields', heq, hsample⟩ := exists_getElem?_of_forall₂ hall hitem
  obtain rfl := Value.object.inj heq
  have hdistinct : (Value.object fields).DistinctKeys :=
    Value.itemsDistinct_iff.1 (keyed.present? hlist) _ (List.mem_of_getElem? hitem)
  have hnull : value ≠ .null := (present?_eq_some_iff.1 hvalue).2
  refine ⟨⟨Fields.WellKeyed.present? hdistinct hvalue, hnull⟩, ?_⟩
  show (app.inputExamples[index]? >>= (·.value)) = _
  rw [hheld, Option.bind_eq_bind, Option.bind_some, hsample.value, hvalue, Option.bind_some]

/-- **A setting of any form is held as an equal value exactly if it is plain.** Options, samples and
further settings are three places for the same thing: a value that goes through JSON. -/
theorem held?_same_iff (keyed : raw.WellKeyed) (holds : Entity.Holds kind raw entity)
    {setting : FreeSetting} (h : setting.given? kind raw = some value) :
    (∃ held, setting.held? kind entity = some held ∧ Value.same value held = true) ↔
      value.Plain := by
  cases setting with
  | extra key =>
    cases kind with
    | provider =>
      obtain ⟨hdistinct, hheld⟩ := held?_extra keyed holds h
      simp [hheld, Value.same_normalize_iff hdistinct]
    | _ => exact absurd h (by simp [FreeSetting.given?])
  | option key =>
    cases kind with
    | application =>
      obtain ⟨hdistinct, hheld⟩ := held?_option keyed holds h
      simp [hheld, Value.same_normalize_iff hdistinct]
    | _ => exact absurd h (by simp [FreeSetting.given?])
  | sample index =>
    cases kind with
    | application =>
      obtain ⟨⟨hdistinct, hnull⟩, hheld⟩ := held?_sample keyed holds h
      rw [hheld]
      exact Value.kept?_same_iff hdistinct hnull
    | _ => exact absurd h (by simp [FreeSetting.given?])

end FreeSetting

namespace Entity

/-- **Accepted settings are kept.** For every kind, all raw fields without repeated keys and every
path, an entity that was parsed holds the fields that it was read from: each string, integer,
reference, list and nested record that was given, and what is not given is absent or takes its
default. A number of cores is held as an equal number exactly if some finite floating point number
equals it, and a setting of any form as an equal value exactly if it is plain. -/
theorem settings_are_kept {kind : Kind} {raw : Fields} {path : Path} {entity : Entity kind}
    (keyed : raw.WellKeyed) (h : parseFields kind raw path = .ok entity) :
    Entity.Holds kind raw entity ∧
      (∀ value, givenCores? kind raw = some value →
        ((∃ x, cores? kind entity = some x ∧ value.IsNumber x) ↔
          ∃ x : Binary64, x.isFinite = true ∧ value.IsNumber x)) ∧
      ∀ (setting : FreeSetting) (value : Value), setting.given? kind raw = some value →
        ((∃ held, setting.held? kind entity = some held ∧ Value.same value held = true) ↔
          value.Plain) := by
  have holds := holds_of_parseFields keyed h
  refine ⟨holds, fun value hgiven ↦ ?_, fun setting value hgiven ↦ ?_⟩
  · rw [cores?_eq holds hgiven]
    exact value.cores?_isNumber_iff
  · exact FreeSetting.held?_same_iff keyed holds hgiven

/-- A nested setting of a provider is plain, and it is held beside the shared settings. -/
theorem nested_setting_is_kept :
    let raw : Fields := [("limits", .object [("burst", .int 3)]), ("kind", .string "aws"),
      ("redis", .object [("port", .int 6379)])]
    let provider : Entity .provider :=
      ⟨"aws", none, none, none, none, none, some ⟨none, some 6379⟩,
        [("limits", .object [("burst", .int 3)])]⟩
    raw.WellKeyed ∧ parseFields .provider raw Path.root = .ok provider ∧
      Entity.Holds .provider raw provider ∧
      ∃ held, (FreeSetting.extra "limits").held? .provider provider = some held ∧
        Value.same (.object [("burst", .int 3)]) held = true := by
  intro raw provider
  have keyed : raw.WellKeyed :=
    ⟨by decide, ⟨by decide, trivial, trivial⟩, trivial, ⟨by decide, trivial, trivial⟩, trivial⟩
  have h : parseFields .provider raw Path.root = .ok provider := rfl
  obtain ⟨holds, -, hfree⟩ := settings_are_kept keyed h
  have hplain : (Value.object [("burst", .int 3)]).Plain := (Value.normalize_eq_self_iff _).1 rfl
  exact ⟨keyed, h, holds, (hfree (.extra "limits") _ rfl).2 hplain⟩

/-- An infinite number is accepted and lost: among the further settings of a provider it becomes
`null`, and as a number of cores it is dropped. -/
theorem infinite_settings_are_lost :
    (∃ provider : Entity .provider,
      let raw : Fields := [("kind", .string "aws"), ("timeout", .float (.infinity false))]
      raw.WellKeyed ∧ parseFields .provider raw Path.root = .ok provider ∧
        (FreeSetting.extra "timeout").given? .provider raw = some (.float (.infinity false)) ∧
        ¬∃ held, (FreeSetting.extra "timeout").held? .provider provider = some held ∧
          Value.same (.float (.infinity false)) held = true) ∧
      ∃ function : Entity .function,
        let raw : Fields := [("runtime", .string "nodejs"),
          ("resource", .object [("cpu", .float (.infinity false))])]
        raw.WellKeyed ∧ parseFields .function raw Path.root = .ok function ∧
          givenCores? .function raw = some (.float (.infinity false)) ∧
          cores? .function function = none := by
  refine ⟨⟨⟨"aws", none, none, none, none, none, none, [("timeout", .null)]⟩,
    ⟨by decide, trivial, trivial, trivial⟩, rfl, rfl, ?_⟩,
    ⟨⟨"nodejs", none, none, "", none, none, some ⟨none, none⟩, [], none, none⟩,
      ⟨by decide, trivial, ⟨by decide, trivial, trivial⟩, trivial⟩, rfl, rfl, rfl⟩⟩
  rintro ⟨held, hheld, hsame⟩
  obtain rfl : Value.null = held := Option.some.inj hheld
  exact absurd hsame (by simp [Value.same])

end Entity

end AppManifest
