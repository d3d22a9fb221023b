import AppManifest.Proofs.Value.NormalForm
/-!
# Values in normal form

Normalizing a value changes it at two kinds of places only: at numbers that are not finite, and at
objects that look like references. A value without such places is *plain*, and these are exactly the
values in normal form (`Value.normalize_eq_self_iff`).

What an object looks like is said here without normalizing it as a whole: it has a string under
`$ref`, perhaps a hint under `$kind`, and nothing else.
-/

namespace AppManifest

/-- A value that is a hint once it is normal: a string or `null`. -/
def Value.BecomesHint (value : Value) : Prop :=
  value.normalize = .null ∨ ∃ kind, value.normalize = .string kind

/-- An object that consists of a string under `$ref` and perhaps a hint under `$kind`, in either
order. -/
inductive Fields.LooksLikeReference : Fields → Prop where
  | bare (name : String) : LooksLikeReference [("$ref", .string name)]
  | hinted (name : String) {hint : Value} (h : hint.BecomesHint) :
      LooksLikeReference [("$ref", .string name), ("$kind", hint)]
  | hintFirst (name : String) {hint : Value} (h : hint.BecomesHint) :
      LooksLikeReference [("$kind", hint), ("$ref", .string name)]

namespace Value

/-- Only a string has a string for its normal form. -/
theorem normalize_eq_string {value : Value} {s : String} (h : value.normalize = .string s) :
    value = .string s := by
  cases value with
  | float x => cases hx : x.isFinite <;> simp [normalize, hx] at h
  | object fields =>
    rw [normalize] at h
    cases hl : lookalike? (normalizeFields fields) <;> simp [hl] at h
  | string t => exact h
  | _ => exact absurd h (by simp [normalize])

theorem isSome_hint?_iff {value : Value} :
    (hint? value.normalize).isSome ↔ value.BecomesHint := by
  rw [BecomesHint]
  cases value.normalize <;> simp [hint?]

/-- The fields that look like a reference, by their form. -/
theorem of_lookalike?_eq_some {fields : Fields} {target : BlockRef}
    (h : lookalike? fields = some target) :
    ∃ hint, (hint? hint).isSome ∧ (fields = [("$ref", .string target.name)] ∨
      fields = [("$ref", .string target.name), ("$kind", hint)] ∨
      fields = [("$kind", hint), ("$ref", .string target.name)]) := by
  unfold lookalike? at h
  split at h
  · next name =>
    obtain rfl := Option.some.inj h
    exact ⟨.null, rfl, Or.inl rfl⟩
  · next name hint =>
    obtain ⟨kind, hkind, rfl⟩ := Option.map_eq_some_iff.1 h
    exact ⟨hint, by rw [hkind]; rfl, Or.inr (Or.inl rfl)⟩
  · next hint name =>
    obtain ⟨kind, hkind, rfl⟩ := Option.map_eq_some_iff.1 h
    exact ⟨hint, by rw [hkind]; rfl, Or.inr (Or.inr rfl)⟩
  · exact absurd h (by simp)

theorem normalizeFields_eq_cons {fields rest : Fields} {key : String} {value : Value}
    (h : normalizeFields fields = (key, value) :: rest) :
    ∃ raw more, fields = (key, raw) :: more ∧ raw.normalize = value ∧
      normalizeFields more = rest := by
  cases fields with
  | nil => exact absurd h (by simp [normalizeFields])
  | cons entry more =>
    obtain ⟨key', raw⟩ := entry
    rw [normalizeFields, List.cons.injEq, Prod.mk.injEq] at h
    obtain ⟨⟨rfl, hraw⟩, hmore⟩ := h
    exact ⟨raw, more, rfl, hraw, hmore⟩

theorem normalizeFields_eq_nil {fields : Fields} (h : normalizeFields fields = []) :
    fields = [] := by
  cases fields with
  | nil => rfl
  | cons entry more => exact absurd h (by simp [normalizeFields])

/-- **An object is normalized to a reference exactly if it looks like one.** It is the only way in
which a normal form is of another kind than its value, but for numbers that are not finite. -/
theorem isSome_lookalike?_iff {fields : Fields} :
    (lookalike? (normalizeFields fields)).isSome ↔ fields.LooksLikeReference := by
  constructor
  · intro h
    obtain ⟨target, htarget⟩ := Option.isSome_iff_exists.1 h
    obtain ⟨hint, hhint, heq | heq | heq⟩ := of_lookalike?_eq_some htarget
    · obtain ⟨name, more, rfl, hname, hmore⟩ := normalizeFields_eq_cons heq
      rw [normalize_eq_string hname, normalizeFields_eq_nil hmore]
      exact .bare target.name
    · obtain ⟨name, more, rfl, hname, hmore⟩ := normalizeFields_eq_cons heq
      obtain ⟨kind, others, rfl, rfl, hothers⟩ := normalizeFields_eq_cons hmore
      rw [normalize_eq_string hname, normalizeFields_eq_nil hothers]
      exact .hinted target.name (isSome_hint?_iff.1 hhint)
    · obtain ⟨kind, more, rfl, rfl, hmore⟩ := normalizeFields_eq_cons heq
      obtain ⟨name, others, rfl, hname, hothers⟩ := normalizeFields_eq_cons hmore
      rw [normalize_eq_string hname, normalizeFields_eq_nil hothers]
      exact .hintFirst target.name (isSome_hint?_iff.1 hhint)
  · rintro (name | ⟨name, h⟩ | ⟨name, h⟩)
    · rfl
    · simpa [normalizeFields, normalize, lookalike?] using isSome_hint?_iff.2 h
    · simpa [normalizeFields, normalize, lookalike?] using isSome_hint?_iff.2 h

mutual

/-- Neither a number that is not finite nor an object that looks like a reference occurs. -/
def Plain : Value → Prop
  | .float x => x.isFinite = true
  | .list items => itemsPlain items
  | .object fields => fieldsPlain fields ∧ ¬Fields.LooksLikeReference fields
  | _ => True

/-- All values of a list are plain. -/
def itemsPlain : List Value → Prop
  | [] => True
  | item :: rest => Plain item ∧ itemsPlain rest

/-- All values under keys are plain. -/
def fieldsPlain : List (String × Value) → Prop
  | [] => True
  | (_, value) :: rest => Plain value ∧ fieldsPlain rest

end

mutual

/-- **The values in normal form are the plain ones.** What is plain is said without mentioning
normal forms. -/
theorem normalize_eq_self_iff : ∀ value : Value, value.normalize = value ↔ value.Plain
  | .null | .bool _ | .int _ | .string _ | .reference _ => by simp [normalize, Plain]
  | .float x => by cases hx : x.isFinite <;> simp [normalize, Plain, hx]
  | .list items => by
    rw [normalize, Plain, list.injEq]
    exact normalizeItems_eq_self_iff items
  | .object fields => by
    rw [normalize, Plain, ← isSome_lookalike?_iff, ← normalizeFields_eq_self_iff fields]
    cases hl : lookalike? (normalizeFields fields) with
    | some target => simp
    | none => simp

theorem normalizeItems_eq_self_iff : ∀ items : List Value,
    normalizeItems items = items ↔ itemsPlain items
  | [] => by simp [normalizeItems, itemsPlain]
  | item :: rest => by
    rw [normalizeItems, itemsPlain, List.cons.injEq, normalize_eq_self_iff item,
      normalizeItems_eq_self_iff rest]

theorem normalizeFields_eq_self_iff : ∀ fields : List (String × Value),
    normalizeFields fields = fields ↔ fieldsPlain fields
  | [] => by simp [normalizeFields, fieldsPlain]
  | (key, value) :: rest => by
    rw [normalizeFields, fieldsPlain, List.cons.injEq, Prod.mk.injEq, normalize_eq_self_iff value,
      normalizeFields_eq_self_iff rest, and_iff_right rfl]

end

end Value

end AppManifest
