import AppManifest.Proofs.Entity.Codec
import AppManifest.Proofs.Entity.TypeExpr
/-!
# Objects with arbitrary keys

Three fields of records are objects whose keys are up to the author: a map of any values, a map of
strings, and the description of a struct. What is read from such an object is written as its normal
form (`Shape.WritesNormal`), and nothing keeps these keys from being the ones of a reference. The
object then comes back as a reference, which none of the three shapes accepts.

So these fields settle exactly where the written members are not those of a reference:
`Shape.WritesNormal.settles` is the one direction, and the other is `Layout.ofMembers?_eq_none`.
-/

namespace AppManifest

namespace Shape

variable {α : Type} {shape : Shape} {read? : Json → Option α} {write : α → Json}

/-- A shape accepts objects only, and what is read from one is written as the members of its normal
form, which the shape accepts as well. -/
def WritesNormal (shape : Shape) (read? : Json → Option α) (write : α → Json) : Prop :=
  ∀ ⦃value found : Value⦄, value.DistinctKeys → shape.Completes value found →
    ∃ fields, value = .object fields ∧ found = .object fields ∧
      shape.Accepts (.object (Value.normalizeFields fields))
        (.object (Value.normalizeFields fields)) ∧
      ∀ a, read? found.toJson = some a →
        write a = .object (Value.toMembers (Value.normalizeFields fields)) ∧
          read? (write a) = some a

/-! ### The three shapes -/

/-- What is read from a map of any values is its normal form, since it goes through JSON. -/
theorem eq_normalizeFields_of_map_any {value found : Value} {options : Fields}
    (distinct : value.DistinctKeys) (h : (Shape.map .any).Completes value found)
    (hread : Fields.ofJson? found.toJson = some options) :
    ∃ fields, value = .object fields ∧ found = .object fields ∧
      options = Value.normalizeFields fields := by
  obtain ⟨fields, rfl, rfl, -⟩ := completes_map completes_any.1 h
  refine ⟨fields, rfl, rfl, ?_⟩
  rw [Value.toJson, Fields.ofJson?, Value.ofList_ofMembers_toMembers distinct] at hread
  exact (Option.some.inj hread).symm

theorem decodes_map_any : (Shape.map .any).Decodes Fields.ofJson? := by
  intro value found h
  obtain ⟨fields, -, rfl, -⟩ := completes_map completes_any.1 h
  rfl

/-- A map of any values is written as its normal form. -/
theorem writesNormal_map_any : (Shape.map .any).WritesNormal Fields.ofJson?
    fun options ↦ .object (Value.toMembers options) := by
  intro value found distinct h
  obtain ⟨fields, rfl, rfl, -⟩ := completes_map completes_any.1 h
  refine ⟨fields, rfl, rfl, accepts_map fun entry _ ↦ accepts_any _, fun options ha ↦ ?_⟩
  obtain ⟨_, heq, -, rfl⟩ := eq_normalizeFields_of_map_any distinct h ha
  obtain rfl := Value.object.inj heq
  refine ⟨rfl, ?_⟩
  rw [Fields.ofJson?, Value.ofList_ofMembers_toMembers (Value.wellKeyed_normalizeFields distinct),
    Value.normalizeFields_normalizeFields]

/-- Options that were read equal themselves: a normal form has no NaN in it. -/
theorem yields_map_any : (Shape.map .any).Yields Fields.ofJson?
    fun options ↦ Fields.same options options = true := by
  intro value found options distinct h _ hread
  obtain ⟨fields, rfl, rfl, rfl⟩ := eq_normalizeFields_of_map_any distinct h hread
  exact Fields.same_normalizeFields distinct

/-- A map of strings is read from the members that it is written as, and from no others. -/
theorem mapOf?_string?_eq_some_iff {members : Json.Members} {texts : Entries String} :
    Json.mapOf? Json.string? (.object members) = some texts ↔
      members = texts.map fun entry ↦ (entry.1, Json.string entry.2) := by
  have hentry : ∀ (member : String × Json) (entry : String × String),
      (Json.string? member.2).map (fun s ↦ (member.1, s)) = some entry ↔
        member = (entry.1, Json.string entry.2) := by
    rintro ⟨key, value⟩ ⟨key', text⟩
    cases value <;> simp [Json.string?]
  rw [Json.mapOf?, mapM_eq_some_iff]
  simp only [hentry]
  rw [← List.forall₂_map_right_iff (f := fun entry : String × String ↦
    (entry.1, Json.string entry.2)), List.forall₂_eq_eq_eq]

/-- A map that passes as one of strings is one of strings, and it is not changed. -/
theorem completes_map_string {value found : Value} (h : (Shape.map .string).Completes value found) :
    ∃ texts : Entries String, value = .object (texts.map fun entry ↦ (entry.1, .string entry.2)) ∧
      found = value := by
  have unchanged : ∀ {value found : Value}, Shape.string.Completes value found → found = value := by
    intro value found h
    obtain ⟨s, rfl, rfl⟩ := completes_string h
    rfl
  obtain ⟨fields, rfl, rfl, hfields⟩ := completes_map unchanged h
  clear h
  suffices ∃ texts : Entries String,
      fields = texts.map fun entry ↦ (entry.1, Value.string entry.2) by
    obtain ⟨texts, rfl⟩ := this
    exact ⟨texts, rfl, rfl⟩
  induction fields with
  | nil => exact ⟨[], rfl⟩
  | cons entry rest ih =>
    obtain ⟨texts, rfl⟩ := ih fun entry hmem ↦ hfields entry (List.mem_cons_of_mem _ hmem)
    obtain ⟨text, htext, -⟩ := completes_string (hfields entry List.mem_cons_self)
    exact ⟨(entry.1, text) :: texts, by rw [List.map_cons, ← htext]⟩

/-- Strings are normal. -/
theorem normalizeFields_string (texts : Entries String) :
    Value.normalizeFields (texts.map fun entry ↦ (entry.1, .string entry.2)) =
      texts.map fun entry ↦ (entry.1, .string entry.2) := by
  rw [Value.normalizeFields_eq_map, List.map_map]
  rfl

theorem toMembers_string (texts : Entries String) :
    Value.toMembers (texts.map fun entry ↦ (entry.1, .string entry.2)) =
      texts.map fun entry ↦ (entry.1, Json.string entry.2) := by
  rw [Value.toMembers_eq_map, List.map_map]
  rfl

/-- A map of strings is read if it passes as one. -/
theorem decodes_map_string : (Shape.map .string).Decodes (Json.mapOf? Json.string?) := by
  intro value found h
  obtain ⟨texts, rfl, rfl⟩ := completes_map_string h
  rw [Value.toJson, mapOf?_string?_eq_some_iff.2 (toMembers_string texts)]
  rfl

/-- A map of strings is written as its normal form, which is the map itself. -/
theorem writesNormal_map_string : (Shape.map .string).WritesNormal (Json.mapOf? Json.string?)
    fun texts ↦ .object (texts.map fun entry ↦ (entry.1, Json.string entry.2)) := by
  intro value found _ h
  obtain ⟨texts, rfl, rfl⟩ := completes_map_string h
  refine ⟨_, rfl, rfl, ?_, fun a ha ↦ ?_⟩
  · rw [normalizeFields_string]
    refine accepts_map fun entry hmem ↦ ?_
    obtain ⟨text, -, rfl⟩ := List.mem_map.1 hmem
    exact accepts_string _
  · rw [Value.toJson, mapOf?_string?_eq_some_iff] at ha
    refine ⟨?_, mapOf?_string?_eq_some_iff.2 rfl⟩
    rw [normalizeFields_string, ha]

/-- Overrides that were read equal themselves, key by key. Distinct keys are needed here, since the
comparison looks keys up. -/
theorem yields_map_string : (Shape.map .string).Yields (Json.mapOf? Json.string?)
    fun texts ↦ Provider.sameOverrides texts texts = true := by
  intro value found texts distinct h _ hread
  obtain ⟨fields, rfl, rfl⟩ := completes_map_string h
  rw [Value.toJson, mapOf?_string?_eq_some_iff, toMembers_string] at hread
  have hkeys : Entries.DistinctKeys texts := by
    have hkeys : Entries.keys texts = Entries.keys fields := by
      have := congrArg Entries.keys hread
      simpa [Entries.keys, Function.comp_def] using this.symm
    rw [Entries.DistinctKeys, hkeys]
    simpa [Entries.keys, Function.comp_def] using distinct.1
  rw [Provider.sameOverrides, beq_self_eq_true, Bool.true_and, List.all_eq_true]
  exact fun entry hmem ↦ beq_iff_eq.2 (Entries.get?_eq_some_of_mem hkeys hmem)

/-- A description of a struct is read if it passes as one. -/
theorem decodes_structType :
    Shape.structType.Decodes fun value ↦ value.members? >>= TypeExpr.ofMembers? := by
  intro value found h
  obtain ⟨fields, -, rfl, path, hcheck⟩ := completes_structType h
  exact TypeExpr.isSome_ofMembers?_of_checkFields hcheck

/-- A description of a struct is written as its normal form. -/
theorem writesNormal_structType :
    Shape.structType.WritesNormal (fun value ↦ value.members? >>= TypeExpr.ofMembers?)
      fun data ↦ .object (TypeExpr.toMembers data) := by
  intro value found _ h
  obtain ⟨fields, rfl, rfl, path, hcheck⟩ := completes_structType h
  refine ⟨fields, rfl, rfl,
    accepts_structType (TypeExpr.checkFields_normalizeFields hcheck), fun a ha ↦ ?_⟩
  have ha : TypeExpr.ofMembers? (Value.toMembers fields) = some a := ha
  have hwritten := TypeExpr.toMembers_of_ofMembers? ha
  refine ⟨congrArg Json.object hwritten, ?_⟩
  show TypeExpr.ofMembers? (TypeExpr.toMembers a) = some a
  rw [hwritten, TypeExpr.ofMembers?_toMembers_normalizeFields, ha]

theorem yields_structType :
    Shape.structType.Yields (fun value ↦ value.members? >>= TypeExpr.ofMembers?)
      fun data ↦ TypeExpr.sameUnderKeys data data = true := by
  intro value found data distinct h _ hread
  obtain ⟨fields, rfl, rfl, -⟩ := completes_structType h
  exact TypeExpr.sameUnderKeys_of_ofMembers? hread distinct

/-! ### Where they settle -/

namespace WritesNormal

variable {a : α}

/-- An object in normal form that is not read as a reference is read as it stands, so it passes the
same check again. -/
theorem ofJson_normal {fields : Fields} (distinct : (Value.object fields).DistinctKeys)
    (hnone : BlockRef.ofMembers? (Value.toMembers (Value.normalizeFields fields)) = none) :
    Value.ofJson (.object (Value.toMembers (Value.normalizeFields fields))) =
      .object (Value.normalizeFields fields) := by
  rw [Value.ofJson, hnone]
  show Value.object _ = _
  rw [Value.ofList_ofMembers_toMembers (Value.wellKeyed_normalizeFields distinct),
    Value.normalizeFields_normalizeFields]

/-- **An object with arbitrary keys settles where it is not written like a reference.** Where it is,
it comes back as a reference and is refused, which is `ofMembers?_eq_none`. -/
theorem settles (writes : shape.WritesNormal read? write)
    (hnone : ∀ members, write a = .object members → BlockRef.ofMembers? members = none) :
    shape.Settles read? write a := by
  intro value found distinct h _ hread
  obtain ⟨fields, rfl, rfl, haccepts, hwrites⟩ := writes distinct h
  obtain ⟨hwritten, hagain⟩ := hwrites a hread
  refine ⟨.object (Value.normalizeFields fields), ?_, by simp [Value.toJson], ?_⟩
  · rw [hwritten, ofJson_normal distinct (hnone _ hwritten)]
    exact haccepts
  · rw [Value.toJson, ← hwritten]
    exact hagain

/-- **Where it is accepted again it is not written like a reference.** A reference is accepted by
none of the shapes of such objects, which gives the converse of `settles`. -/
theorem ofMembers?_eq_none (writes : shape.WritesNormal read? write) {members : Json.Members}
    {found : Value} (h : shape.Completes (Value.ofJson (.object members)) found) :
    BlockRef.ofMembers? members = none := by
  cases hl : BlockRef.ofMembers? members with
  | none => rfl
  | some target =>
    have htarget : Value.ofJson (.object members) = .reference target := by
      rw [Value.ofJson, hl]
    rw [htarget] at h
    have hdistinct : (Value.reference target).DistinctKeys := trivial
    obtain ⟨fields, hfields, -⟩ := writes hdistinct h
    exact absurd hfields (by simp)

end WritesNormal

end Shape

/-- **A record whose written form is accepted again has no such object that is written like a
reference.** -/
theorem Layout.ofMembers?_eq_none {schema : Schema} {ρ α : Type} {record : ρ} {raw found : Fields}
    {ofMembers? : Json.Members → Option ρ} {toMembers : ρ → Json.Members}
    (layout : Layout schema ofMembers? toMembers) (keyed : raw.WellKeyed)
    (h : schema.Completes raw found) (read : ofMembers? (Value.toMembers found) = some record)
    {slot : Slot ρ} (hmem : slot ∈ layout.slots) {read? : Json → Option α} {write : α → Json}
    (writes : slot.field.shape.WritesNormal read? write) {members : Json.Members}
    (written : slot.write (slot.get record) = some (.object members)) {again : Fields}
    (accepted : schema.Completes (fieldsOf toMembers record) again) :
    BlockRef.ofMembers? members = none := by
  have hget : Entries.get? (fieldsOf toMembers record) slot.field.name =
      some (Value.ofJson (.object members)) := by
    rw [layout.get?_fieldsOf keyed h read hmem, written, Option.map_some]
  -- neither an object nor a reference is `null`, so the field is given and was checked
  have hgiven : present? (fieldsOf toMembers record) slot.field.name =
      some (Value.ofJson (.object members)) := by
    refine present?_eq_some_iff.2 ⟨hget, ?_⟩
    rw [Value.ofJson]
    cases BlockRef.ofMembers? members <;> simp
  have hcontributes :=
    Schema.contributes_of_completes layout.distinctNames accepted (layout.field_mem hmem)
  cases hvalue : Entries.get? again slot.field.name with
  | none =>
    rw [hvalue] at hcontributes
    cases hcontributes with
    | absent hnone optional => exact absurd (hgiven.symm.trans hnone) (by simp)
  | some value =>
    rw [hvalue] at hcontributes
    cases hcontributes with
    | given hvalue' completes =>
      obtain rfl := Option.some.inj (hgiven.symm.trans hvalue')
      exact writes.ofMembers?_eq_none completes
    | filled hnone default => exact absurd (hgiven.symm.trans hnone) (by simp)

end AppManifest
