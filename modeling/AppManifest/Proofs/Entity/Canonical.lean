import AppManifest.Proofs.Entity.FreeObject
/-!
# What an entity is written back as

An entity is read from validated fields and written back as fields. What comes back is the
*canonical form* of the validated fields, key by key and in their order:

* a reference carries the kind that its place asks for as its hint;
* a number is a floating point number;
* a value whose content no schema describes is in normal form, and so is an undeclared field;
* a declared field is left out where its canonical form is `null`.

The canonical form follows the shapes (`Shape.canonical`), so it is stated once for all records. A
slot *canonizes* if what it writes is the canonical form of what it read, and a layout whose slots
all do writes the canonical form of a checked bag (`Layout.fieldsOf_eq_canonicalFields`). Nested
records are slots of this kind again, through the theorem on their own layout.
-/

namespace AppManifest

/-- The value, unless it is `null`. -/
def Value.unlessNull (value : Value) : Option Value := if value.isNull then none else some value

namespace Shape

mutual

/-- What a validated value is once it has been read as a part of an entity and written back. -/
def canonical : Shape → Value → Value
  | .reference kind, .reference target => .reference ⟨target.name, some kind.name⟩
  | .number, .int i => .float (Binary64.ofInt i.toInt)
  | .number, .float x => if x.isFinite then .float x else .null
  | .list inner, .list items => .list (items.map inner.canonical)
  | .object schema, .object fields => .object (canonicalFields schema fields)
  | .any, value | .map _, value | .structType, value => value.normalize
  | _, value => value

/-- The canonical form of a validated field bag: each entry in its place, or left out. -/
def canonicalFields : SchemaOf Shape → Fields → Fields
  | ⟨declared, _⟩, fields => fields.filterMap fun entry ↦
    (canonicalField? declared entry.1 entry.2).map fun value ↦ (entry.1, value)

/-- The canonical form of what stands under a key, given the declared fields. -/
def canonicalField? : List (FieldOf Shape) → String → Value → Option Value
  | [], _, value => some value.normalize
  | ⟨name, shape, _⟩ :: rest, key, value =>
    if name = key then (shape.canonical value).unlessNull else canonicalField? rest key value

end

variable {α : Type} {shape inner : Shape} {read? : Json → Option α} {write : α → Json}

/-- What was read from an accepted value is written as its canonical form. -/
def Canonizes (shape : Shape) (read? : Json → Option α) (write : α → Json) : Prop :=
  ∀ ⦃value found : Value⦄ ⦃a : α⦄, value.DistinctKeys → shape.Completes value found →
    found.toJson ≠ .null → read? found.toJson = some a →
      Value.ofJson (write a) = shape.canonical found

/-! ### Values whose content no schema describes -/

/-- Any value has its normal form as its canonical form. -/
theorem canonical_any {value : Value} : Shape.any.canonical value = value.normalize := by
  cases value <;> rfl

/-- A map is taken as a whole, so its canonical form is its normal form. -/
theorem canonical_map {value : Value} : (Shape.map inner).canonical value = value.normalize := by
  cases value <;> rfl

/-- A struct is taken as a whole as well. -/
theorem canonical_structType {value : Value} :
    Shape.structType.canonical value = value.normalize := by
  cases value <;> rfl

/-! ### Where a canonical form is `null` -/

/-- A normal form is `null` exactly if the value is written as `null`, as an infinity is. -/
theorem isNull_normalize_iff {value : Value} :
    value.normalize.isNull = true ↔ value.toJson = .null := by
  cases value with
  | float x => cases hx : x.isFinite <;> simp [Value.normalize, Value.toJson, Value.isNull, hx]
  | object fields =>
    rw [Value.normalize]
    cases Value.lookalike? (Value.normalizeFields fields) <;> simp [Value.isNull, Value.toJson]
  | _ => simp [Value.normalize, Value.toJson, Value.isNull]

/-- The canonical form of an accepted value is `null` exactly if the value is written as `null`. So
the fields that are left out are the same, whether one looks at the value or at its canonical form.
-/
theorem isNull_canonical_iff {value found : Value} (h : shape.Completes value found) :
    (shape.canonical found).isNull = true ↔ found.toJson = .null := by
  cases shape with
  | any =>
    rw [canonical_any, isNull_normalize_iff]
  | number =>
    obtain ⟨rfl, ⟨i, rfl⟩ | ⟨x, rfl, -⟩⟩ := completes_number h
    · simp [canonical, Value.isNull, Value.toJson]
    · cases hx : x.isFinite <;> simp [canonical, Value.isNull, Value.toJson, hx]
  | string =>
    obtain ⟨s, -, rfl⟩ := completes_string h
    simp [canonical, Value.isNull, Value.toJson]
  | integer max =>
    obtain ⟨i, -, rfl, -⟩ := completes_integer h
    simp [canonical, Value.isNull, Value.toJson]
  | bool =>
    obtain ⟨b, -, rfl⟩ := completes_bool h
    simp [canonical, Value.isNull, Value.toJson]
  | reference kind =>
    obtain ⟨target, -, rfl, -⟩ := completes_reference h
    simp [canonical, Value.isNull, Value.toJson]
  | list inner =>
    obtain ⟨items, new, -, rfl, -⟩ := completes_list h
    simp [canonical, Value.isNull, Value.toJson]
  | object schema =>
    obtain ⟨raw, new, -, rfl, -⟩ := completes_object h
    simp [canonical, Value.isNull, Value.toJson]
  | map inner =>
    rw [canonical_map, isNull_normalize_iff]
  | structType =>
    rw [canonical_structType, isNull_normalize_iff]

/-- The canonical form of a value that is not written as `null` stands in the canonical bag. -/
theorem unlessNull_canonical {value found : Value} (h : shape.Completes value found)
    (hnull : found.toJson ≠ .null) :
    (shape.canonical found).unlessNull = some (shape.canonical found) := by
  rw [Value.unlessNull, if_neg (mt (isNull_canonical_iff h).1 hnull)]

/-! ### Readers and writers -/

/-- A string is written as it was found. -/
theorem canonizes_string : Shape.string.Canonizes Json.string? .string := by
  intro value found a _ h _ hread
  obtain ⟨s, -, rfl⟩ := completes_string h
  obtain rfl : s = a := Option.some.inj hread
  rfl

/-- An integer is written as it was found, whatever type holds it in between. -/
theorem canonizes_integer {max : UInt64} {size : Nat} {ofNat : Nat → α} {toNat : α → Nat}
    (bound : max.toNat < size) (toNat_ofNat : ∀ {n}, n < size → toNat (ofNat n) = n) :
    (Shape.integer max).Canonizes (fun value ↦ (value.natBelow? size).map ofNat)
      fun a ↦ .int (toNat a) := by
  intro value found a _ h _ hread
  obtain ⟨i, rfl, hi, hbelow⟩ := natBelow?_toJson bound h
  obtain rfl : ofNat i.toInt.toNat = a := by simpa [hbelow] using hread
  have hlt : i.toInt.toNat < size := by omega
  show Value.ofJson (.int (toNat (ofNat i.toInt.toNat))) = .int i
  rw [toNat_ofNat hlt, Int.toNat_of_nonneg hi.1]
  exact Value.ofInt_toInt i

/-- An integer among numbers is rounded and written as a float; a float is written as it was found.
-/
theorem canonizes_number : Shape.number.Canonizes Json.number? Resource.cpuJson := by
  intro value found x distinct h hnull hread
  have hx : x.isFinite = true := (yields_number distinct h hnull hread).1
  have hwritten : Value.ofJson (Resource.cpuJson x) = .float x := by
    rw [Resource.cpuJson, if_pos hx]
    rfl
  rw [hwritten]
  obtain ⟨rfl, ⟨i, rfl⟩ | ⟨y, rfl, -⟩⟩ := completes_number h
  · obtain rfl : Binary64.ofInt i.toInt = x := Option.some.inj hread
    rfl
  · cases hy : y.isFinite with
    | true =>
      obtain rfl : y = x := by simpa [Value.toJson, hy, Json.number?] using hread
      rw [canonical, if_pos hy]
    | false => exact absurd (by simp [Value.toJson, hy]) hnull

/-- Any value is written as its normal form. -/
theorem canonizes_any :
    Shape.any.Canonizes (fun value ↦ some (Value.ofJson value)) Value.toJson := by
  intro value found a distinct h _ hread
  obtain ⟨rfl, rfl⟩ := eq_normalize_of_any distinct h hread
  rw [Value.ofJson_toJson (Value.distinctKeys_normalize distinct), Value.normalize_normalize,
    canonical_any]

/-- A reference is written with the kind that was asked for. -/
theorem canonizes_reference {kind : Kind} :
    (Shape.reference kind).Canonizes (Reference.ofJson? kind) Reference.toJson := by
  intro value found reference _ h _ hread
  obtain ⟨target, -, rfl, hkind⟩ := completes_reference h
  rw [Value.toJson, Reference.ofJson?, Value.ofMembers?_toMembers_blockRef] at hread
  have hname : reference.name = target.name := by
    rcases hkind with hkind | hkind <;>
      simp [Reference.ofBlockRef?, hkind] at hread <;> exact (congrArg (·.name) hread).symm
  rw [Reference.toJson, Value.ofJson, Value.ofMembers?_toMembers_blockRef, canonical, ← hname]
  rfl

/-- A list is written as the canonical forms of its elements. -/
theorem canonizes_list {item? : Json → Option α} (never : inner.neverNull = true)
    (canonizes : inner.Canonizes item? write) :
    (Shape.list inner).Canonizes (Json.listOf? item?) fun as ↦ .array (as.map write) := by
  intro value found as distinct h hnull hread
  obtain ⟨items, new, rfl, rfl, hitems⟩ := completes_list h
  rw [Value.toJson, Json.listOf?, Value.toItems_eq_map, mapM_eq_some_iff,
    List.forall₂_map_left_iff] at hread
  have hdistinct := Value.itemsDistinct_iff.1 distinct
  clear h hnull distinct
  have heach : Value.ofItems (as.map write) = new.map inner.canonical := by
    induction hitems generalizing as with
    | nil =>
      rcases hread with - | -
      rfl
    | @cons item first rest others hitem _ ih =>
      rcases hread with - | ⟨ha, hrest⟩
      have hfirst := canonizes (hdistinct item List.mem_cons_self) hitem
        (toJson_ne_null never hitem) ha
      have hothers := ih hrest fun item hmem ↦ hdistinct item (List.mem_cons_of_mem _ hmem)
      rw [List.map_cons, Value.ofItems, hfirst, hothers, List.map_cons]
  rw [Value.ofJson, canonical, heach]

/-- An object with arbitrary keys is written as its normal form, which is its canonical form for the
shapes of such objects. -/
theorem WritesNormal.canonizes (writes : shape.WritesNormal read? write)
    (normal : ∀ value, shape.canonical value = value.normalize) : shape.Canonizes read? write := by
  intro value found a distinct h _ hread
  obtain ⟨fields, rfl, rfl, -, hwrites⟩ := writes distinct h
  have hkeyed := Value.wellKeyed_normalizeFields distinct
  have hagain : (Value.object (Value.normalizeFields fields)).normalize =
      (Value.object fields).normalize := by
    simp only [Value.normalize, Value.normalizeFields_normalizeFields]
  rw [(hwrites a hread).1, normal, ← hagain]
  exact Value.ofJson_toJson hkeyed

/-! ### Entries of a checked bag -/

/-- Under a declared name the canonical form is the one of the shape that is declared there. Names
are distinct, so it does not matter that the first of them is taken. -/
theorem canonicalField?_of_mem {fields : List (FieldOf Shape)}
    (distinct : (fields.map (·.name)).Nodup) {field : FieldOf Shape} (hmem : field ∈ fields)
    (value : Value) :
    canonicalField? fields field.name value = (field.shape.canonical value).unlessNull := by
  induction fields with
  | nil => exact absurd hmem List.not_mem_nil
  | cons first rest ih =>
    obtain ⟨name, shape, presence⟩ := first
    rw [List.map_cons, List.nodup_cons] at distinct
    rcases List.mem_cons.1 hmem with rfl | hmem
    · rw [canonicalField?, if_pos rfl]
    · have hne : name ≠ field.name := fun e ↦ distinct.1 (e ▸ List.mem_map.2 ⟨field, hmem, rfl⟩)
      rw [canonicalField?, if_neg hne, ih distinct.2 hmem]

/-- Under an undeclared name the canonical form is the normal form, and `null` is kept. -/
theorem canonicalField?_of_not_mem {fields : List (FieldOf Shape)} {key : String}
    (h : key ∉ fields.map (·.name)) (value : Value) :
    canonicalField? fields key value = some value.normalize := by
  induction fields with
  | nil => rfl
  | cons first rest ih =>
    obtain ⟨name, shape, presence⟩ := first
    rw [List.map_cons, List.mem_cons, not_or] at h
    rw [canonicalField?, if_neg (Ne.symm h.1), ih h.2]

/-- **The canonical form of a checked bag** is that of each declared field that is there, in the
order of the schema, and behind it the normal forms of the undeclared fields. Slots are compared
with it field by field. -/
theorem canonicalFields_of_completes {schema : Schema} {raw found : Fields}
    (distinct : schema.DistinctNames) (keyed : Entries.DistinctKeys raw)
    (h : schema.Completes raw found) :
    canonicalFields schema found = (schema.fields.flatMap fun field ↦
      Field.entriesOf field.name ((Entries.get? found field.name).bind fun value ↦
        (field.shape.canonical value).unlessNull)) ++
      Value.normalizeFields (schema.undeclared raw) := by
  have hdeclared : ∀ field ∈ schema.fields,
      (Field.entriesOf field.name (Entries.get? found field.name)).filterMap (fun entry ↦
          (canonicalField? schema.fields entry.1 entry.2).map fun value ↦ (entry.1, value)) =
        Field.entriesOf field.name ((Entries.get? found field.name).bind fun value ↦
          (field.shape.canonical value).unlessNull) := by
    intro field hmem
    cases Entries.get? found field.name with
    | none => rfl
    | some value =>
      show List.filterMap _ [(field.name, value)] = _
      rw [List.filterMap_cons, canonicalField?_of_mem distinct hmem, Option.bind_some]
      cases (field.shape.canonical value).unlessNull <;> rfl
  have hundeclared : (schema.undeclared raw).filterMap (fun entry ↦
      (canonicalField? schema.fields entry.1 entry.2).map fun value ↦ (entry.1, value)) =
        Value.normalizeFields (schema.undeclared raw) := by
    rw [Value.normalizeFields_eq_map, ← List.filterMap_eq_map]
    refine List.filterMap_congr fun entry hmem ↦ ?_
    rw [SchemaOf.undeclared_eq_filter, List.mem_filter] at hmem
    rw [canonicalField?_of_not_mem (of_decide_eq_true hmem.2)]
    rfl
  obtain ⟨fields, isOpen⟩ := schema
  rw [canonicalFields]
  conv_lhs => rw [Schema.eq_flatMap_append_of_completes distinct keyed h]
  rw [List.filterMap_append, List.filterMap_flatMap, List.flatMap_congr hdeclared, hundeclared]

end Shape

/-! ### Slots -/

namespace Slot

variable {ρ α : Type}

/-- A slot writes the canonical form of what it read from a checked bag. -/
def Canonizes (slot : Slot ρ) : Prop :=
  ∀ ⦃raw : Fields⦄ ⦃part : Option Value⦄ ⦃a : slot.part⦄, raw.WellKeyed →
    slot.field.Contributes raw part → slot.read (part.map Value.toJson) = some a →
    (slot.write a).map Value.ofJson =
      part.bind fun found ↦ (slot.field.shape.canonical found).unlessNull

variable {name : String} {shape : Shape} {read? : Json → Option α} {write : α → Json}

/-- What is written for a value that is there, if the value is not written as `null`: its canonical
form, which stands in the canonical bag then. -/
theorem some_ofJson_eq_unlessNull (canonizes : shape.Canonizes read? write) {value found : Value}
    {a : α} (distinct : value.DistinctKeys) (h : shape.Completes value found)
    (hnull : found.toJson ≠ .null) (hread : read? found.toJson = some a) :
    some (Value.ofJson (write a)) = (shape.canonical found).unlessNull := by
  rw [canonizes distinct h hnull hread, Shape.unlessNull_canonical h hnull]

theorem canonizes_required {get : ρ → α} (never : shape.neverNull = true)
    (canonizes : shape.Canonizes read? write) :
    (required name shape get read? write).Canonizes := by
  intro raw part a keyed h hread
  obtain ⟨given, found, rfl, hgiven, completes⟩ := h.of_required rfl
  exact some_ofJson_eq_unlessNull canonizes (Field.distinctKeys_of_given keyed hgiven) completes
    (Shape.toJson_ne_null never completes) hread

/-- The slot of an optional field canonizes if its shape does. A value that is written as `null` is
read as no part, and its canonical form is left out. -/
theorem canonizes_optional {get : ρ → Option α} (canonizes : shape.Canonizes read? write) :
    (optional name shape get read? write).Canonizes := by
  intro raw part a keyed h hread
  cases h with
  | absent hgiven optional =>
    obtain rfl : none = a := Option.some.inj hread
    rfl
  | filled hgiven default => exact absurd default (by simp [Slot.optional, Field.optional])
  | @given value found hgiven completes =>
    by_cases hnull : found.toJson = .null
    · -- what is written as `null` is read as absent, and its canonical form is left out
      have hread : readOptional read? (some found.toJson) = some a := hread
      rw [hnull] at hread
      obtain rfl : none = a := Option.some.inj hread
      have hcanonical : (shape.canonical found).isNull = true :=
        (Shape.isNull_canonical_iff completes).2 hnull
      have hleft : (shape.canonical found).unlessNull = none := if_pos hcanonical
      exact hleft.symm
    · have hread : readOptional read? (some found.toJson) = some a := hread
      rw [readOptional_of_ne_null hnull] at hread
      obtain ⟨b, hb, rfl⟩ := Option.map_eq_some_iff.1 hread
      exact some_ofJson_eq_unlessNull canonizes (Field.distinctKeys_of_given keyed hgiven)
        completes hnull hb

/-- The slot of a field with a default canonizes if its shape does. A default that was filled in is
written like a value that was given. -/
theorem canonizes_withDefault {get : ρ → α} {value : Value} {default : α}
    (never : shape.neverNull = true) (accepted : shape.Accepts value value)
    (distinct : value.DistinctKeys) (canonizes : shape.Canonizes read? write) :
    (withDefault name shape value get default read? write).Canonizes := by
  intro raw part a keyed h hread
  obtain ⟨given, found, rfl, hdistinct, completes⟩ :=
    exists_completes_of_default keyed h accepted distinct
  exact some_ofJson_eq_unlessNull canonizes hdistinct completes
    (Shape.toJson_ne_null never completes) hread

end Slot

/-! ### Records -/

section Record

variable {schema : Schema} {ρ : Type} {ofMembers? : Json.Members → Option ρ}
  {toMembers : ρ → Json.Members}

/-- **A record that was read from a checked bag is written as the canonical form of that bag**, if
each of its slots writes the canonical form of what it read. -/
theorem Layout.fieldsOf_eq_canonicalFields (layout : Layout schema ofMembers? toMembers)
    {raw found : Fields} {record : ρ} (keyed : raw.WellKeyed) (h : schema.Completes raw found)
    (read : ofMembers? (Value.toMembers found) = some record)
    (canonizes : ∀ slot ∈ layout.slots, slot.Canonizes) :
    fieldsOf toMembers record = Shape.canonicalFields schema found := by
  have hslot : ∀ slot ∈ layout.slots, Value.ofMembers (slot.membersOf record) =
      Field.entriesOf slot.field.name ((Entries.get? found slot.field.name).bind fun value ↦
        (slot.field.shape.canonical value).unlessNull) := by
    intro slot hmem
    have hread := (layout.ofMembers?_eq_some_iff.1 read).1 slot hmem
    rw [Value.lookup_toMembers] at hread
    have hwritten := canonizes slot hmem keyed
      (Schema.contributes_of_completes layout.distinctNames h (layout.field_mem hmem)) hread
    rw [← hwritten, Slot.membersOf]
    cases slot.write (slot.get record) <;> rfl
  have hslots : Value.ofMembers (layout.slots.flatMap (·.membersOf record)) =
      schema.fields.flatMap fun field ↦ Field.entriesOf field.name
        ((Entries.get? found field.name).bind fun value ↦
          (field.shape.canonical value).unlessNull) := by
    rw [layout.fields_eq, List.flatMap_map, Value.ofMembers_eq_map, List.map_flatMap]
    simp only [← Value.ofMembers_eq_map]
    exact List.flatMap_congr hslot
  rw [layout.fieldsOf_eq_append keyed h read, hslots,
    Shape.canonicalFields_of_completes layout.distinctNames keyed.1 h]

/-- A nested record is written as the canonical form of the object that it was read from. The
conditions on the schema keep the written object from being taken for a reference. -/
theorem Shape.canonizes_object (layout : Layout schema ofMembers? toMembers)
    (closed : schema.isOpen = false) (noRef : schema.declares "$ref" = false)
    (canonizes : ∀ slot ∈ layout.slots, slot.Canonizes) :
    (Shape.object schema).Canonizes (fun value ↦ value.members? >>= ofMembers?)
      fun record ↦ .object (toMembers record) := by
  intro value found record distinct h _ hread
  obtain ⟨raw, new, rfl, rfl, hcompletes⟩ := completes_object h
  rw [Value.ofJson, layout.ofMembers?_toMembers_eq_none closed noRef hread, canonical,
    ← layout.fieldsOf_eq_canonicalFields distinct hcompletes hread canonizes]
  rfl

end Record

end AppManifest
