import AppManifest.Value.JsonForm
import AppManifest.Proofs.Entries
/-!
# Normal forms of values

Writing a value as JSON and reading it again gives its normal form (`ofJson_toJson`), as long as no
object in it repeats a key. Normalizing once is enough (`normalize_normalize`), so what has been
through JSON is not changed by going through it again.

The one place where a constructor changes is an object that looks like a reference. Both sides
decide this in the same way, the reader on members and `normalize` on normal forms
(`ofMembers?_toMembers`); everything else is structural.

Every value that was read has distinct keys (`distinctKeys_ofJson`), whatever the text repeats.
-/

namespace AppManifest

namespace Binary64

/-- Numerical equality is reflexive on finite numbers. Of the others only infinities equal
themselves, and values in normal form hold neither. -/
theorem same_self {x : Binary64} (finite : x.isFinite = true) : x.same x = true := by
  cases x with
  | finite s m => simp [same]
  | infinity s => exact absurd finite (by simp [isFinite])
  | nan => exact absurd finite (by simp [isFinite])

end Binary64

namespace Value

/-! ### Lists and fields, value by value -/

/-- The writers and readers of values are recursions of their own, one for values, one for lists and
one for fields. As maps they come under the lemmas for lists. -/
theorem toItems_eq_map (items : List Value) : toItems items = items.map toJson := by
  induction items with
  | nil => rfl
  | cons item rest ih => rw [toItems, ih, List.map_cons]

/-- The members of an object are its fields, each value written by itself and the keys left as they
are. -/
theorem toMembers_eq_map (fields : List (String × Value)) :
    toMembers fields = fields.map fun entry ↦ (entry.1, entry.2.toJson) := by
  induction fields with
  | nil => rfl
  | cons entry rest ih => rw [toMembers, ih, List.map_cons]

/-- The fields that are read are the members of the object, repeated keys included: these are only
dropped where a bag is built from the fields. -/
theorem ofMembers_eq_map (members : List (String × Json)) :
    ofMembers members = members.map fun entry ↦ (entry.1, ofJson entry.2) := by
  induction members with
  | nil => rfl
  | cons entry rest ih => rw [ofMembers, ih, List.map_cons]

/-- The normal form of fields is taken value by value, and neither the keys nor their order change.
-/
theorem normalizeFields_eq_map (fields : List (String × Value)) :
    normalizeFields fields = fields.map fun entry ↦ (entry.1, entry.2.normalize) := by
  induction fields with
  | nil => rfl
  | cons entry rest ih => rw [normalizeFields, ih, List.map_cons]

/-- Under each key stands the normal form of what stood there. -/
theorem get?_normalizeFields (fields : Fields) (key : String) :
    Entries.get? (normalizeFields fields) key = (Entries.get? fields key).map normalize := by
  rw [normalizeFields_eq_map, Entries.get?_map]

/-- Having no repeated keys is defined by recursion on values. For the elements of a list this says
that each of them has none. -/
theorem itemsDistinct_iff {items : List Value} :
    itemsDistinct items ↔ ∀ item ∈ items, item.DistinctKeys := by
  induction items with
  | nil => simp [itemsDistinct]
  | cons item rest ih => simp [itemsDistinct, ih]

/-- The same for the values under the keys of an object; its own keys are another matter. -/
theorem fieldsDistinct_iff {fields : List (String × Value)} :
    fieldsDistinct fields ↔ ∀ entry ∈ fields, entry.2.DistinctKeys := by
  induction fields with
  | nil => simp [fieldsDistinct]
  | cons entry rest ih =>
    obtain ⟨key, value⟩ := entry
    simp [fieldsDistinct, ih]

/-- An object has no repeated keys if its own keys are distinct and no value under them has any. -/
theorem distinctKeys_object_iff {fields : Fields} :
    (Value.object fields).DistinctKeys ↔
      Entries.DistinctKeys fields ∧ ∀ entry ∈ fields, entry.2.DistinctKeys := by
  rw [DistinctKeys, fieldsDistinct_iff]
  rfl

@[simp] theorem keys_toMembers (fields : Fields) :
    Entries.keys (toMembers fields) = Entries.keys fields := by
  simp [toMembers_eq_map, Entries.keys, Function.comp_def]

@[simp] theorem keys_ofMembers (members : List (String × Json)) :
    Entries.keys (ofMembers members) = Entries.keys members := by
  simp [ofMembers_eq_map, Entries.keys, Function.comp_def]

@[simp] theorem keys_normalizeFields (fields : Fields) :
    Entries.keys (normalizeFields fields) = Entries.keys fields := by
  simp [normalizeFields_eq_map, Entries.keys, Function.comp_def]

theorem distinctKeys_toMembers {fields : Fields} (distinct : Entries.DistinctKeys fields) :
    Entries.DistinctKeys (toMembers fields) := by
  rwa [Entries.DistinctKeys, keys_toMembers]

theorem distinctKeys_normalizeFields {fields : Fields} (distinct : Entries.DistinctKeys fields) :
    Entries.DistinctKeys (normalizeFields fields) := by
  rwa [Entries.DistinctKeys, keys_normalizeFields]

theorem lookup_toMembers (fields : Fields) (key : String) :
    (toMembers fields).lookup key = (Entries.get? fields key).map toJson := by
  rw [← Entries.get?_eq_lookup, toMembers_eq_map, Entries.get?_map]

theorem get?_ofMembers (members : List (String × Json)) (key : String) :
    Entries.get? (ofMembers members) key = (members.lookup key).map ofJson := by
  rw [← Entries.get?_eq_lookup, ofMembers_eq_map, Entries.get?_map]

/-- A bag without a repeated key is read from its members as it stands. Only where keys repeat would
the later value move to the first place. -/
theorem ofList_ofMembers {members : List (String × Json)}
    (distinct : Entries.DistinctKeys members) :
    Entries.ofList (ofMembers members) = ofMembers members :=
  Entries.ofList_eq_self (by rwa [Entries.DistinctKeys, keys_ofMembers])

/-! ### Objects that look like references -/

/-- A hint is a string or `null`, and those are written as themselves; so it makes no difference
whether a hint is looked for in the JSON form of a value or in its normal form. -/
theorem hint?_toJson (value : Value) : BlockRef.hint? value.toJson = hint? value.normalize := by
  cases value with
  | float x => cases h : x.isFinite <;> simp [toJson, normalize, h, BlockRef.hint?, hint?]
  | object fields =>
    rw [toJson, normalize]
    cases lookalike? (normalizeFields fields) <;> rfl
  | _ => rfl

/-- A name is read from a value as from its JSON form. Everything that is written as a string is a
string. -/
theorem ofParts?_toJson (value : Value) (hint : Json) :
    BlockRef.ofParts? value.toJson hint =
      match value.normalize with
      | .string name => (BlockRef.hint? hint).map fun kind ↦ ⟨name, kind⟩
      | _ => none := by
  cases value with
  | float x => cases h : x.isFinite <;> simp [toJson, normalize, h, BlockRef.ofParts?]
  | object fields =>
    rw [toJson, normalize]
    cases lookalike? (normalizeFields fields) <;> rfl
  | _ => rfl

/-- **Members are read as a reference exactly if the normal forms under them look like one.** This
ties the two ways in which an object may come to be a reference: the reader of JSON decides on the
members, the normal form on the fields. -/
theorem ofMembers?_toMembers (fields : Fields) :
    BlockRef.ofMembers? (toMembers fields) = lookalike? (normalizeFields fields) := by
  match fields with
  | [] => rfl
  | [(key, value)] =>
    simp only [toMembers, normalizeFields, BlockRef.ofMembers?, ofParts?_toJson]
    by_cases h : key = "$ref"
    · subst h
      cases value.normalize <;> rfl
    · simp [lookalike?, h]
  | [(key, value), (key', value')] =>
    simp only [toMembers, normalizeFields, BlockRef.ofMembers?, ofParts?_toJson, hint?_toJson]
    -- the two keys in either order; a pair of other keys is no reference on both sides
    by_cases h : key = "$ref" ∧ key' = "$kind"
    · obtain ⟨rfl, rfl⟩ := h
      cases value.normalize <;> rfl
    · by_cases h' : key = "$kind" ∧ key' = "$ref"
      · obtain ⟨rfl, rfl⟩ := h'
        cases value'.normalize <;> rfl
      · rw [if_neg h, if_neg h']
        unfold lookalike?
        split <;> simp_all
  | _ :: _ :: _ :: _ => simp [toMembers, normalizeFields, BlockRef.ofMembers?, lookalike?]

/-- What is written for a reference is read as that reference. The kind is left out where there is
no hint, and an absent kind is read as none. -/
theorem ofMembers?_toMembers_blockRef (target : BlockRef) :
    BlockRef.ofMembers? target.toMembers = some target := by
  obtain ⟨name, kind⟩ := target
  cases kind <;> simp [BlockRef.toMembers, BlockRef.ofMembers?, BlockRef.ofParts?, BlockRef.hint?]

/-- An object without a `$ref` is no reference. Nothing else has to be looked at, whatever its other
members are. -/
theorem ofMembers?_eq_none {members : List (String × Json)} (h : "$ref" ∉ Entries.keys members) :
    BlockRef.ofMembers? members = none := by
  match members with
  | [] => rfl
  | [(key, value)] =>
    have hkey : key ≠ "$ref" := by simpa [eq_comm] using h
    simp [BlockRef.ofMembers?, hkey]
  | [(key, value), (key', value')] =>
    have hkeys : key ≠ "$ref" ∧ key' ≠ "$ref" := by simpa [eq_comm] using h
    simp [BlockRef.ofMembers?, hkeys]
  | _ :: _ :: _ :: _ => rfl

/-! ### Writing and reading -/

/-- An integer that was written fits into 64 bits, so reading it gives it back. -/
theorem ofInt_toInt (i : Int64) : ofInt i.toInt = .int i := by
  rw [ofInt, if_pos ⟨i.minValue_le_toInt, i.toInt_le⟩, Int64.ofInt_toInt]

mutual

/-- **What is written and read again is the normal form.** Repeated keys have to be excluded, since
reading drops all but the last value of a key and the normal form keeps them. -/
theorem ofJson_toJson : ∀ {value : Value}, value.DistinctKeys →
    ofJson value.toJson = value.normalize
  | .null, _ => rfl
  | .bool _, _ => rfl
  | .int i, _ => ofInt_toInt i
  | .float x, _ => by
    rw [toJson, normalize]
    cases x.isFinite <;> rfl
  | .string _, _ => rfl
  | .reference target, _ => by
    rw [toJson, ofJson, ofMembers?_toMembers_blockRef]
    rfl
  | .list items, h => by
    rw [toJson, ofJson, normalize, ofItems_toItems h]
  | .object fields, h => by
    rw [toJson, ofJson, normalize, ofMembers?_toMembers,
      ofList_ofMembers (distinctKeys_toMembers h.1), ofMembers_toMembers h.2]

theorem ofItems_toItems : ∀ {items : List Value}, itemsDistinct items →
    ofItems (toItems items) = normalizeItems items
  | [], _ => rfl
  | _ :: _, h => by
    rw [toItems, ofItems, normalizeItems, ofJson_toJson h.1, ofItems_toItems h.2]

/-- The same for the values of an object, before it is decided whether the object is a reference. -/
theorem ofMembers_toMembers : ∀ {fields : List (String × Value)}, fieldsDistinct fields →
    ofMembers (toMembers fields) = normalizeFields fields
  | [], _ => rfl
  | (_, _) :: _, h => by
    rw [toMembers, ofMembers, normalizeFields, ofJson_toJson h.1, ofMembers_toMembers h.2]

end

mutual

/-- **Normal forms are not changed by normalizing again.** An object that became a reference is one
for good, and one that did not has nothing in it that could still change. -/
theorem normalize_normalize : ∀ value : Value, value.normalize.normalize = value.normalize
  | .null | .bool _ | .int _ | .string _ | .reference _ => rfl
  | .float x => by
    rw [normalize]
    split
    · next h => rw [normalize, if_pos h]
    · rfl
  | .list items => by rw [normalize, normalize, normalizeItems_normalizeItems]
  | .object fields => by
    rw [normalize]
    cases h : lookalike? (normalizeFields fields) with
    | some target => rfl
    | none => simp only [normalize, normalizeFields_normalizeFields fields, h]

theorem normalizeItems_normalizeItems : ∀ items : List Value,
    normalizeItems (normalizeItems items) = normalizeItems items
  | [] => rfl
  | item :: rest => by
    rw [normalizeItems, normalizeItems, normalize_normalize item,
      normalizeItems_normalizeItems rest]

theorem normalizeFields_normalizeFields : ∀ fields : List (String × Value),
    normalizeFields (normalizeFields fields) = normalizeFields fields
  | [] => rfl
  | (_, value) :: rest => by
    rw [normalizeFields, normalizeFields, normalize_normalize value,
      normalizeFields_normalizeFields rest]

end

/-- Only what is written as `null` has a normal form that is. Such are `null` itself and the numbers
that are not finite. -/
theorem toJson_normalize_ne_null {value : Value} (h : value.toJson ≠ .null) :
    value.normalize.toJson ≠ .null := by
  cases value with
  | null => exact h
  | float x => cases hx : x.isFinite <;> simp [toJson, normalize, hx] at h ⊢
  | object fields =>
    rw [normalize]
    cases lookalike? (normalizeFields fields) <;> simp [toJson]
  | _ => simp [normalize, toJson]

/-! ### Distinct keys -/

mutual

/-- Taking normal forms repeats no key: keys stay as they are, and an object that becomes a
reference has none left. -/
theorem distinctKeys_normalize : ∀ {value : Value}, value.DistinctKeys →
    value.normalize.DistinctKeys
  | .null, _ | .bool _, _ | .int _, _ | .string _, _ | .reference _, _ => trivial
  | .float x, _ => by
    rw [normalize]
    split <;> trivial
  | .list _, h => itemsDistinct_normalizeItems h
  | .object fields, h => by
    rw [normalize]
    cases lookalike? (normalizeFields fields) with
    | some target => trivial
    | none => exact ⟨distinctKeys_normalizeFields h.1, fieldsDistinct_normalizeFields h.2⟩

theorem itemsDistinct_normalizeItems : ∀ {items : List Value}, itemsDistinct items →
    itemsDistinct (normalizeItems items)
  | [], _ => trivial
  | _ :: _, h => ⟨distinctKeys_normalize h.1, itemsDistinct_normalizeItems h.2⟩

theorem fieldsDistinct_normalizeFields : ∀ {fields : List (String × Value)}, fieldsDistinct fields →
    fieldsDistinct (normalizeFields fields)
  | [], _ => trivial
  | (_, _) :: _, h => ⟨distinctKeys_normalize h.1, fieldsDistinct_normalizeFields h.2⟩

end

/-- So the normal form of a bag without repeated keys, here or below, is another one. -/
theorem wellKeyed_normalizeFields {fields : Fields} (keyed : fields.WellKeyed) :
    Fields.WellKeyed (normalizeFields fields) :=
  ⟨distinctKeys_normalizeFields keyed.1, fieldsDistinct_normalizeFields keyed.2⟩

/-- A field bag is read back as its normal form. This is what a round trip through JSON makes of the
fields of a block. -/
theorem ofList_ofMembers_toMembers {fields : Fields} (keyed : fields.WellKeyed) :
    Entries.ofList (ofMembers (toMembers fields)) = normalizeFields fields := by
  rw [ofList_ofMembers (distinctKeys_toMembers keyed.1), ofMembers_toMembers keyed.2]

mutual

/-- **No object that was read repeats a key**, also where its text does. Each object is built by
insertion. For anything that comes out of a document the assumptions on keys are met. -/
theorem distinctKeys_ofJson : ∀ tree : Json, (ofJson tree).DistinctKeys
  | .null | .bool _ | .float _ | .string _ => trivial
  | .int n => by
    rw [ofJson, ofInt]
    split <;> trivial
  | .array items => itemsDistinct_ofItems items
  | .object members => by
    rw [ofJson]
    cases BlockRef.ofMembers? members with
    | some target => trivial
    | none =>
      refine distinctKeys_object_iff.2 ⟨Entries.distinctKeys_ofList _, fun entry h ↦ ?_⟩
      exact fieldsDistinct_iff.1 (fieldsDistinct_ofMembers members) _ (Entries.mem_of_mem_ofList h)

theorem itemsDistinct_ofItems : ∀ items : List Json, itemsDistinct (ofItems items)
  | [] => trivial
  | item :: rest => ⟨distinctKeys_ofJson item, itemsDistinct_ofItems rest⟩

theorem fieldsDistinct_ofMembers : ∀ members : List (String × Json),
    fieldsDistinct (ofMembers members)
  | [] => trivial
  | (_, value) :: rest => ⟨distinctKeys_ofJson value, fieldsDistinct_ofMembers rest⟩

end

/-! ### Equality -/

mutual

/-- A value in normal form equals itself: it holds no NaN, and under each key of an object stands
the value that is found there. Equality of values is no equivalence in general, so this has to be
shown where it is used. -/
theorem same_self : ∀ {value : Value}, value.DistinctKeys → value.normalize = value →
    same value value = true
  | .null, _, _ => rfl
  | .bool b, _, _ => by simp [same]
  | .int i, _, _ => by simp [same]
  | .float x, _, h => by
    cases hx : x.isFinite with
    | true => exact Binary64.same_self hx
    | false => exact absurd h (by simp [normalize, hx])
  | .string s, _, _ => by simp [same]
  | .reference target, _, _ => by simp [same]
  | .list items, h, hn => by
    rw [normalize, Value.list.injEq] at hn
    exact sameItems_self h hn
  | .object fields, h, hn => by
    -- a normal object does not look like a reference, so its fields are normal too
    have hfields : normalizeFields fields = fields := by
      rw [normalize] at hn
      cases hl : lookalike? (normalizeFields fields) <;> simp_all
    rw [same, beq_self_eq_true, Bool.true_and]
    exact sameUnderKeys_self h.2 hfields fun entry hmem ↦ Entries.get?_eq_some_of_mem h.1 hmem

theorem sameItems_self : ∀ {items : List Value}, itemsDistinct items →
    normalizeItems items = items → sameItems items items = true
  | [], _, _ => rfl
  | _ :: _, h, hn => by
    rw [normalizeItems, List.cons.injEq] at hn
    rw [sameItems, same_self h.1 hn.1, sameItems_self h.2 hn.2, Bool.and_self]

/-- The same for the fields of an object. They are compared with all fields of the other object, of
which the recursion has only a part left; so the other object is a parameter. -/
theorem sameUnderKeys_self : ∀ {fields all : List (String × Value)}, fieldsDistinct fields →
    normalizeFields fields = fields →
    (∀ entry ∈ fields, Entries.get? all entry.1 = some entry.2) →
    sameUnderKeys fields all = true
  | [], _, _, _, _ => rfl
  | (key, value) :: rest, all, h, hn, hall => by
    rw [normalizeFields, List.cons.injEq, Prod.mk.injEq] at hn
    have hget : Entries.get? all key = some value := hall (key, value) List.mem_cons_self
    rw [sameUnderKeys, hget, sameUnderKeys_self h.2 hn.2 fun entry hmem ↦
      hall entry (List.mem_cons_of_mem _ hmem)]
    simp [same_self h.1 hn.1.2]

end

end Value

/-- A field bag in normal form equals itself. The keys must be distinct, or a value would be
compared with the first one under its key. -/
theorem Fields.same_normalizeFields {fields : Fields} (distinct : fields.WellKeyed) :
    Fields.same (Value.normalizeFields fields) (Value.normalizeFields fields) = true := by
  have hkeys := Value.distinctKeys_normalizeFields distinct.1
  rw [Fields.same, beq_self_eq_true, Bool.true_and]
  exact Value.sameUnderKeys_self (Value.fieldsDistinct_normalizeFields distinct.2)
    (Value.normalizeFields_normalizeFields fields)
    fun entry hmem ↦ Entries.get?_eq_some_of_mem hkeys hmem

end AppManifest
