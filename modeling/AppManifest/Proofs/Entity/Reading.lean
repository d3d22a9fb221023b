import AppManifest.Proofs.Entity.FreeObject
/-!
# Parts and the values that they were read from

Decoding says that a part can be read from a checked value, and this module says which part it is.
For each reader of a part and the shape that a schema pairs with it there is one relation between
the value that was given and the part that was read (`Shape.Reads`), and a slot inherits it:

* a part that must be there has the relation to the value of its field;
* a part that may be absent is there exactly if its field is given (`Slot.reads_optional`);
* a part with a default has the relation to the given value or else to the default.

Only numbers of cores and values of any form may be given and still not be there, namely where
they are written as `null`. For these two `Slot.reads_optional_bind` says what is read as a function
of the value.
-/

namespace AppManifest

namespace Value

variable {α : Type}

/-- The value is a string. -/
def IsText (value : Value) (s : String) : Prop := value = .string s

/-- The value is an integer that is a natural number. -/
def IsNat (value : Value) (n : Nat) : Prop := ∃ i : Int64, value = .int i ∧ i.toInt = n

/-- The value refers to the block that a typed reference names, with the kind as a hint or without
one. -/
def RefersTo {kind : Kind} (value : Value) (reference : Reference kind) : Prop :=
  ∃ hint, value = .reference ⟨reference.name, hint⟩ ∧ (hint = none ∨ hint = some kind.name)

/-- The value is a list, and its elements have a relation to the given ones. -/
def IsList (S : Value → α → Prop) (value : Value) (as : List α) : Prop :=
  ∃ items, value = .list items ∧ List.Forall₂ S items as

/-- The value is an object, and its fields have a relation to a record. -/
def IsObject (H : Fields → α → Prop) (value : Value) (a : α) : Prop :=
  ∃ fields, value = .object fields ∧ H fields a

/-- The value is an object of strings. -/
def IsTextMap (value : Value) (texts : Entries String) : Prop :=
  value = .object (texts.map fun entry ↦ (entry.1, .string entry.2))

/-- The texts of a map stand under the keys of the object, so they inherit distinct keys. -/
theorem IsTextMap.distinctKeys {value : Value} {texts : Entries String} (h : value.IsTextMap texts)
    (distinct : value.DistinctKeys) : texts.DistinctKeys := by
  subst h
  simpa [Entries.DistinctKeys, Entries.keys, Function.comp_def] using distinct.1

/-- The number of cores that a number stands for: integers are rounded, and what is not finite
stands for none. -/
def cores? : Value → Option Binary64
  | .int i => some (Binary64.ofInt i.toInt)
  | .float x => if x.isFinite then some x else none
  | _ => none

/-- What is kept of a value of any form: its normal form, unless that is `null`. -/
def kept? (value : Value) : Option Value :=
  if value.normalize.isNull then none else some value.normalize

end Value

namespace Shape

variable {α : Type} {shape inner : Shape} {schema : Schema}

theorem reads_string : Shape.string.Reads Json.string? Value.IsText := by
  intro value found s _ h _ hread
  obtain ⟨t, rfl, rfl⟩ := completes_string h
  exact congrArg Value.string (Option.some.inj hread)

/-- A bounded integer is read as the natural number that it is, whatever type holds it. -/
theorem reads_nat {max : UInt64} {size : Nat} {ofNat : Nat → α} {toNat : α → Nat}
    (bound : max.toNat < size) (toNat_ofNat : ∀ {n}, n < size → toNat (ofNat n) = n) :
    (Shape.integer max).Reads (fun value ↦ (value.natBelow? size).map ofNat)
      fun value a ↦ value.IsNat (toNat a) := by
  intro value found a _ h _ hread
  obtain ⟨i, rfl, hi, hbelow⟩ := natBelow?_toJson bound h
  obtain ⟨_, rfl, hfound, -⟩ := completes_integer h
  obtain rfl := Value.int.inj hfound
  obtain rfl : ofNat i.toInt.toNat = a := by simpa [hbelow] using hread
  have hlt : i.toInt.toNat < size := by omega
  exact ⟨i, rfl, by rw [toNat_ofNat hlt, Int.toNat_of_nonneg hi.1]⟩

/-- A typed reference is read from one with the kind as a hint or without one, and the name is the
same. -/
theorem reads_reference (kind : Kind) :
    (Shape.reference kind).Reads (Reference.ofJson? kind) Value.RefersTo := by
  intro value found reference _ h _ hread
  obtain ⟨⟨name, hint⟩, rfl, rfl, hhint⟩ := completes_reference h
  rw [Value.toJson, Reference.ofJson?, Value.ofMembers?_toMembers_blockRef] at hread
  have hread : Reference.ofBlockRef? kind ⟨name, hint⟩ = some reference := hread
  refine ⟨hint, ?_, hhint⟩
  rcases hhint with rfl | rfl
  · obtain rfl := Option.some.inj hread
    rfl
  · simp only [Reference.ofBlockRef?, if_true, Option.some.injEq] at hread
    rw [← hread]

theorem reads_list {item? : Json → Option α} {S : Value → α → Prop}
    (never : inner.neverNull = true) (reads : inner.Reads item? S) :
    (Shape.list inner).Reads (Json.listOf? item?) (Value.IsList S) :=
  fun _ _ _ distinct h _ hread ↦ exists_forall₂_of_reads never reads distinct h hread

/-- A nested record has the relation to its fields that its layout gives it. So the relation on a
record is stated once, for the places where it stands alone and for those where it is nested. -/
theorem reads_object {ofMembers? : Json.Members → Option α} {H : Fields → α → Prop}
    (holds : ∀ ⦃raw found : Fields⦄ ⦃record : α⦄, raw.WellKeyed → schema.Completes raw found →
      ofMembers? (Value.toMembers found) = some record → H raw record) :
    (Shape.object schema).Reads (fun value ↦ value.members? >>= ofMembers?) (Value.IsObject H) := by
  intro value found record distinct h _ hread
  obtain ⟨raw, new, rfl, rfl, hcompletes⟩ := completes_object h
  exact ⟨raw, rfl, holds distinct hcompletes hread⟩

/-- Free settings are kept as their normal forms, in their order. -/
theorem reads_map_any : (Shape.map .any).Reads Fields.ofJson?
    (Value.IsObject fun fields options ↦ options = Value.normalizeFields fields) := by
  intro value found options distinct h _ hread
  obtain ⟨fields, rfl, -, rfl⟩ := eq_normalizeFields_of_map_any distinct h hread
  exact ⟨fields, rfl, rfl⟩

theorem reads_map_string :
    (Shape.map .string).Reads (Json.mapOf? Json.string?) Value.IsTextMap := by
  intro value found texts _ h _ hread
  obtain ⟨given, rfl, rfl⟩ := completes_map_string h
  rw [Value.toJson, mapOf?_string?_eq_some_iff, toMembers_string] at hread
  have hinj : Function.Injective fun entry : String × String ↦ (entry.1, Json.string entry.2) := by
    rintro ⟨key, text⟩ ⟨key', text'⟩ heq
    simpa using heq
  rw [Value.IsTextMap, List.map_injective_iff.2 hinj hread]

theorem reads_structType :
    Shape.structType.Reads (fun value ↦ value.members? >>= TypeExpr.ofMembers?)
      (Value.IsObject fun fields data ↦
        TypeExpr.ofMembers? (Value.toMembers fields) = some data) := by
  intro value found data _ h _ hread
  obtain ⟨fields, rfl, rfl, -⟩ := completes_structType h
  exact ⟨fields, rfl, hread⟩

end Shape

/-! ### From values to slots -/

section Optional

variable {α : Type} {S : Value → α → Prop} {given : Option Value} {part : Option α}

/-- What is given is there. -/
theorem exists_part_of_rel (h : Option.Rel S given part) {value : Value}
    (hgiven : given = some value) : ∃ a, part = some a ∧ S value a := by
  subst hgiven
  cases h with
  | some h => exact ⟨_, rfl, h⟩

/-- What is there was given. -/
theorem exists_given_of_rel (h : Option.Rel S given part) {a : α} (hpart : part = some a) :
    ∃ value, given = some value ∧ S value a := by
  subst hpart
  cases h with
  | some h => exact ⟨_, rfl, h⟩

end Optional

namespace Slot

variable {ρ α : Type} {name : String} {shape : Shape} {read? : Json → Option α} {write : α → Json}
  {S : Value → α → Prop}

/-- A part that must be there is read from the value of its field, which is given. -/
theorem reads_required {get : ρ → α} (never : shape.neverNull = true)
    (reads : shape.Reads read? S) :
    (required name shape get read? write).Reads fun given a ↦ Option.Rel S given (some a) := by
  intro raw value a keyed h hread
  obtain ⟨given, found, rfl, hgiven, completes⟩ := h.of_required rfl
  rw [hgiven]
  exact .some (reads (Field.distinctKeys_of_given keyed hgiven) completes
    (Shape.toJson_ne_null never completes) hread)

/-- What is given is there, and nothing else is. It needs that the shape accepts nothing that is
written as `null`. -/
theorem reads_optional {get : ρ → Option α} (never : shape.neverNull = true)
    (reads : shape.Reads read? S) :
    (optional name shape get read? write).Reads (Option.Rel S) := by
  intro raw value a keyed h hread
  cases h with
  | @given value found hgiven completes =>
    have hnull := Shape.toJson_ne_null never completes
    obtain ⟨b, hb, rfl⟩ :=
      Option.map_eq_some_iff.1 ((readOptional_of_ne_null hnull).symm.trans hread)
    rw [hgiven]
    exact .some (reads (Field.distinctKeys_of_given keyed hgiven) completes hnull hb)
  | absent hgiven optional =>
    obtain rfl : none = a := Option.some.inj hread
    rw [hgiven]
    exact .none
  | filled hgiven default => exact absurd default (by simp [Slot.optional, Field.optional])

/-- A part that may be given and still not be there. Instead of a relation this has a function of
the value, which says when the part is there. -/
theorem reads_optional_bind {get : ρ → Option α} {f : Value → Option α}
    (reads : ∀ ⦃value found : Value⦄, value.DistinctKeys → shape.Completes value found →
      readOptional read? (some found.toJson) = some (f value)) :
    (optional name shape get read? write).Reads fun given a ↦ a = given.bind f := by
  intro raw value a keyed h hread
  cases h with
  | given hgiven completes =>
    rw [hgiven, Option.bind_some]
    exact Option.some.inj
      (hread.symm.trans (reads (Field.distinctKeys_of_given keyed hgiven) completes))
  | absent hgiven optional =>
    rw [hgiven, Option.bind_none]
    exact (Option.some.inj hread).symm
  | filled hgiven default => exact absurd default (by simp [Slot.optional, Field.optional])

/-- A part with a default is read from the given value, or else from the default. -/
theorem reads_withDefault {value : Value} {default : α} {get : ρ → α}
    (never : shape.neverNull = true) (accepted : shape.Accepts value value)
    (distinct : value.DistinctKeys) (reads : shape.Reads read? S) :
    (withDefault name shape value get default read? write).Reads
      fun given a ↦ S (given.getD value) a := by
  intro raw part a keyed h hread
  cases h with
  | given hgiven completes =>
    rw [hgiven]
    exact reads (Field.distinctKeys_of_given keyed hgiven) completes
      (Shape.toJson_ne_null never completes) hread
  | absent hgiven optional => exact absurd optional (by simp [Slot.withDefault])
  | filled hgiven default' =>
    -- the default is checked like a value that is given
    obtain rfl := Presence.default.inj default'
    have completes : shape.Completes value value := ⟨Path.root, accepted Path.root⟩
    rw [hgiven]
    exact reads distinct completes (Shape.toJson_ne_null never completes) hread

/-- A list that is empty where it is left out, as all lists of an application are. -/
theorem reads_listOrEmpty {inner : Shape} {item? : Json → Option α} {get : ρ → List α}
    {write : List α → Json} (never : inner.neverNull = true) (reads : inner.Reads item? S) :
    (withDefault name (.list inner) (.list []) get [] (Json.listOf? item?) write).Reads
      fun given as ↦ Value.IsList S (given.getD (.list [])) as :=
  reads_withDefault rfl (Shape.accepts_list List.Forall₂.nil) trivial
    (Shape.reads_list never reads)

/-! ### Parts that may be given and still not be there -/

/-- A number of cores is read as the rounded number, or not at all if it is written as `null`. -/
theorem readOptional_cores ⦃value found : Value⦄ (_ : value.DistinctKeys)
    (h : Shape.number.Completes value found) :
    readOptional Json.number? (some found.toJson) = some value.cores? := by
  obtain ⟨rfl, ⟨i, rfl⟩ | ⟨x, rfl, -⟩⟩ := Shape.completes_number h
  · rfl
  · cases hx : x.isFinite <;> simp [Value.toJson, Value.cores?, hx, readOptional, Json.number?]

/-- A value of any form is read as its normal form, or not at all if it is written as `null`. -/
theorem readOptional_kept ⦃value found : Value⦄ (distinct : value.DistinctKeys)
    (h : Shape.any.Completes value found) :
    readOptional (fun value ↦ some (Value.ofJson value)) (some found.toJson) =
      some value.kept? := by
  obtain rfl := Shape.completes_any.1 h
  have hnormal := Value.ofJson_toJson distinct
  by_cases hnull : found.toJson = .null
  · rw [hnull] at hnormal ⊢
    rw [Value.kept?, ← hnormal]
    rfl
  · have hkept : found.normalize.isNull = false := by
      cases hvalue : found.normalize with
      | null => exact absurd (by rw [hvalue]; rfl) (Value.toJson_normalize_ne_null hnull)
      | _ => rfl
    rw [readOptional_of_ne_null hnull, hnormal, Value.kept?, hkept]
    rfl

end Slot

end AppManifest
