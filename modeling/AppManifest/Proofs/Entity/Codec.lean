import AppManifest.Proofs.Entity.Layout
import AppManifest.Proofs.Binary64.Integers
/-!
# Readers and writers of single fields

A part of a record is read from the JSON form of a checked value and is written as JSON again. For
each pair of a reader and a writer that records use, and the shape that their schemas pair with
them, this module has the two facts that slots need:

* `Shape.Decodes`: the reader takes whatever the shape accepts;
* `Shape.Settles`: what was read from an accepted value is accepted when it is written, and read
  again as the same.

Two shapes accept values that are written as `null`: any value, and numbers, among which an infinity
is. There an absent part is read, so the facts on them are only about values that are not written as
`null` (`toJson_ne_null` for all others). Slots inherit the facts through `Slot.decodes_required`,
`Slot.settles_required` and their likes.

Objects with arbitrary keys are written as their normal form and may look like a reference then, so
they settle under a condition; that part is in `AppManifest.Proofs.Entity.FreeObject`.
-/

namespace AppManifest

namespace Shape

variable {α : Type} {shape inner : Shape}

/-- A reader takes whatever a shape accepts. -/
def Decodes (shape : Shape) (read? : Json → Option α) : Prop :=
  ∀ ⦃value found : Value⦄, shape.Completes value found → (read? found.toJson).isSome

/-- What was read from an accepted value is accepted when it is written, and read again as the
same. -/
def Settles (shape : Shape) (read? : Json → Option α) (write : α → Json) (a : α) : Prop :=
  ∀ ⦃value found : Value⦄, value.DistinctKeys → shape.Completes value found →
    found.toJson ≠ .null → read? found.toJson = some a →
    ∃ again, shape.Accepts (Value.ofJson (write a)) again ∧ again.toJson ≠ .null ∧
      read? again.toJson = some a

/-- What was read from an accepted value has a relation to it. -/
def Reads (shape : Shape) (read? : Json → Option α) (S : Value → α → Prop) : Prop :=
  ∀ ⦃value found : Value⦄ ⦃a : α⦄, value.DistinctKeys → shape.Completes value found →
    found.toJson ≠ .null → read? found.toJson = some a → S value a

/-- What was read from an accepted value has a property. -/
def Yields (shape : Shape) (read? : Json → Option α) (P : α → Prop) : Prop :=
  ∀ ⦃value found : Value⦄ ⦃a : α⦄, value.DistinctKeys → shape.Completes value found →
    found.toJson ≠ .null → read? found.toJson = some a → P a

theorem Yields.mono {read? : Json → Option α} {P Q : α → Prop} (yields : shape.Yields read? P)
    (h : ∀ a, P a → Q a) : shape.Yields read? Q :=
  fun _ _ _ distinct completes hnull hread ↦ h _ (yields distinct completes hnull hread)

/-- No accepted value is written as `null`. -/
def neverNull : Shape → Bool
  | .any | .number => false
  | _ => true

/-- Apart from the two shapes that accept values written as `null`, the side condition of `Settles`
and `Reads` holds by itself. -/
theorem toJson_ne_null {value found : Value} (never : shape.neverNull = true)
    (h : shape.Completes value found) : found.toJson ≠ .null := by
  cases shape with
  | any => exact absurd never (by decide)
  | number => exact absurd never (by decide)
  | string =>
    obtain ⟨s, -, rfl⟩ := completes_string h
    simp [Value.toJson]
  | integer max =>
    obtain ⟨i, -, rfl, -⟩ := completes_integer h
    simp [Value.toJson]
  | bool =>
    obtain ⟨b, -, rfl⟩ := completes_bool h
    simp [Value.toJson]
  | object schema =>
    obtain ⟨raw, new, -, rfl, -⟩ := completes_object h
    simp [Value.toJson]
  | list inner =>
    obtain ⟨items, new, -, rfl, -⟩ := completes_list h
    simp [Value.toJson]
  | map inner =>
    obtain ⟨fields, new, -, rfl, -⟩ := completes_map_forall₂ h
    simp [Value.toJson]
  | reference kind =>
    obtain ⟨target, -, rfl, -⟩ := completes_reference h
    simp [Value.toJson]
  | structType =>
    obtain ⟨fields, -, rfl, -⟩ := completes_structType h
    simp [Value.toJson]

/-! ### Scalars and references -/

theorem decodes_string : Shape.string.Decodes Json.string? := by
  intro value found h
  obtain ⟨s, -, rfl⟩ := completes_string h
  rfl

/-- A string is written as a string, whatever value it was read from. -/
theorem settles_string (s : String) : Shape.string.Settles Json.string? .string s := by
  intro value found _ _ _ _
  exact ⟨.string s, accepts_string s, by simp [Value.toJson], rfl⟩

section Integer

variable {max : UInt64} {size : Nat} {ofNat : Nat → α} {toNat : α → Nat}

/-- An accepted integer is written as one that its reader takes: the bound of the shape is below the
bound of the reader. Both laws on integers below start from here. -/
theorem natBelow?_toJson (bound : max.toNat < size) {value found : Value}
    (h : (Shape.integer max).Completes value found) :
    ∃ i : Int64, found = .int i ∧ (0 ≤ i.toInt ∧ i.toInt ≤ max.toNat) ∧
      found.toJson.natBelow? size = some i.toInt.toNat := by
  obtain ⟨i, -, rfl, hnonneg, hmax⟩ := completes_integer h
  have hlt : i.toInt < size := by omega
  exact ⟨i, rfl, ⟨hnonneg, hmax⟩, by simp [Value.toJson, Json.natBelow?, hnonneg, hlt]⟩

/-- A type of bounded integers holds what fits the bound of the shape, so its reader takes every
integer that the shape accepts. -/
theorem decodes_integer (bound : max.toNat < size) :
    (Shape.integer max).Decodes fun value ↦ (value.natBelow? size).map ofNat := by
  intro value found h
  obtain ⟨i, -, -, hread⟩ := natBelow?_toJson bound h
  show ((found.toJson.natBelow? size).map ofNat).isSome
  rw [hread]
  rfl

/-- An integer is written as it was found. `toNat_ofNat` is all that is asked of the type that holds
it, so one law serves 32 and 64 bits. -/
theorem settles_integer (bound : max.toNat < size)
    (toNat_ofNat : ∀ {n}, n < size → toNat (ofNat n) = n) (a : α) :
    (Shape.integer max).Settles (fun value ↦ (value.natBelow? size).map ofNat)
      (fun a ↦ .int (toNat a)) a := by
  intro value found _ h hnull hread
  obtain ⟨i, rfl, hi, hbelow⟩ := natBelow?_toJson bound h
  obtain rfl : ofNat i.toInt.toNat = a := by simpa [hbelow] using hread
  -- the integer is written as it was found
  have hwritten : Value.ofJson (.int (toNat (ofNat i.toInt.toNat))) = .int i := by
    have hlt : i.toInt.toNat < size := by omega
    rw [toNat_ofNat hlt, Int.toNat_of_nonneg hi.1]
    exact Value.ofInt_toInt i
  exact ⟨.int i, by rw [hwritten]; exact accepts_integer hi, hnull, hread⟩

end Integer

/-- A number is read unless it is written as `null`, as an infinity is. -/
theorem decodes_number ⦃value found : Value⦄ (h : Shape.number.Completes value found)
    (hnull : found.toJson ≠ .null) : (found.toJson.number?).isSome := by
  obtain ⟨rfl, ⟨i, rfl⟩ | ⟨x, rfl, -⟩⟩ := completes_number h
  · rfl
  · cases hx : x.isFinite with
    | true => simp [Value.toJson, hx, Json.number?]
    | false => exact absurd (by simp [Value.toJson, hx]) hnull

/-- A number that was read is finite and at least zero; integers among them are rounded. Rounding
cannot leave the finite numbers, since an integer has 64 bits. -/
theorem yields_number : Shape.number.Yields Json.number?
    fun x ↦ x.isFinite = true ∧ x.isNonnegative = true := by
  intro value found x _ h hnull hread
  obtain ⟨rfl, ⟨i, rfl⟩ | ⟨y, rfl, hy⟩⟩ := completes_number h
  · -- an integer is rounded, and one of 64 bits is not rounded to infinity
    obtain ⟨path, h⟩ := h
    have hnonneg : 0 ≤ i.toInt := by
      rw [check] at h
      split at h
      · assumption
      · exact absurd h (by simp [violation])
    have hlt : i.toInt < 2 ^ 64 := by
      have := i.toInt_lt
      omega
    obtain ⟨magnitude, hfinite⟩ := Binary64.exists_ofInt_eq_finite hnonneg hlt
    obtain rfl : Binary64.ofInt i.toInt = x := Option.some.inj hread
    rw [hfinite]
    exact ⟨rfl, rfl⟩
  · cases hfinite : y.isFinite with
    | true =>
      obtain rfl : y = x := by simpa [Value.toJson, hfinite, Json.number?] using hread
      exact ⟨hfinite, hy⟩
    | false => exact absurd (by simp [Value.toJson, hfinite]) hnull

/-- A number is written as a float and read again as the same. It was rounded when it was read for
the first time, and floats are read without rounding. -/
theorem settles_number (x : Binary64) : Shape.number.Settles Json.number? Resource.cpuJson x := by
  intro value found distinct h hnull hread
  obtain ⟨hfinite, hnonneg⟩ := yields_number distinct h hnull hread
  have hjson : (Value.float x).toJson = .float x := by rw [Value.toJson, if_pos hfinite]
  refine ⟨.float x, ?_, by simp [hjson], by rw [hjson]; rfl⟩
  rw [Resource.cpuJson, if_pos hfinite]
  exact accepts_number hnonneg

theorem decodes_any : Shape.any.Decodes fun value ↦ some (Value.ofJson value) :=
  fun _ _ _ ↦ rfl

/-- Any value becomes its normal form, because it goes through JSON. The condition on keys keeps a
member that is given twice from being lost on the way. -/
theorem eq_normalize_of_any {value found a : Value} (distinct : value.DistinctKeys)
    (h : Shape.any.Completes value found) (hread : some (Value.ofJson found.toJson) = some a) :
    found = value ∧ a = value.normalize := by
  obtain rfl := completes_any.1 h
  exact ⟨rfl, (Option.some.inj hread).symm.trans (Value.ofJson_toJson distinct)⟩

/-- What was read from any value is a normal form without repeated keys, so it is written and read
as it stands from then on. -/
theorem yields_any : Shape.any.Yields (fun value ↦ some (Value.ofJson value))
    fun a ↦ a.DistinctKeys ∧ a.normalize = a := by
  intro value found a distinct h _ hread
  obtain ⟨rfl, rfl⟩ := eq_normalize_of_any distinct h hread
  exact ⟨Value.distinctKeys_normalize distinct, Value.normalize_normalize found⟩

/-- A normal form is written and read as it stands. -/
theorem settles_any (a : Value) :
    Shape.any.Settles (fun value ↦ some (Value.ofJson value)) Value.toJson a := by
  intro value found distinct h hnull hread
  obtain ⟨rfl, rfl⟩ := eq_normalize_of_any distinct h hread
  have hagain : Value.ofJson found.normalize.toJson = found.normalize := by
    rw [Value.ofJson_toJson (Value.distinctKeys_normalize distinct), Value.normalize_normalize]
  refine ⟨found.normalize, ?_, Value.toJson_normalize_ne_null hnull, congrArg some hagain⟩
  rw [hagain]
  exact accepts_any _

/-- A reference is read if its kind is the right one or is not given, and the shape accepts no
others. -/
theorem decodes_reference (kind : Kind) :
    (Shape.reference kind).Decodes (Reference.ofJson? kind) := by
  intro value found h
  obtain ⟨target, -, rfl, hkind⟩ := completes_reference h
  rw [Value.toJson, Reference.ofJson?, Value.ofMembers?_toMembers_blockRef]
  show (Reference.ofBlockRef? kind target).isSome
  rcases hkind with hkind | hkind <;> simp [Reference.ofBlockRef?, hkind]

/-- A reference is written with its kind, also if it was read without one; the shape accepts it so.
-/
theorem settles_reference {kind : Kind} (reference : Reference kind) :
    (Shape.reference kind).Settles (Reference.ofJson? kind) Reference.toJson reference := by
  intro value found _ _ _ _
  have hwritten : Value.ofJson reference.toJson = .reference reference.toBlockRef := by
    rw [Reference.toJson, Value.ofJson, Value.ofMembers?_toMembers_blockRef]
  refine ⟨.reference reference.toBlockRef, ?_, by simp [Value.toJson], ?_⟩
  · rw [hwritten]
    exact accepts_reference kind reference.name
  · rw [Value.toJson, Reference.ofJson?, Value.ofMembers?_toMembers_blockRef]
    show Reference.ofBlockRef? kind reference.toBlockRef = some reference
    simp [Reference.ofBlockRef?, Reference.toBlockRef]

/-! ### Lists -/

/-- A list of readings succeeds if each of them does. Lists are compared element by element from
here on, as the check compares them. -/
theorem mapM_eq_some_iff {β : Type} {read? : β → Option α} {items : List β} {as : List α} :
    items.mapM read? = some as ↔ List.Forall₂ (fun item a ↦ read? item = some a) items as := by
  induction items generalizing as with
  | nil => cases as <;> simp
  | cons item rest ih =>
    rw [List.mapM_cons]
    constructor
    · intro h
      obtain ⟨a, ha, h⟩ := Option.bind_eq_some_iff.1 h
      obtain ⟨others, hothers, h⟩ := Option.bind_eq_some_iff.1 h
      obtain rfl := Option.some.inj h
      exact List.Forall₂.cons ha (ih.1 hothers)
    · rintro (_ | ⟨ha, hrest⟩)
      rw [ha, ih.2 hrest]
      rfl

/-- A list is read if the reader of its elements takes what their shape accepts. -/
theorem decodes_list {item? : Json → Option α} (decodes : inner.Decodes item?) :
    (Shape.list inner).Decodes (Json.listOf? item?) := by
  intro value found h
  obtain ⟨items, new, -, rfl, hitems⟩ := completes_list h
  obtain ⟨as, has⟩ : ∃ as, (Value.toItems new).mapM item? = some as := by
    rw [Value.toItems_eq_map]
    clear h
    induction hitems with
    | nil => exact ⟨[], rfl⟩
    | cons hitem _ ih =>
      obtain ⟨a, ha⟩ := Option.isSome_iff_exists.1 (decodes hitem)
      obtain ⟨as, has⟩ := ih
      exact ⟨a :: as, mapM_eq_some_iff.2 (List.Forall₂.cons ha (mapM_eq_some_iff.1 has))⟩
  rw [Value.toJson, Json.listOf?, has]
  rfl

/-- Element by element, what was read is accepted again and read as it was. The values that were
found the first time and those found again may differ, so the second list is part of what is shown
to exist. -/
theorem exists_forall₂_of_settles {item? : Json → Option α} {write : α → Json}
    (never : inner.neverNull = true) (settles : ∀ a, inner.Settles item? write a)
    {items found : List Value} (hitems : List.Forall₂ inner.Completes items found) :
    ∀ {as : List α}, (∀ item ∈ items, item.DistinctKeys) →
      List.Forall₂ (fun item a ↦ item? (Value.toJson item) = some a) found as →
      ∃ again, List.Forall₂ inner.Accepts (Value.ofItems (as.map write)) again ∧
        List.Forall₂ (fun item a ↦ item? (Value.toJson item) = some a) again as := by
  -- on the check of the list, with the parts that were read beside it
  induction hitems with
  | nil =>
    rintro as _ (_ | _)
    exact ⟨[], List.Forall₂.nil, List.Forall₂.nil⟩
  | @cons item first rest others hitem _ ih =>
    intro as hdistinct hread
    rcases hread with - | ⟨ha, hrest⟩
    obtain ⟨first', haccepts, -, hfirst⟩ :=
      settles _ (hdistinct item List.mem_cons_self) hitem (toJson_ne_null never hitem) ha
    obtain ⟨again, hagain, htail⟩ :=
      ih (fun item hmem ↦ hdistinct item (List.mem_cons_of_mem _ hmem)) hrest
    exact ⟨first' :: again, List.Forall₂.cons haccepts hagain, List.Forall₂.cons hfirst htail⟩

/-- Lists settle if their elements do. No element may be written as `null`, since `Settles` says
nothing of values that are. -/
theorem settles_list {item? : Json → Option α} {write : α → Json} (never : inner.neverNull = true)
    (settles : ∀ a, inner.Settles item? write a) (as : List α) :
    (Shape.list inner).Settles (Json.listOf? item?) (fun as ↦ .array (as.map write)) as := by
  intro value found distinct h _ hread
  obtain ⟨items, new, rfl, rfl, hitems⟩ := completes_list h
  rw [Value.toJson, Json.listOf?, Value.toItems_eq_map, mapM_eq_some_iff,
    List.forall₂_map_left_iff] at hread
  obtain ⟨again, hagain, has⟩ :=
    exists_forall₂_of_settles never settles hitems (Value.itemsDistinct_iff.1 distinct) hread
  refine ⟨.list again, accepts_list hagain, by simp [Value.toJson], ?_⟩
  rw [Value.toJson, Json.listOf?, Value.toItems_eq_map, mapM_eq_some_iff,
    List.forall₂_map_left_iff]
  exact has

/-- Element by element, what was read has a relation to the element that it was read from. In
particular no element is left out and none is added. -/
theorem exists_forall₂_of_reads {item? : Json → Option α} {S : Value → α → Prop}
    (never : inner.neverNull = true) (reads : inner.Reads item? S) {value found : Value}
    {as : List α} (distinct : value.DistinctKeys) (h : (Shape.list inner).Completes value found)
    (hread : Json.listOf? item? found.toJson = some as) :
    ∃ items, value = .list items ∧ List.Forall₂ S items as := by
  obtain ⟨items, new, rfl, rfl, hitems⟩ := completes_list h
  rw [Value.toJson, Json.listOf?, Value.toItems_eq_map, mapM_eq_some_iff,
    List.forall₂_map_left_iff] at hread
  refine ⟨items, rfl, ?_⟩
  have hdistinct := Value.itemsDistinct_iff.1 distinct
  clear h distinct
  induction hitems generalizing as with
  | nil =>
    rcases hread with - | -
    exact List.Forall₂.nil
  | @cons item first rest others hitem _ ih =>
    rcases hread with - | ⟨ha, hrest⟩
    refine List.Forall₂.cons ?_ ?_
    · exact reads (hdistinct item List.mem_cons_self) hitem (toJson_ne_null never hitem) ha
    · exact ih hrest fun item hmem ↦ hdistinct item (List.mem_cons_of_mem _ hmem)

/-- The elements of a list that was read have the property that elements have when they are read. -/
theorem yields_list {item? : Json → Option α} {P : α → Prop} (never : inner.neverNull = true)
    (yields : inner.Yields item? P) :
    (Shape.list inner).Yields (Json.listOf? item?) fun as ↦ ∀ a ∈ as, P a := by
  intro value found as distinct h _ hread
  obtain ⟨items, -, hitems⟩ := exists_forall₂_of_reads never yields distinct h hread
  have hboth : List.Forall₂ (fun a _ ↦ P a ∧ True) as items :=
    hitems.flip.imp fun _ _ ha ↦ ⟨ha, trivial⟩
  exact ((List.forall₂_and_left _ _).1 hboth).1

/-! ### Nested records -/

variable {schema : Schema} {ofMembers? : Json.Members → Option α} {toMembers : α → Json.Members}

/-- A nested record is read if its slots read what the checks of its fields contribute. -/
theorem decodes_object (layout : Layout schema ofMembers? toMembers)
    (decodes : ∀ slot ∈ layout.slots, slot.Decodes) :
    (Shape.object schema).Decodes fun value ↦ value.members? >>= ofMembers? := by
  intro value found h
  obtain ⟨raw, new, -, rfl, hcompletes⟩ := completes_object h
  exact layout.isSome_of_completes decodes hcompletes

/-- A nested record is never taken for a reference, since its schema has no field `$ref`. Hence what
is written is an object again, and the slots settle one by one. -/
theorem settles_object (layout : Layout schema ofMembers? toMembers)
    (closed : schema.isOpen = false) (noRef : schema.declares "$ref" = false) {record : α}
    (settles : ∀ slot ∈ layout.slots, slot.Settles (slot.get record)) :
    (Shape.object schema).Settles (fun value ↦ value.members? >>= ofMembers?)
      (fun record ↦ .object (toMembers record)) record := by
  intro value found distinct h _ hread
  obtain ⟨raw, new, rfl, rfl, hcompletes⟩ := completes_object h
  obtain ⟨again, hagain, hrecord⟩ := layout.exists_accepts_of_read distinct hcompletes hread settles
  refine ⟨.object again, ?_, by simp [Value.toJson], hrecord⟩
  rw [Value.ofJson, layout.ofMembers?_toMembers_eq_none closed noRef hread]
  exact accepts_object hagain

/-- What a slot of a nested record yields, the record has. -/
theorem yields_object (layout : Layout schema ofMembers? toMembers) {slot : Slot α}
    (hmem : slot ∈ layout.slots) {P : slot.part → Prop} (yields : slot.Yields P) :
    (Shape.object schema).Yields (fun value ↦ value.members? >>= ofMembers?)
      fun record ↦ P (slot.get record) := by
  intro value found record distinct h _ hread
  obtain ⟨raw, new, rfl, rfl, hcompletes⟩ := completes_object h
  exact layout.of_yields distinct hcompletes hread hmem yields

end Shape

/-! ### From values to slots -/

/-- A field that was written with an accepted value is accepted, and contributes what became of that
value. A value written as `null` would count as absent, which `hnull` rules out. -/
theorem Field.accepts_of_written {field : Field} {raw : Fields} {value found : Value}
    (hget : Entries.get? raw field.name = some value) (accepts : field.shape.Accepts value found)
    (hnull : found.toJson ≠ .null) :
    field.Accepts raw ∧ ∀ ⦃new : Option Value⦄, field.Contributes raw new → new = some found := by
  have hvalue : value ≠ .null := by
    rintro rfl
    rw [Shape.eq_null_of_completes ⟨Path.root, accepts Path.root⟩] at hnull
    exact absurd rfl hnull
  have hgiven : present? raw field.name = some value := present?_eq_some_iff.2 ⟨hget, hvalue⟩
  refine ⟨accepts_of_given hgiven accepts, fun new h ↦ ?_⟩
  cases h with
  | given h completes =>
    obtain rfl := Option.some.inj (hgiven.symm.trans h)
    exact congrArg some (accepts.eq_of_completes completes)
  | absent h optional => exact absurd (hgiven.symm.trans h) (by simp)
  | filled h default => exact absurd (hgiven.symm.trans h) (by simp)

namespace Slot

variable {ρ α : Type} {name : String} {shape : Shape} {read? : Json → Option α} {write : α → Json}

section Required

variable {get : ρ → α}

/-- A required field is given wherever the check passed, so its slot reads what the shape accepts.
-/
theorem decodes_required (decodes : shape.Decodes read?) :
    (required name shape get read? write).Decodes := by
  intro raw value h
  obtain ⟨given, found, rfl, -, completes⟩ := h.of_required rfl
  exact decodes completes

/-- A required part settles if its shape does: it is always written, and what is written is given
again. -/
theorem settles_required (never : shape.neverNull = true) {a : α}
    (settles : shape.Settles read? write a) :
    (required name shape get read? write).Settles a := by
  intro raw value keyed h hread again hget
  obtain ⟨given, found, rfl, hgiven, completes⟩ := h.of_required rfl
  obtain ⟨new, haccepts, hnull, hnew⟩ := settles (Field.distinctKeys_of_given keyed hgiven)
    completes (Shape.toJson_ne_null never completes) hread
  obtain ⟨hfield, hcontributes⟩ := Field.accepts_of_written hget haccepts hnull
  exact ⟨hfield, fun _ h' ↦ hcontributes h' ▸ hnew⟩

/-- What is read from the value of a required field has the property that the shape gives. -/
theorem yields_required (never : shape.neverNull = true) {P : α → Prop}
    (yields : shape.Yields read? P) : (required name shape get read? write).Yields P := by
  intro raw value a keyed h hread
  obtain ⟨given, found, rfl, hgiven, completes⟩ := h.of_required rfl
  exact yields (Field.distinctKeys_of_given keyed hgiven) completes
    (Shape.toJson_ne_null never completes) hread

end Required

section Optional

variable {get : ρ → Option α}

theorem readOptional_of_ne_null {member : Json} (h : member ≠ .null) :
    readOptional read? (some member) = (read? member).map some := by
  cases member with
  | null => exact absurd rfl h
  | _ => rfl

/-- Only what is not written as `null` has to be read. This is what makes the slot of an optional
number read every infinity, as an absent part. -/
theorem decodes_optional (decodes : ∀ ⦃value found : Value⦄, shape.Completes value found →
      found.toJson ≠ .null → (read? found.toJson).isSome) :
    (optional name shape get read? write).Decodes := by
  intro raw value h
  show (readOptional read? (value.map Value.toJson)).isSome
  cases h with
  | given h completes =>
    rename_i found
    by_cases hnull : found.toJson = .null
    · rw [Option.map_some, hnull]
      rfl
    · rw [Option.map_some, readOptional_of_ne_null hnull, Option.isSome_map]
      exact decodes completes hnull
  | absent h optional => rfl
  | filled h default => exact absurd default (by simp [Slot.optional, Field.optional])

/-- Where a part is read, it is read from a member that is not `null`. -/
theorem of_readOptional_eq_some {value : Option Value} {a : α}
    (h : readOptional read? (value.map Value.toJson) = some (some a)) :
    ∃ found, value = some found ∧ found.toJson ≠ .null ∧ read? found.toJson = some a := by
  cases value with
  | none => exact absurd (Option.some.inj h) (by simp)
  | some found =>
    rw [Option.map_some] at h
    have hnull : found.toJson ≠ .null := by
      intro hnull
      rw [hnull] at h
      exact absurd (Option.some.inj h) (by simp)
    rw [readOptional_of_ne_null hnull, Option.map_eq_some_iff] at h
    obtain ⟨b, hb, heq⟩ := h
    exact ⟨found, rfl, hnull, by rw [hb, Option.some.inj heq]⟩

/-- An optional part settles if what is read of it does. An absent part is not written at all, so
the field is absent again. -/
theorem settles_optional {a : Option α} (settles : ∀ b ∈ a, shape.Settles read? write b) :
    (optional name shape get read? write).Settles a := by
  intro raw value keyed h hread again hget
  cases a with
  | none =>
    -- nothing was written, so nothing is found
    have hnone : present? again name = none := present?_eq_none_of_get? hget
    refine ⟨Field.accepts_of_absent hnone rfl, fun value' h' ↦ ?_⟩
    cases h' with
    | given h' completes => exact absurd (hnone.symm.trans h') (by simp)
    | absent h' optional => rfl
    | filled h' default => exact absurd default (by simp [Slot.optional, Field.optional])
  | some b =>
    obtain ⟨found, rfl, hnull, hb⟩ := of_readOptional_eq_some hread
    cases h with
    | given h completes =>
      obtain ⟨new, haccepts, hnull', hnew⟩ :=
        settles b rfl (Field.distinctKeys_of_given keyed h) completes hnull hb
      obtain ⟨hfield, hcontributes⟩ := Field.accepts_of_written hget haccepts hnull'
      refine ⟨hfield, fun _ h' ↦ ?_⟩
      rw [hcontributes h']
      show readOptional read? (some new.toJson) = some (some b)
      rw [readOptional_of_ne_null hnull', hnew, Option.map_some]
    | filled h default => exact absurd default (by simp [Slot.optional, Field.optional])

/-- An optional part that is there has the property that the shape gives, whatever values the shape
accepts beside it. -/
theorem yields_optional {P : α → Prop} (yields : shape.Yields read? P) :
    (optional name shape get read? write).Yields fun a : Option α ↦ ∀ b ∈ a, P b := by
  rintro raw value a keyed h hread b rfl
  obtain ⟨found, rfl, hnull, hb⟩ := of_readOptional_eq_some hread
  cases h with
  | given h completes => exact yields (Field.distinctKeys_of_given keyed h) completes hnull hb
  | filled h default => exact absurd default (by simp [Slot.optional, Field.optional])

end Optional

section Default

variable {value : Value} {default : α} {get : ρ → α}

/-- A default is a value like any other: its own check accepts it, so its slot reads the default as
it reads a value that is given. -/
theorem decodes_withDefault (decodes : shape.Decodes read?) (accepted : shape.Accepts value value) :
    (withDefault name shape value get default read? write).Decodes := by
  intro raw part h
  obtain ⟨given, found, rfl, -, completes⟩ := h.of_default rfl accepted
  exact decodes completes

/-- What stands in a checked bag was made of a value without repeated keys, given or not. It lets
the laws on defaults treat both cases at once. -/
theorem exists_completes_of_default {raw : Fields} {part : Option Value} (keyed : raw.WellKeyed)
    (h : Field.Contributes ⟨name, shape, .default value⟩ raw part)
    (accepted : shape.Accepts value value) (distinct : value.DistinctKeys) :
    ∃ given found, part = some found ∧ given.DistinctKeys ∧ shape.Completes given found := by
  obtain ⟨given, found, rfl, hgiven | rfl, completes⟩ := h.of_default rfl accepted
  · exact ⟨given, found, rfl, Field.distinctKeys_of_given keyed hgiven, completes⟩
  · exact ⟨given, found, rfl, distinct, completes⟩

/-- A part with a default settles as a required part does: it is always written, whether it was
given or filled in. -/
theorem settles_withDefault (never : shape.neverNull = true) (accepted : shape.Accepts value value)
    (distinct : value.DistinctKeys) {a : α} (settles : shape.Settles read? write a) :
    (withDefault name shape value get default read? write).Settles a := by
  intro raw part keyed h hread again hget
  obtain ⟨given, found, rfl, hdistinct, completes⟩ :=
    exists_completes_of_default keyed h accepted distinct
  obtain ⟨new, haccepts, hnull, hnew⟩ :=
    settles hdistinct completes (Shape.toJson_ne_null never completes) hread
  obtain ⟨hfield, hcontributes⟩ := Field.accepts_of_written hget haccepts hnull
  exact ⟨hfield, fun _ h' ↦ hcontributes h' ▸ hnew⟩

/-- What is read from a field with a default has the property that the shape gives, also where the
default was filled in. -/
theorem yields_withDefault (never : shape.neverNull = true) (accepted : shape.Accepts value value)
    (distinct : value.DistinctKeys) {P : α → Prop} (yields : shape.Yields read? P) :
    (withDefault name shape value get default read? write).Yields P := by
  intro raw part a keyed h hread
  obtain ⟨given, found, rfl, hdistinct, completes⟩ :=
    exists_completes_of_default keyed h accepted distinct
  exact yields hdistinct completes (Shape.toJson_ne_null never completes) hread

end Default

end Slot

/-- An optional part is the same as itself if what it holds is. Floats are the parts for which this
has to be shown. -/
theorem sameOption_self {α : Type} {same : α → α → Bool} {a : Option α}
    (h : ∀ b ∈ a, same b b = true) : sameOption same a a = true := by
  cases a with
  | none => rfl
  | some b => exact h b rfl

end AppManifest
