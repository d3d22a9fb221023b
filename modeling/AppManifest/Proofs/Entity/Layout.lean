import AppManifest.Entity
import AppManifest.Proofs.Value.NormalForm
import AppManifest.Proofs.Validation.Bag
/-!
# Layouts of records

A record is read from the members of an object and written as members. Its *layout* says, part by
part, which declared field of a schema the part comes from and how it is read and written: the
reader, the writer and the schema of a record, written independently of each other, agree on one
list of *slots*.

From a layout two facts follow, each from the same fact about the single slots.

* `Layout.isSome_of_completes`: what the schema accepts can be read.
* `Layout.exists_accepts_of_read`: a record that was read from a checked bag, written and read
  again, is accepted and is the same record. Here distinct keys matter, since a record is written
  without repeated keys.

A slot *decodes* if it can read whatever the check of its field contributes, and it *settles* at
a part if that part, once written, is accepted and read again as that part.
-/

namespace AppManifest

/-- A part of a record: the declared field that it comes from, where it stands in the record, how it
is read from a member that may be absent, and how it is written as a member that may be left out. -/
structure Slot (ρ : Type) where
  field : Field
  part : Type
  get : ρ → part
  read : Option Json → Option part
  write : part → Option Json

namespace Slot

variable {ρ α : Type}

/-- Read a member that must be there. -/
def readRequired (read? : Json → Option α) (member : Option Json) : Option α := member >>= read?

/-- Read a member that may be absent or `null`. -/
def readOptional (read? : Json → Option α) : Option Json → Option (Option α)
  | none => some none
  | some .null => some none
  | some value => (read? value).map some

/-- Read a member with a default for where it is absent. -/
def readDefault (default : α) (read? : Json → Option α) : Option Json → Option α
  | none => some default
  | some value => read? value

/-- A part that is always there. -/
def required (name : String) (shape : Shape) (get : ρ → α) (read? : Json → Option α)
    (write : α → Json) : Slot ρ :=
  ⟨Field.required name shape, α, get, readRequired read?, fun a ↦ some (write a)⟩

/-- A part that may be absent. -/
def optional (name : String) (shape : Shape) (get : ρ → Option α) (read? : Json → Option α)
    (write : α → Json) : Slot ρ :=
  ⟨Field.optional name shape, Option α, get, readOptional read?, fun a ↦ a.map write⟩

/-- A part that takes a default where it is absent, and is always written. -/
def withDefault (name : String) (shape : Shape) (value : Value) (get : ρ → α) (default : α)
    (read? : Json → Option α) (write : α → Json) : Slot ρ :=
  ⟨⟨name, shape, .default value⟩, α, get, readDefault default read?, fun a ↦ some (write a)⟩

/-- The members that a part is written as. -/
def membersOf (slot : Slot ρ) (record : ρ) : Json.Members :=
  Json.Members.given slot.field.name id (slot.write (slot.get record))

/-- A slot reads whatever the check of its field contributes. -/
def Decodes (slot : Slot ρ) : Prop :=
  ∀ ⦃raw : Fields⦄ ⦃value : Option Value⦄, slot.field.Contributes raw value →
    (slot.read (value.map Value.toJson)).isSome

/-- A part that was read from a checked bag is accepted when it is written, and read again as it
was. -/
def Settles (slot : Slot ρ) (a : slot.part) : Prop :=
  ∀ ⦃raw : Fields⦄ ⦃value : Option Value⦄, raw.WellKeyed → slot.field.Contributes raw value →
    slot.read (value.map Value.toJson) = some a →
    ∀ ⦃again : Fields⦄, Entries.get? again slot.field.name = (slot.write a).map Value.ofJson →
      slot.field.Accepts again ∧ ∀ ⦃value' : Option Value⦄, slot.field.Contributes again value' →
        slot.read (value'.map Value.toJson) = some a

/-- A part that was read from a checked bag has a relation to what its field was given there. -/
def Reads (slot : Slot ρ) (R : Option Value → slot.part → Prop) : Prop :=
  ∀ ⦃raw : Fields⦄ ⦃value : Option Value⦄ ⦃a : slot.part⦄, raw.WellKeyed →
    slot.field.Contributes raw value → slot.read (value.map Value.toJson) = some a →
    R (present? raw slot.field.name) a

/-- A part that was read from a checked bag has a property. -/
def Yields (slot : Slot ρ) (P : slot.part → Prop) : Prop :=
  ∀ ⦃raw : Fields⦄ ⦃value : Option Value⦄ ⦃a : slot.part⦄, raw.WellKeyed →
    slot.field.Contributes raw value → slot.read (value.map Value.toJson) = some a → P a

section Members

variable {name : String} {shape : Shape} {value : Value} {default : α} {read? : Json → Option α}
  {write : α → Json}

/-- The three ways in which readers take a member are the ways in which slots read. -/
theorem required_eq (members : Json.Members) :
    members.required name read? = readRequired read? (members.lookup name) := by
  rw [Json.Members.required, readRequired]

theorem optional_eq (members : Json.Members) :
    members.optional name read? = readOptional read? (members.lookup name) := by
  rw [Json.Members.optional]
  generalize members.lookup name = member
  cases member with
  | none => rfl
  | some value => cases value <;> rfl

theorem withDefault_eq (members : Json.Members) :
    members.withDefault name default read? = readDefault default read? (members.lookup name) := by
  rw [Json.Members.withDefault]
  generalize members.lookup name = member
  cases member <;> rfl

/-- A part that is always there is written as one member. -/
theorem membersOf_required {get : ρ → α} (record : ρ) :
    (required name shape get read? write).membersOf record = [(name, write (get record))] := by
  rw [membersOf, required, Json.Members.given, id]
  rfl

/-- A part that may be absent is left out where it is. -/
theorem membersOf_optional {get : ρ → Option α} (record : ρ) :
    (optional name shape get read? write).membersOf record =
      Json.Members.given name write (get record) := by
  show Json.Members.given name id ((get record).map write) = _
  cases get record <;> rfl

/-- A part with a default is written also where it is the default. -/
theorem membersOf_withDefault {get : ρ → α} (record : ρ) :
    (withDefault name shape value get default read? write).membersOf record =
      [(name, write (get record))] := by
  rw [membersOf, withDefault, Json.Members.given, id]

end Members

theorem lookup_membersOf (slot : Slot ρ) (record : ρ) (name : String) :
    (slot.membersOf record).lookup name =
      if slot.field.name = name then slot.write (slot.get record) else none := by
  by_cases h : slot.field.name = name
  · rw [if_pos h, membersOf]
    cases slot.write (slot.get record) <;> simp [Json.Members.given, h]
  · have h' : (name == slot.field.name) = false := by simpa using Ne.symm h
    rw [if_neg h, membersOf]
    cases slot.write (slot.get record) <;> simp [Json.Members.given, List.lookup_cons, h']

theorem keys_membersOf_sublist (slots : List (Slot ρ)) (record : ρ) :
    (Entries.keys (slots.flatMap (·.membersOf record))).Sublist (slots.map (·.field.name)) := by
  induction slots with
  | nil => exact List.Sublist.refl _
  | cons slot rest ih =>
    rw [List.flatMap_cons, Entries.keys, List.map_append, List.map_cons, membersOf]
    cases slot.write (slot.get record) with
    | none => exact ih.cons _
    | some value => exact ih.cons_cons _

/-- **Under the name of a slot stands what is written for its part.** Slots have distinct names, so
no other slot writes under it. -/
theorem lookup_flatMap_membersOf {slots : List (Slot ρ)}
    (distinct : (slots.map (·.field.name)).Nodup) (record : ρ) {slot : Slot ρ}
    (hmem : slot ∈ slots) :
    (slots.flatMap (·.membersOf record)).lookup slot.field.name = slot.write (slot.get record) := by
  induction slots with
  | nil => exact absurd hmem List.not_mem_nil
  | cons first rest ih =>
    rw [List.map_cons, List.nodup_cons] at distinct
    rw [List.flatMap_cons, List.lookup_append, lookup_membersOf]
    rcases List.mem_cons.1 hmem with rfl | hmem
    · have hrest : (rest.flatMap (·.membersOf record)).lookup slot.field.name = none := by
        rw [← Entries.get?_eq_lookup, Entries.get?_eq_none_iff]
        exact fun h ↦ distinct.1 ((keys_membersOf_sublist rest record).subset h)
      rw [if_pos rfl, hrest, Option.or_none]
    · have hne : first.field.name ≠ slot.field.name := fun e ↦
        distinct.1 (e ▸ List.mem_map.2 ⟨slot, hmem, rfl⟩)
      rw [if_neg hne, Option.none_or, ih distinct.2 hmem]

end Slot

/-- The agreement of a schema, a reader and a writer on the slots of a record. An open schema has
a part more, the fields that are not declared. -/
structure Layout (schema : Schema) {ρ : Type} (ofMembers? : Json.Members → Option ρ)
    (toMembers : ρ → Json.Members) where
  slots : List (Slot ρ)
  extra : ρ → Fields
  fields_eq : schema.fields = slots.map (·.field)
  distinctNames : schema.DistinctNames
  isSome_ofMembers? : ∀ {members : Json.Members},
    (∀ slot ∈ slots, (slot.read (members.lookup slot.field.name)).isSome) →
      (ofMembers? members).isSome
  ofMembers?_eq_some_iff : ∀ {members : Json.Members} {record : ρ},
    ofMembers? members = some record ↔
    (∀ slot ∈ slots, slot.read (members.lookup slot.field.name) = some (slot.get record)) ∧
      extra record =
        if schema.isOpen then Entries.ofList (Value.ofMembers (schema.undeclared members)) else []
  toMembers_eq : ∀ record : ρ,
    toMembers record = slots.flatMap (·.membersOf record) ++ Value.toMembers (extra record)

/-- A reader that goes on after a part succeeds if the part is read and the rest succeeds. -/
theorem isSome_bind_of {α β : Type} {first : Option α} {next : α → Option β} (hfirst : first.isSome)
    (hnext : ∀ a, (next a).isSome) : (first >>= next).isSome := by
  obtain ⟨a, rfl⟩ := Option.isSome_iff_exists.1 hfirst
  exact hnext a

namespace Layout

variable {schema : Schema} {ρ : Type} {ofMembers? : Json.Members → Option ρ}
  {toMembers : ρ → Json.Members} {raw found : Fields} {record : ρ}

/-- A record without an undeclared part, for a closed schema. -/
def ofClosed (closed : schema.isOpen = false) (slots : List (Slot ρ))
    (fields_eq : schema.fields = slots.map (·.field)) (distinctNames : schema.DistinctNames)
    (isSome : ∀ {members : Json.Members},
      (∀ slot ∈ slots, (slot.read (members.lookup slot.field.name)).isSome) →
        (ofMembers? members).isSome)
    (eq_some_iff : ∀ {members : Json.Members} {record : ρ}, ofMembers? members = some record ↔
      ∀ slot ∈ slots, slot.read (members.lookup slot.field.name) = some (slot.get record))
    (eq_flatMap : ∀ record : ρ, toMembers record = slots.flatMap (·.membersOf record)) :
    Layout schema ofMembers? toMembers where
  slots := slots
  extra _ := []
  fields_eq := fields_eq
  distinctNames := distinctNames
  isSome_ofMembers? := isSome
  ofMembers?_eq_some_iff := by
    intro members record
    rw [eq_some_iff, closed]
    exact (and_iff_left rfl).symm
  toMembers_eq record := by
    rw [eq_flatMap, Value.toMembers, List.append_nil]

theorem slot_names (layout : Layout schema ofMembers? toMembers) :
    schema.fields.map (·.name) = layout.slots.map (·.field.name) := by
  rw [layout.fields_eq, List.map_map]
  rfl

theorem field_mem (layout : Layout schema ofMembers? toMembers) {slot : Slot ρ}
    (hmem : slot ∈ layout.slots) : slot.field ∈ schema.fields := by
  rw [layout.fields_eq]
  exact List.mem_map.2 ⟨slot, hmem, rfl⟩

/-- **What a schema accepts can be read**, if each slot can read what its field contributes. A slot
reads from its field alone, and what stands there is what the check of that field contributes. -/
theorem isSome_of_completes (layout : Layout schema ofMembers? toMembers)
    (decodes : ∀ slot ∈ layout.slots, slot.Decodes) (h : schema.Completes raw found) :
    (ofMembers? (Value.toMembers found)).isSome := by
  refine layout.isSome_ofMembers? fun slot hmem ↦ ?_
  rw [Value.lookup_toMembers]
  exact decodes slot hmem
    (Schema.contributes_of_completes layout.distinctNames h (layout.field_mem hmem))

/-- What a slot reads from its field, a record has that was read from a checked bag. -/
theorem of_reads (layout : Layout schema ofMembers? toMembers) (keyed : raw.WellKeyed)
    (h : schema.Completes raw found) (read : ofMembers? (Value.toMembers found) = some record)
    {slot : Slot ρ} (hmem : slot ∈ layout.slots) {R : Option Value → slot.part → Prop}
    (reads : slot.Reads R) : R (present? raw slot.field.name) (slot.get record) := by
  refine reads keyed
    (Schema.contributes_of_completes layout.distinctNames h (layout.field_mem hmem)) ?_
  rw [← Value.lookup_toMembers]
  exact (layout.ofMembers?_eq_some_iff.1 read).1 slot hmem

/-- The same of the slot at an index. -/
theorem of_reads_at (layout : Layout schema ofMembers? toMembers) (keyed : raw.WellKeyed)
    (h : schema.Completes raw found) (read : ofMembers? (Value.toMembers found) = some record)
    (i : Nat) {slot : Slot ρ} (hslot : layout.slots[i]? = some slot)
    {R : Option Value → slot.part → Prop} (reads : slot.Reads R) :
    R (present? raw slot.field.name) (slot.get record) :=
  layout.of_reads keyed h read (List.mem_of_getElem? hslot) reads

/-- What a slot yields, a record has that was read from a checked bag. -/
theorem of_yields (layout : Layout schema ofMembers? toMembers) (keyed : raw.WellKeyed)
    (h : schema.Completes raw found) (read : ofMembers? (Value.toMembers found) = some record)
    {slot : Slot ρ} (hmem : slot ∈ layout.slots) {P : slot.part → Prop} (yields : slot.Yields P) :
    P (slot.get record) :=
  layout.of_reads keyed h read hmem (R := fun _ ↦ P) yields

/-! ### The undeclared part -/

theorem undeclared_toMembers (schema : Schema) (fields : Fields) :
    schema.undeclared (Value.toMembers fields) = Value.toMembers (schema.undeclared fields) := by
  rw [SchemaOf.undeclared, SchemaOf.undeclared, Value.toMembers_eq_map, Value.toMembers_eq_map,
    List.filter_map]
  rfl

theorem wellKeyed_undeclared (keyed : raw.WellKeyed) :
    (Value.object (schema.undeclared raw)).DistinctKeys := by
  obtain ⟨hkeys, hvalues⟩ := Value.distinctKeys_object_iff.1 keyed
  exact Value.distinctKeys_object_iff.2 ⟨SchemaOf.distinctKeys_undeclared hkeys,
    fun entry hmem ↦ hvalues entry (SchemaOf.undeclared_sublist.subset hmem)⟩

/-- **The undeclared part of a record is the normal form of the undeclared fields**, of which a
closed schema accepts none. -/
theorem extra_eq_normalize (layout : Layout schema ofMembers? toMembers) (keyed : raw.WellKeyed)
    (h : schema.Completes raw found) (read : ofMembers? (Value.toMembers found) = some record) :
    layout.extra record = Value.normalizeFields (schema.undeclared raw) := by
  have hraw : schema.undeclared found = schema.undeclared raw :=
    Schema.undeclared_of_completes layout.distinctNames (Value.distinctKeys_object_iff.1 keyed).1 h
  rw [(layout.ofMembers?_eq_some_iff.1 read).2, undeclared_toMembers, hraw,
    Value.ofList_ofMembers_toMembers (wellKeyed_undeclared keyed)]
  obtain ⟨declared, -, -, -, hopen | hnone⟩ :=
    Schema.exists_parts_of_completes layout.distinctNames h
  · rw [if_pos hopen]
  · rw [hnone]
    exact ite_self _

theorem keys_toMembers (layout : Layout schema ofMembers? toMembers) (record : ρ) :
    Entries.keys (toMembers record) = Entries.keys (layout.slots.flatMap (·.membersOf record)) ++
      Entries.keys (layout.extra record) := by
  rw [layout.toMembers_eq, Entries.keys, List.map_append]
  exact congrArg _ (Value.keys_toMembers _)

/-- A closed schema declares every key that is written. -/
theorem declares_of_mem_keys (layout : Layout schema ofMembers? toMembers) {key : String}
    (hmem : key ∈ Entries.keys (layout.slots.flatMap (·.membersOf record))) :
    schema.declares key = true := by
  rw [SchemaOf.declares_iff, layout.slot_names]
  exact (Slot.keys_membersOf_sublist layout.slots record).subset hmem

/-- **A record of a closed schema without a field `$ref` is never taken for a reference.** All keys
that are written are declared then, and a reference needs a key that is not. -/
theorem ofMembers?_toMembers_eq_none (layout : Layout schema ofMembers? toMembers)
    {members : Json.Members} (closed : schema.isOpen = false)
    (noRef : schema.declares "$ref" = false) (read : ofMembers? members = some record) :
    BlockRef.ofMembers? (toMembers record) = none := by
  have hextra : layout.extra record = [] := by
    rw [(layout.ofMembers?_eq_some_iff.1 read).2, closed]
    rfl
  -- all keys that are written are declared, and `$ref` is not
  refine Value.ofMembers?_eq_none fun hmem ↦ ?_
  rw [layout.keys_toMembers, hextra, Entries.keys_nil, List.append_nil] at hmem
  rw [layout.declares_of_mem_keys hmem] at noRef
  exact absurd noRef (by decide)

/-- Slots are written under declared names, so no key is repeated if the rest is written under
others. -/
theorem distinctKeys_of_extra (layout : Layout schema ofMembers? toMembers)
    (hdistinct : Entries.DistinctKeys (layout.extra record))
    (hundeclared : ∀ key ∈ Entries.keys (layout.extra record), schema.declares key = false) :
    Entries.DistinctKeys (toMembers record) := by
  rw [Entries.DistinctKeys, layout.keys_toMembers, List.nodup_append]
  refine ⟨?_, hdistinct, ?_⟩
  · refine (Slot.keys_membersOf_sublist layout.slots record).nodup ?_
    rw [← layout.slot_names]
    exact layout.distinctNames
  · rintro key hslot _ hother rfl
    exact absurd (layout.declares_of_mem_keys hslot) (by simp [hundeclared key hother])

/-- What a record is written as. -/
def fieldsOf (toMembers : ρ → Json.Members) (record : ρ) : Fields :=
  Entries.ofList (Value.ofMembers (toMembers record))

/-- **A record that was read from a checked bag is written without a repeated key.** So nothing is
overwritten when the members are stored as a bag. -/
theorem fieldsOf_eq (layout : Layout schema ofMembers? toMembers) (keyed : raw.WellKeyed)
    (h : schema.Completes raw found) (read : ofMembers? (Value.toMembers found) = some record) :
    fieldsOf toMembers record = Value.ofMembers (toMembers record) := by
  have hkeys : Entries.keys (layout.extra record) = Entries.keys (schema.undeclared raw) := by
    rw [layout.extra_eq_normalize keyed h read, Value.keys_normalizeFields]
  refine Value.ofList_ofMembers (layout.distinctKeys_of_extra ?_ fun key hmem ↦ ?_)
  · rw [Entries.DistinctKeys, hkeys]
    exact (wellKeyed_undeclared keyed).1
  · rw [hkeys] at hmem
    exact SchemaOf.not_declares_of_mem_keys hmem

/-- Under the name of a slot stands what is written for its part. -/
theorem get?_fieldsOf (layout : Layout schema ofMembers? toMembers) (keyed : raw.WellKeyed)
    (h : schema.Completes raw found) (read : ofMembers? (Value.toMembers found) = some record)
    {slot : Slot ρ} (hmem : slot ∈ layout.slots) :
    Entries.get? (fieldsOf toMembers record) slot.field.name =
      (slot.write (slot.get record)).map Value.ofJson := by
  have hextra : Entries.get? (layout.extra record) slot.field.name = none := by
    rw [layout.extra_eq_normalize keyed h read, Entries.get?_eq_none_iff,
      Value.keys_normalizeFields]
    exact SchemaOf.not_mem_keys_undeclared
      (SchemaOf.declares_iff.2 (List.mem_map.2 ⟨_, layout.field_mem hmem, rfl⟩))
  have hdistinct : (layout.slots.map (·.field.name)).Nodup := by
    rw [← layout.slot_names]
    exact layout.distinctNames
  rw [layout.fieldsOf_eq keyed h read, Value.get?_ofMembers, layout.toMembers_eq,
    List.lookup_append, Slot.lookup_flatMap_membersOf hdistinct record hmem,
    Value.lookup_toMembers, hextra, Option.map_none, Option.or_none]

/-- A record is written as what its slots are written as, and behind it the normal forms of the
undeclared fields. -/
theorem fieldsOf_eq_append (layout : Layout schema ofMembers? toMembers) (keyed : raw.WellKeyed)
    (h : schema.Completes raw found) (read : ofMembers? (Value.toMembers found) = some record) :
    fieldsOf toMembers record = Value.ofMembers (layout.slots.flatMap (·.membersOf record)) ++
      Value.normalizeFields (schema.undeclared raw) := by
  have hextra : Value.ofMembers (Value.toMembers (layout.extra record)) =
      Value.normalizeFields (schema.undeclared raw) := by
    rw [layout.extra_eq_normalize keyed h read, Value.ofMembers_toMembers
      (Value.wellKeyed_normalizeFields (wellKeyed_undeclared keyed)).2,
      Value.normalizeFields_normalizeFields]
  rw [layout.fieldsOf_eq keyed h read, layout.toMembers_eq, Value.ofMembers_eq_map, List.map_append,
    ← Value.ofMembers_eq_map, ← Value.ofMembers_eq_map, hextra]

/-- The undeclared part of a record is what it is written as beside its slots. -/
theorem undeclared_fieldsOf (layout : Layout schema ofMembers? toMembers) (keyed : raw.WellKeyed)
    (h : schema.Completes raw found) (read : ofMembers? (Value.toMembers found) = some record) :
    schema.undeclared (fieldsOf toMembers record) = layout.extra record := by
  have hslots : ∀ key ∈ Entries.keys (Value.ofMembers (layout.slots.flatMap (·.membersOf record))),
      schema.declares key = true := by
    intro key hmem
    rw [Value.keys_ofMembers] at hmem
    exact layout.declares_of_mem_keys hmem
  have hundeclared : ∀ key ∈ Entries.keys (Value.normalizeFields (schema.undeclared raw)),
      schema.declares key = false := by
    intro key hmem
    rw [Value.keys_normalizeFields] at hmem
    exact SchemaOf.not_declares_of_mem_keys hmem
  rw [layout.fieldsOf_eq_append keyed h read, SchemaOf.undeclared_append,
    SchemaOf.undeclared_eq_nil hslots, List.nil_append, SchemaOf.undeclared_eq_self hundeclared,
    layout.extra_eq_normalize keyed h read]

/-- **A record that was read from a checked bag is accepted when it is written, and read again as
the same record**, if each of its slots settles. -/
theorem exists_accepts_of_read (layout : Layout schema ofMembers? toMembers) (keyed : raw.WellKeyed)
    (h : schema.Completes raw found) (read : ofMembers? (Value.toMembers found) = some record)
    (settles : ∀ slot ∈ layout.slots, slot.Settles (slot.get record)) :
    ∃ again, schema.Accepts (fieldsOf toMembers record) again ∧
      ofMembers? (Value.toMembers again) = some record := by
  obtain ⟨hslots, hextra⟩ := layout.ofMembers?_eq_some_iff.1 read
  -- each slot on its own: it is accepted, and what its field contributes is read as its part
  have hslot : ∀ slot ∈ layout.slots, slot.field.Accepts (fieldsOf toMembers record) ∧
      ∀ ⦃value : Option Value⦄, slot.field.Contributes (fieldsOf toMembers record) value →
        slot.read (value.map Value.toJson) = some (slot.get record) := by
    intro slot hmem
    refine settles slot hmem keyed (Schema.contributes_of_completes layout.distinctNames h
      (layout.field_mem hmem)) ?_ (layout.get?_fieldsOf keyed h read hmem)
    rw [← Value.lookup_toMembers]
    exact hslots slot hmem
  have htaken : schema.isOpen = true ∨
      ∀ key ∈ Entries.keys (fieldsOf toMembers record), schema.declares key = true := by
    cases hopen : schema.isOpen with
    | true => exact Or.inl rfl
    | false =>
      -- a closed schema leaves no undeclared part, so all keys are those of slots
      refine Or.inr fun key hmem ↦ ?_
      rw [hopen] at hextra
      rw [layout.fieldsOf_eq keyed h read, Value.keys_ofMembers, layout.keys_toMembers,
        hextra] at hmem
      exact layout.declares_of_mem_keys (by simpa using hmem)
  obtain ⟨again, hagain⟩ := Schema.exists_accepts (fun field hmem ↦ by
    rw [layout.fields_eq] at hmem
    obtain ⟨slot, hslotMem, rfl⟩ := List.mem_map.1 hmem
    exact (hslot slot hslotMem).1) htaken
  have hcompletes : schema.Completes (fieldsOf toMembers record) again :=
    ⟨Path.root, hagain Path.root⟩
  refine ⟨again, hagain, layout.ofMembers?_eq_some_iff.2 ⟨fun slot hmem ↦ ?_, ?_⟩⟩
  · rw [Value.lookup_toMembers]
    exact (hslot slot hmem).2
      (Schema.contributes_of_completes layout.distinctNames hcompletes (layout.field_mem hmem))
  · have hkeyed : Entries.DistinctKeys (fieldsOf toMembers record) := Entries.distinctKeys_ofList _
    have hagain' : schema.undeclared again = layout.extra record :=
      (Schema.undeclared_of_completes layout.distinctNames hkeyed hcompletes).trans
        (layout.undeclared_fieldsOf keyed h read)
    -- the undeclared part is in normal form already, so reading it again changes nothing
    have hsame : Entries.ofList (Value.ofMembers (Value.toMembers (layout.extra record))) =
        layout.extra record := by
      rw [layout.extra_eq_normalize keyed h read, Value.ofList_ofMembers_toMembers
        (Value.wellKeyed_normalizeFields (wellKeyed_undeclared keyed)),
        Value.normalizeFields_normalizeFields]
    rw [undeclared_toMembers, hagain', hsame]
    split
    · rfl
    · next hclosed => rw [hextra, if_neg hclosed]

end Layout

end AppManifest
