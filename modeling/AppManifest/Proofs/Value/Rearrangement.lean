import Mathlib.Data.List.Forall2
import Mathlib.Data.List.Perm.Subperm
import AppManifest.Proofs.Validation.Bag
import AppManifest.Proofs.Value.Plain
/-!
# Values with their keys in another order

Two values are rearrangements of each other if they differ in the order of keys only, in objects at
any depth (`Value.Rearranged`). An object and a permutation of its entries are the simplest case
(`Fields.rearranged_of_perm`).

Rearranged values have equal normal forms (`Value.Rearranged.same_normalize`). The place to look at
is the recognition of references: `Value.lookalike?` goes through the orders that the keys of a
reference may have, and `Value.lookalike?_eq_some_iff` says the same of what stands under the keys.
-/

namespace AppManifest

/-- Two values differ in the order of the keys of objects only. -/
inductive Value.Rearranged : Value → Value → Prop where
  | refl (value : Value) : Rearranged value value
  | list {as bs : List Value} (length : as.length = bs.length)
      (each : ∀ (i : Nat) (a b : Value), as[i]? = some a → bs[i]? = some b → Rearranged a b) :
      Rearranged (.list as) (.list bs)
  | object {as bs : Fields} (keys : (Entries.keys as).Perm (Entries.keys bs))
      (each : ∀ (key : String) (a b : Value), Entries.get? as key = some a →
        Entries.get? bs key = some b → Rearranged a b) :
      Rearranged (.object as) (.object bs)

/-- Two field bags differ in the order of keys only, here and in the objects below. -/
def Fields.Rearranged : Fields → Fields → Prop := Entries.Rel Value.Rearranged

theorem Fields.Rearranged.refl (fields : Fields) : Fields.Rearranged fields fields := by
  refine ⟨List.Perm.refl _, fun key a b ha hb ↦ ?_⟩
  obtain rfl := Option.some.inj (ha.symm.trans hb)
  exact .refl a

/-- **A permutation of the entries of a bag is a rearrangement of it.** Here keys have to be
distinct, since otherwise another entry could come first under its key. -/
theorem Fields.rearranged_of_perm {as bs : Fields} (distinct : Entries.DistinctKeys as)
    (h : as.Perm bs) : Fields.Rearranged as bs :=
  (Fields.Rearranged.refl as).perm distinct h

namespace Value.Rearranged

/-- A rearrangement can be undone. So what is shown for one side below holds for the other. -/
theorem symm {a b : Value} (h : a.Rearranged b) : b.Rearranged a := by
  induction h with
  | refl value => exact .refl value
  | list length _ ih => exact .list length.symm fun i b a hb ha ↦ ih i a b ha hb
  | object keys _ ih => exact .object keys.symm fun key b a hb ha ↦ ih key a b ha hb

/-- Only lists and objects have other arrangements; a reference is no object here, whatever it is
written as. -/
theorem eq {a b : Value} (h : a.Rearranged b) (list : a.list? = none) (object : a.object? = none) :
    b = a := by
  cases h with
  | refl => rfl
  | list => exact absurd list (by simp [list?])
  | object => exact absurd object (by simp [object?])

/-- A rearrangement of a list is the list of rearrangements of its elements, which keep their order.
-/
theorem of_list {as : List Value} {b : Value} (h : (Value.list as).Rearranged b) :
    ∃ bs, b = .list bs ∧ List.Forall₂ Rearranged as bs := by
  cases h with
  | refl => exact ⟨as, rfl, List.forall₂_same.2 fun a _ ↦ .refl a⟩
  | @list _ bs length each =>
    exact ⟨bs, rfl, List.forall₂_iff_get.2 ⟨length, fun i ha hb ↦
      each i _ _ (List.getElem?_eq_getElem ha) (List.getElem?_eq_getElem hb)⟩⟩

theorem of_object {as : Fields} {b : Value} (h : (Value.object as).Rearranged b) :
    ∃ bs, b = .object bs ∧ Fields.Rearranged as bs := by
  cases h with
  | refl => exact ⟨as, rfl, .refl as⟩
  | @object _ bs keys each => exact ⟨bs, rfl, keys, each⟩

theorem distinctKeys {a b : Value} (h : a.Rearranged b) : a.DistinctKeys → b.DistinctKeys := by
  induction h with
  | refl value => exact id
  | @list as bs length _ ih =>
    intro distinct
    refine Value.itemsDistinct_iff.2 fun item hmem ↦ ?_
    obtain ⟨i, hi⟩ := List.mem_iff_getElem?.1 hmem
    obtain ⟨hlt, -⟩ := List.getElem?_eq_some_iff.1 hi
    have hlt : i < as.length := length ▸ hlt
    refine ih i as[i] item (List.getElem?_eq_getElem hlt) hi ?_
    exact Value.itemsDistinct_iff.1 distinct _ (List.getElem_mem hlt)
  | @object as bs keys each ih =>
    intro distinct
    have hrel : Fields.Rearranged as bs := ⟨keys, each⟩
    obtain ⟨hkeys, hvalues⟩ := Value.distinctKeys_object_iff.1 distinct
    have hbs : Entries.DistinctKeys bs := hrel.distinctKeys hkeys
    refine Value.distinctKeys_object_iff.2 ⟨hbs, fun entry hmem ↦ ?_⟩
    obtain ⟨a, ha, -⟩ := hrel.exists_of_mem hkeys hmem
    exact ih entry.1 a entry.2 ha (Entries.get?_eq_some_of_mem hbs hmem)
      (hvalues _ (Entries.mem_of_get?_eq_some ha))

end Value.Rearranged

namespace Fields.Rearranged

variable {as bs : Fields}

theorem wellKeyed (h : Fields.Rearranged as bs) (keyed : as.WellKeyed) : Fields.WellKeyed bs :=
  (Value.Rearranged.object h.keys h.each).distinctKeys keyed

/-- Every entry of the second bag has its counterpart in the first. -/
theorem exists_mem (h : Fields.Rearranged as bs) (keyed : as.WellKeyed) {entry : String × Value}
    (hmem : entry ∈ bs) :
    ∃ a, (entry.1, a) ∈ as ∧ a.Rearranged entry.2 ∧ a.DistinctKeys := by
  obtain ⟨a, ha, hab⟩ := h.exists_of_mem keyed.1 hmem
  exact ⟨a, Entries.mem_of_get?_eq_some ha, hab, keyed.get? ha⟩

/-- A field is present in both bags or in neither, in rearranged form. It is how the check of a
schema reads a bag, so everything on checks goes through this. -/
theorem rel_present? (h : Fields.Rearranged as bs) (keyed : as.WellKeyed) (name : String) :
    Option.Rel (fun v w ↦ v.Rearranged w ∧ v.DistinctKeys)
      (present? as name) (present? bs name) := by
  have hdistinct (v : Value) (hv : Entries.get? as name = some v) : v.DistinctKeys := keyed.get? hv
  rw [present?, present?]
  generalize Entries.get? as name = v?, Entries.get? bs name = w?, h.rel_get? name = hvw
    at hdistinct
  cases hvw with
  | none => exact .none
  | @some v w hvw =>
    have hkeyed := hdistinct v rfl
    -- only a value that is itself on both sides can be `null`
    cases hvw with
    | refl =>
      cases v with
      | null => exact .none
      | _ => exact .some ⟨.refl _, hkeyed⟩
    | list length each => exact .some ⟨.list length each, hkeyed⟩
    | object keys each => exact .some ⟨.object keys each, hkeyed⟩

/-- The undeclared entries of a rearrangement are those of the bag, rearranged. -/
theorem undeclared (h : Fields.Rearranged as bs) (schema : Schema) :
    Fields.Rearranged (schema.undeclared as) (schema.undeclared bs) := by
  have hkeys (entries : Fields) : Entries.keys (schema.undeclared entries) =
      (Entries.keys entries).filter fun key ↦ !schema.declares key := by
    rw [SchemaOf.undeclared, Entries.keys, Entries.keys, List.filter_map]
    rfl
  refine ⟨by rw [hkeys, hkeys]; exact h.keys.filter _, fun key a b ha hb ↦ ?_⟩
  rw [SchemaOf.get?_undeclared] at ha hb
  split at ha
  · exact absurd ha (by simp)
  · next hdeclares =>
    rw [if_neg hdeclares] at hb
    exact h.each key a b ha hb

end Fields.Rearranged

namespace Value

/-! ### References, whatever the order of their keys -/

/-- **Fields look like a reference where the right values stand under its keys** and there are no
other keys. The right side does not mention their order, which is why it does not matter. -/
theorem lookalike?_eq_some_iff {fields : Fields} (distinct : Entries.DistinctKeys fields)
    {target : BlockRef} :
    lookalike? fields = some target ↔
      Entries.get? fields "$ref" = some (.string target.name) ∧
        (∀ key ∈ Entries.keys fields, key = "$ref" ∨ key = "$kind") ∧
        (Entries.get? fields "$kind").elim (some none) hint? = some target.kind := by
  obtain ⟨name, kind⟩ := target
  match fields with
  | [] => simp [lookalike?, Entries.get?]
  | [(key, value)] =>
    constructor
    · intro h
      unfold lookalike? at h
      split at h <;> simp_all [Entries.get?]
    · rintro ⟨hname, hkeys, hkind⟩
      by_cases hkey : key = "$ref"
      · subst hkey
        obtain rfl : value = .string name := by simpa [Entries.get?] using hname
        obtain rfl : none = kind := by simpa [Entries.get?] using hkind
        rfl
      · simp [Entries.get?, hkey] at hname
  | [(key, value), (key', value')] =>
    constructor
    · intro h
      unfold lookalike? at h
      split at h <;> simp_all [Entries.get?]
    · rintro ⟨hname, hkeys, hkind⟩
      have hne : key ≠ key' := by simpa [Entries.DistinctKeys] using distinct
      rcases hkeys key (by simp) with rfl | rfl <;> rcases hkeys key' (by simp) with rfl | rfl
      · exact absurd rfl hne
      · obtain rfl : value = .string name := by simpa [Entries.get?] using hname
        have hhint : hint? value' = some kind := by simpa [Entries.get?] using hkind
        rw [lookalike?, hhint, Option.map_some]
      · obtain rfl : value' = .string name := by simpa [Entries.get?] using hname
        have hhint : hint? value = some kind := by simpa [Entries.get?] using hkind
        rw [lookalike?, hhint, Option.map_some]
      · exact absurd rfl hne
  | first :: second :: third :: rest =>
    refine iff_of_false (by simp [lookalike?]) ?_
    rintro ⟨-, hkeys, -⟩
    -- more than two different keys are not all among two
    have hsubset : Entries.keys (first :: second :: third :: rest) ⊆ ["$ref", "$kind"] :=
      fun key hmem ↦ by simpa using hkeys key hmem
    have hlength := (List.subperm_of_subset distinct hsubset).length_le
    simp [Entries.keys] at hlength

theorem eq_string_iff_of_same {a b : Value} (h : same a b = true) (s : String) :
    a = .string s ↔ b = .string s := by
  cases a <;> cases b <;> simp_all [same]

theorem hint?_eq_of_same {a b : Value} (h : same a b = true) : hint? a = hint? b := by
  cases a <;> cases b <;> simp_all [same, hint?]

/-- Fields with equal values under the same keys look like the same reference. Equal is meant in the
sense of `Value.same`, where floats are compared as numbers. -/
theorem lookalike?_eq_of_rel {as bs : Fields} (distinct : Entries.DistinctKeys as)
    (h : Entries.Rel (fun a b ↦ same a b = true) as bs) : lookalike? as = lookalike? bs := by
  have hname (name : String) : Entries.get? as "$ref" = some (.string name) ↔
      Entries.get? bs "$ref" = some (.string name) := by
    generalize Entries.get? as "$ref" = a?, Entries.get? bs "$ref" = b?, h.rel_get? "$ref" = hab
    cases hab with
    | none => rfl
    | some hab => rw [Option.some.injEq, Option.some.injEq, eq_string_iff_of_same hab]
  have hkind : (Entries.get? as "$kind").elim (some none) hint? =
      (Entries.get? bs "$kind").elim (some none) hint? := by
    generalize Entries.get? as "$kind" = a?, Entries.get? bs "$kind" = b?, h.rel_get? "$kind" = hab
    cases hab with
    | none => rfl
    | some hab => exact hint?_eq_of_same hab
  refine Option.ext fun target ↦ ?_
  rw [lookalike?_eq_some_iff distinct, lookalike?_eq_some_iff (h.distinctKeys distinct), hname,
    hkind]
  simp only [h.keys.mem_iff]

/-! ### Equal normal forms -/

theorem sameItems_of_forall₂ {as bs : List Value}
    (h : List.Forall₂ (fun a b ↦ same a b = true) as bs) : sameItems as bs = true := by
  induction h with
  | nil => rfl
  | cons hab _ ih => rw [sameItems, hab, ih, Bool.and_self]

/-- The comparison of bags goes over the entries of the first and looks each of them up in the
second. -/
theorem sameUnderKeys_of_forall {as bs : Fields}
    (h : ∀ entry ∈ as, ∃ b, Entries.get? bs entry.1 = some b ∧ same entry.2 b = true) :
    sameUnderKeys as bs = true := by
  induction as with
  | nil => rfl
  | cons entry rest ih =>
    obtain ⟨b, hb, hsame⟩ := h entry List.mem_cons_self
    rw [sameUnderKeys, hb, ih fun entry hmem ↦ h entry (List.mem_cons_of_mem _ hmem)]
    exact (Bool.and_true _).trans hsame

/-- Bags with equal values under the same keys are equal. That they have equally many entries, which
the comparison tests first, follows from the keys. -/
theorem same_fields_of_rel {as bs : Fields} (distinct : Entries.DistinctKeys as)
    (h : Entries.Rel (fun a b ↦ same a b = true) as bs) : Fields.same as bs = true := by
  rw [Fields.same, h.length_eq, beq_self_eq_true, Bool.true_and]
  exact sameUnderKeys_of_forall fun entry hmem ↦
    h.exists_get? (Entries.get?_eq_some_of_mem distinct hmem)

theorem normalizeItems_eq_map (items : List Value) :
    normalizeItems items = items.map normalize := by
  induction items with
  | nil => rfl
  | cons item rest ih => rw [normalizeItems, ih, List.map_cons]

/-- Bags whose values have equal normal forms have equal normal forms under the same keys. -/
theorem rel_normalizeFields {as bs : Fields}
    (h : Entries.Rel (fun a b ↦ same a.normalize b.normalize = true) as bs) :
    Entries.Rel (fun a b ↦ same a b = true) (normalizeFields as) (normalizeFields bs) := by
  rw [normalizeFields_eq_map, normalizeFields_eq_map]
  exact Entries.Rel.map_iff.2 h

/-- **Values that differ in the order of keys have equal normal forms.** They are compared by
`Value.same`, since a normal form keeps the order of its keys. -/
theorem Rearranged.same_normalize {a b : Value} (h : a.Rearranged b) :
    a.DistinctKeys → Value.same a.normalize b.normalize = true := by
  induction h with
  | refl value =>
    exact fun distinct ↦ same_self (distinctKeys_normalize distinct) (normalize_normalize value)
  | @list as bs length each ih =>
    intro distinct
    rw [normalize, normalize, Value.same, normalizeItems_eq_map, normalizeItems_eq_map]
    refine sameItems_of_forall₂ (List.forall₂_map_left_iff.2 (List.forall₂_map_right_iff.2 ?_))
    refine List.forall₂_iff_get.2 ⟨length, fun i ha hb ↦ ?_⟩
    exact ih i _ _ (List.getElem?_eq_getElem ha) (List.getElem?_eq_getElem hb)
      (itemsDistinct_iff.1 distinct _ (List.getElem_mem ha))
  | @object as bs keys each ih =>
    intro distinct
    obtain ⟨hkeys, hvalues⟩ := distinctKeys_object_iff.1 distinct
    have hrel := rel_normalizeFields ⟨keys, fun key a b ha hb ↦
      ih key a b ha hb (hvalues _ (Entries.mem_of_get?_eq_some ha))⟩
    have hnormal := distinctKeys_normalizeFields hkeys
    -- both sides look like the same reference, or neither does
    rw [normalize, normalize, ← lookalike?_eq_of_rel hnormal hrel]
    cases lookalike? (normalizeFields as) with
    | some target => exact beq_self_eq_true target
    | none => exact same_fields_of_rel hnormal hrel

end Value

namespace Fields.Rearranged

variable {as bs : Fields}

/-- Bags that differ in the order of keys have equal normal forms under the same keys. -/
theorem rel_normalizeFields (h : Fields.Rearranged as bs) (keyed : as.WellKeyed) :
    Entries.Rel (fun a b ↦ Value.same a b = true) (Value.normalizeFields as)
      (Value.normalizeFields bs) :=
  Value.rel_normalizeFields ⟨h.keys, fun key a b ha hb ↦
    (h.each key a b ha hb).same_normalize (keyed.get? ha)⟩

/-- Bags that differ in the order of keys look like the same reference once they are normal. -/
theorem lookalike?_eq (h : Fields.Rearranged as bs) (keyed : as.WellKeyed) :
    Value.lookalike? (Value.normalizeFields as) = Value.lookalike? (Value.normalizeFields bs) :=
  Value.lookalike?_eq_of_rel (Value.distinctKeys_normalizeFields keyed.1)
    (h.rel_normalizeFields keyed)

/-- Bags that differ in the order of keys have equal normal forms. -/
theorem same_normalizeFields (h : Fields.Rearranged as bs) (keyed : as.WellKeyed) :
    Fields.same (Value.normalizeFields as) (Value.normalizeFields bs) = true :=
  Value.same_fields_of_rel (Value.distinctKeys_normalizeFields keyed.1)
    (h.rel_normalizeFields keyed)

end Fields.Rearranged

end AppManifest
