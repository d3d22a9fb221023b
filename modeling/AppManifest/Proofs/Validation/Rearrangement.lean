import AppManifest.Proofs.Validation.Grammar
import AppManifest.Proofs.Value.Rearrangement
/-!
# Validation does not depend on the order of keys

A value conforms to a shape exactly if its rearrangements do (`Shape.conforms_iff_of_rearranged`):
the rules of the grammar ask what stands under a key or for all entries of an object, and nowhere
for the place of an entry. So a schema accepts a field bag exactly if it accepts the bag in another
order (`Schema.exists_check_iff_of_rearranged`). Which violation is reported first does depend on
the order.
-/

namespace AppManifest

/-- A type expression stays one with its keys in another order. -/
theorem TypeExpr.Describes.rearranged {a : Value} (h : Describes a) :
    ∀ {b : Value}, a.Rearranged b → a.DistinctKeys → Describes b := by
  induction h with
  | name s => exact fun hab _ ↦ hab.eq rfl rfl ▸ .name s
  | reference target => exact fun hab _ ↦ hab.eq rfl rfl ▸ .reference target
  | list _ ih =>
    intro b hab distinct
    obtain ⟨bs, rfl, hbs⟩ := hab.of_list
    cases hbs with
    | cons hitem hrest =>
      cases hrest
      exact .list (ih hitem distinct.1)
  | object _ ih =>
    intro b hab distinct
    obtain ⟨bs, rfl, hbs⟩ := hab.of_object
    refine .object fun entry hmem ↦ ?_
    obtain ⟨a, ha, hab, hdistinct⟩ := hbs.exists_mem distinct hmem
    exact ih _ ha hab hdistinct

namespace Shape

variable {shape : Shape} {a b : Value}

/-- A value that conforms does so with its keys in another order. -/
theorem Conforms.rearranged (h : shape.Conforms a) :
    ∀ {b : Value}, a.Rearranged b → a.DistinctKeys → shape.Conforms b := by
  induction h with
  | any _ => exact fun _ _ ↦ .any _
  | string s => exact fun hab _ ↦ hab.eq rfl rfl ▸ .string s
  | bool x => exact fun hab _ ↦ hab.eq rfl rfl ▸ .bool x
  | int nonneg => exact fun hab _ ↦ hab.eq rfl rfl ▸ .int nonneg
  | float nonneg => exact fun hab _ ↦ hab.eq rfl rfl ▸ .float nonneg
  | integer nonneg le => exact fun hab _ ↦ hab.eq rfl rfl ▸ .integer nonneg le
  | reference hint => exact fun hab _ ↦ hab.eq rfl rfl ▸ .reference hint
  | list _ ih =>
    intro b hab distinct
    obtain ⟨bs, rfl, hbs⟩ := hab.of_list
    refine .list fun item hmem ↦ ?_
    obtain ⟨a, ha, hab⟩ := exists_mem_of_forall₂ hbs hmem
    exact ih a ha hab (Value.itemsDistinct_iff.1 distinct a ha)
  | map _ ih =>
    intro b hab distinct
    obtain ⟨bs, rfl, hbs⟩ := hab.of_object
    refine .map fun entry hmem ↦ ?_
    obtain ⟨a, ha, hab, hdistinct⟩ := hbs.exists_mem distinct hmem
    exact ih _ ha hab hdistinct
  | structType each =>
    intro b hab distinct
    obtain ⟨bs, rfl, hbs⟩ := hab.of_object
    refine .structType fun entry hmem ↦ ?_
    obtain ⟨a, ha, hab, hdistinct⟩ := hbs.exists_mem distinct hmem
    exact (each _ ha).rearranged hab hdistinct
  | @object schema raw given required closed ih =>
    intro b hab distinct
    obtain ⟨bs, rfl, hbs⟩ := hab.of_object
    have hnull {a b : Value} (h : a.Rearranged b) (ha : a ≠ .null) : b ≠ .null := by
      rintro rfl
      exact ha (h.symm.eq rfl rfl)
    refine .object (fun field hmem value hget hne ↦ ?_) (fun field hmem presence ↦ ?_)
      fun hclosed key hmem ↦ closed hclosed key (hbs.keys.mem_iff.2 hmem)
    · obtain ⟨a, ha, hab⟩ := hbs.flip.exists_get? hget
      exact ih field hmem a ha (hnull hab.symm hne) hab (Fields.WellKeyed.get? distinct ha)
    · obtain ⟨a, ha, hne⟩ := required field hmem presence
      obtain ⟨b, hb, hab⟩ := hbs.exists_get? ha
      exact ⟨b, hb, hnull hab hne⟩

/-- **A value conforms exactly if it does with its keys in another order.** The rules look declared
fields up under their names, and ask of the other keys only whether there may be any. -/
theorem conforms_iff_of_rearranged (h : a.Rearranged b) (distinct : a.DistinctKeys) :
    shape.Conforms a ↔ shape.Conforms b :=
  ⟨fun ha ↦ ha.rearranged h distinct,
    fun hb ↦ hb.rearranged h.symm (h.distinctKeys distinct)⟩

end Shape

/-- **A schema accepts a bag exactly if it accepts it with its keys in another order.** The
violation that is reported may be another one. -/
theorem Schema.exists_check_iff_of_rearranged {schema : Schema} {as bs : Fields} {p q : Path}
    (h : Fields.Rearranged as bs) (keyed : as.WellKeyed) :
    (∃ found, schema.check as p = .ok found) ↔ ∃ found, schema.check bs q = .ok found := by
  rw [Schema.check, Schema.check, Shape.exists_checkSchema_iff, Shape.exists_checkSchema_iff]
  exact Shape.conforms_iff_of_rearranged (.object h.keys h.each) keyed

end AppManifest
