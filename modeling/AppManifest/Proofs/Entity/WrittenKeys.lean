import AppManifest.Proofs.Entity.Application
import AppManifest.Proofs.Entity.Function
import AppManifest.Proofs.Entity.Provider
import AppManifest.Proofs.Json.DistinctKeys
/-!
# Records are written without repeated keys

The names of slots are distinct, and what a record of an open schema keeps beside them stands under
other names (`Layout.distinctKeys_toMembers`). So the JSON form of a record repeats no key at any
depth if what its slots write does not. For most records this holds of all of them; a provider is
asked for overrides and further settings without repeated keys, an application for options and
samples without.
-/

namespace AppManifest

namespace Slot

variable {ρ α : Type} {name : String} {shape : Shape} {read? : Json → Option α} {write : α → Json}
  {record : ρ}

/-- What a slot writes for its part of a record repeats no key. -/
def Distinct (slot : Slot ρ) (record : ρ) : Prop :=
  ∀ value ∈ slot.write (slot.get record), value.DistinctKeys

/-- A required part is written without repeated keys if its JSON form has none. -/
theorem distinct_required {get : ρ → α} (h : (write (get record)).DistinctKeys) :
    (required name shape get read? write).Distinct record :=
  fun _ hvalue ↦ Option.some.inj hvalue ▸ h

theorem distinct_withDefault {value : Value} {default : α} {get : ρ → α}
    (h : (write (get record)).DistinctKeys) :
    (withDefault name shape value get default read? write).Distinct record :=
  fun _ hvalue ↦ Option.some.inj hvalue ▸ h

/-- An optional part that is absent is not written, so only one that is there is asked for. -/
theorem distinct_optional {get : ρ → Option α} (h : ∀ a ∈ get record, (write a).DistinctKeys) :
    (optional name shape get read? write).Distinct record := by
  intro value hvalue
  obtain ⟨a, ha, rfl⟩ := Option.map_eq_some_iff.1 hvalue
  exact h a ha

end Slot

namespace Layout

variable {schema : Schema} {ρ : Type} {ofMembers? : Json.Members → Option ρ}
  {toMembers : ρ → Json.Members} {record : ρ}

/-- **A record is written without repeated keys**, if its parts are and what stands beside them has
other names. -/
theorem distinctKeys_toMembers (layout : Layout schema ofMembers? toMembers)
    (slots : ∀ slot ∈ layout.slots, slot.Distinct record)
    (keyed : Fields.WellKeyed (layout.extra record))
    (undeclared : ∀ key ∈ Entries.keys (layout.extra record), schema.declares key = false) :
    (Json.object (toMembers record)).DistinctKeys := by
  refine Json.distinctKeys_object_iff.2
    ⟨layout.distinctKeys_of_extra keyed.1 undeclared, fun member hmem ↦ ?_⟩
  rw [layout.toMembers_eq] at hmem
  rcases List.mem_append.1 hmem with hmem | hmem
  · obtain ⟨slot, hslot, hmem⟩ := List.mem_flatMap.1 hmem
    rw [Slot.membersOf] at hmem
    cases hwrite : slot.write (slot.get record) with
    | none => exact absurd hmem (by simp [hwrite, Json.Members.given])
    | some value =>
      obtain rfl : member = (slot.field.name, value) := by
        simpa [hwrite, Json.Members.given] using hmem
      exact slots slot hslot value hwrite
  · rw [Value.toMembers_eq_map] at hmem
    obtain ⟨entry, hentry, rfl⟩ := List.mem_map.1 hmem
    exact Value.distinctKeys_toJson ((Value.distinctKeys_object_iff.1 keyed).2 entry hentry)

/-- A record without an undeclared part is asked for its slots alone. -/
theorem distinctKeys_of_extra_eq_nil (layout : Layout schema ofMembers? toMembers)
    (hnone : layout.extra record = []) (slots : ∀ slot ∈ layout.slots, slot.Distinct record) :
    (Json.object (toMembers record)).DistinctKeys := by
  refine layout.distinctKeys_toMembers slots ?_ ?_
  · rw [hnone]
    exact ⟨List.nodup_nil, trivial⟩
  · rw [hnone]
    exact fun key hmem ↦ absurd hmem List.not_mem_nil

/-- A name that the schema does not declare is written for an undeclared field only. So whether a
provider is written with a second `name` depends on what it keeps beside its slots. -/
theorem mem_keys_toMembers_iff (layout : Layout schema ofMembers? toMembers) {name : String}
    (undeclared : schema.declares name = false) :
    name ∈ Entries.keys (toMembers record) ↔ name ∈ Entries.keys (layout.extra record) := by
  rw [layout.keys_toMembers, List.mem_append]
  refine or_iff_right fun hmem ↦ ?_
  rw [layout.declares_of_mem_keys hmem] at undeclared
  exact absurd undeclared (by decide)

end Layout

/-! ### The records -/

open Slot

theorem Reference.distinctKeys_toJson {kind : Kind} (reference : Reference kind) :
    reference.toJson.DistinctKeys := reference.toBlockRef.distinctKeys_toMembers

theorem Json.distinctKeys_array_map {α : Type} {write : α → Json} {as : List α}
    (h : ∀ a ∈ as, (write a).DistinctKeys) : (Json.array (as.map write)).DistinctKeys :=
  Json.itemsDistinct_iff.2 (List.forall_mem_map.2 h)

/-- Triggers, resources and the other parts below are written without repeated keys whatever is in
them: their slots write texts, numbers and references. -/
theorem Trigger.distinctKeys (trigger : Trigger) :
    (Json.object trigger.toMembers).DistinctKeys := by
  refine layout.distinctKeys_of_extra_eq_nil rfl ?_
  show ∀ slot ∈ slots, slot.Distinct trigger
  simp only [slots, List.forall_mem_cons]
  exact ⟨distinct_required trivial, distinct_required trivial, List.forall_mem_nil _⟩

theorem Resource.distinctKeys (resource : Resource) :
    (Json.object resource.toMembers).DistinctKeys := by
  refine layout.distinctKeys_of_extra_eq_nil rfl ?_
  show ∀ slot ∈ slots, slot.Distinct resource
  have hcpu (cpu : Binary64) : (cpuJson cpu).DistinctKeys := by
    rw [cpuJson]
    split <;> trivial
  simp only [slots, List.forall_mem_cons]
  exact ⟨distinct_optional fun cpu _ ↦ hcpu cpu, distinct_optional fun _ _ ↦ trivial,
    List.forall_mem_nil _⟩

theorem PubSub.distinctKeys (pubsub : PubSub) : (Json.object pubsub.toMembers).DistinctKeys := by
  refine layout.distinctKeys_of_extra_eq_nil rfl ?_
  show ∀ slot ∈ slots, slot.Distinct pubsub
  simp only [slots, List.forall_mem_cons]
  exact ⟨distinct_required (Json.distinctKeys_array_map fun r _ ↦ r.distinctKeys_toJson),
    List.forall_mem_nil _⟩

theorem Function.distinctKeys (function : Function) :
    (Json.object function.toMembers).DistinctKeys := by
  refine layout.distinctKeys_of_extra_eq_nil rfl ?_
  show ∀ slot ∈ slots, slot.Distinct function
  simp only [slots, List.forall_mem_cons]
  exact ⟨distinct_required trivial,
    distinct_optional fun _ _ ↦ trivial,
    distinct_optional fun _ _ ↦ trivial,
    distinct_withDefault trivial,
    distinct_optional fun _ _ ↦ trivial,
    distinct_optional fun _ _ ↦ trivial,
    distinct_optional fun r _ ↦ r.distinctKeys,
    distinct_withDefault (Json.distinctKeys_array_map fun t _ ↦ t.distinctKeys),
    distinct_optional fun p _ ↦ p.distinctKeys,
    distinct_optional fun _ _ ↦ trivial,
    List.forall_mem_nil _⟩

theorem Workflow.distinctKeys (workflow : Workflow) :
    (Json.object workflow.toMembers).DistinctKeys := by
  refine layout.distinctKeys_of_extra_eq_nil rfl ?_
  show ∀ slot ∈ slots, slot.Distinct workflow
  simp only [slots, List.forall_mem_cons]
  exact ⟨distinct_required (Json.distinctKeys_array_map fun r _ ↦ r.distinctKeys_toJson),
    distinct_required trivial,
    distinct_optional fun _ _ ↦ trivial,
    distinct_optional fun _ _ ↦ trivial,
    distinct_required trivial,
    distinct_optional fun _ _ ↦ trivial,
    distinct_optional fun _ _ ↦ trivial,
    distinct_optional fun r _ ↦ r.distinctKeys,
    distinct_optional fun _ _ ↦ trivial,
    List.forall_mem_nil _⟩

theorem Deployment.distinctKeys (deployment : Deployment) :
    (Json.object deployment.toMembers).DistinctKeys := by
  refine layout.distinctKeys_of_extra_eq_nil rfl ?_
  show ∀ slot ∈ slots, slot.Distinct deployment
  simp only [slots, List.forall_mem_cons]
  exact ⟨distinct_optional fun _ _ ↦ trivial, distinct_optional fun _ _ ↦ trivial,
    List.forall_mem_nil _⟩

theorem RedisLocation.distinctKeys (location : RedisLocation) :
    (Json.object location.toMembers).DistinctKeys := by
  refine layout.distinctKeys_of_extra_eq_nil rfl ?_
  show ∀ slot ∈ slots, slot.Distinct location
  simp only [slots, List.forall_mem_cons]
  exact ⟨distinct_optional fun _ _ ↦ trivial, distinct_optional fun _ _ ↦ trivial,
    List.forall_mem_nil _⟩

/-- Overrides are written as strings under their own keys. -/
theorem Provider.distinctKeys_invokeMembers {overrides : Entries String}
    (h : overrides.DistinctKeys) : (Json.object (invokeMembers overrides)).DistinctKeys := by
  refine Json.distinctKeys_object_iff.2 ⟨?_, ?_⟩
  · simpa [Entries.DistinctKeys, Entries.keys, invokeMembers, Function.comp_def] using h
  · rw [invokeMembers]
    exact List.forall_mem_map.2 fun entry _ ↦ trivial

/-- A provider is written without repeated keys if its overrides and further settings have none and
no setting bears the name of a slot. All three hold of a provider that was read. -/
theorem Provider.distinctKeys {provider : Provider}
    (invoke : ∀ overrides ∈ provider.invoke, overrides.DistinctKeys)
    (keyed : Fields.WellKeyed provider.extra)
    (undeclared : ∀ key ∈ Entries.keys provider.extra, Schema.provider.declares key = false) :
    (Json.object provider.toMembers).DistinctKeys := by
  refine layout.distinctKeys_toMembers ?_ keyed undeclared
  show ∀ slot ∈ slots, slot.Distinct provider
  simp only [slots, List.forall_mem_cons]
  exact ⟨distinct_required trivial,
    distinct_optional fun _ _ ↦ trivial,
    distinct_optional fun _ _ ↦ trivial,
    distinct_optional fun d _ ↦ d.distinctKeys,
    distinct_optional fun overrides hmem ↦ distinctKeys_invokeMembers (invoke overrides hmem),
    distinct_optional fun _ _ ↦ trivial,
    distinct_optional fun r _ ↦ r.distinctKeys,
    List.forall_mem_nil _⟩

theorem InputExample.distinctKeys {sample : InputExample}
    (h : ∀ value ∈ sample.value, value.DistinctKeys) :
    (Json.object sample.toMembers).DistinctKeys := by
  refine layout.distinctKeys_of_extra_eq_nil rfl ?_
  show ∀ slot ∈ slots, slot.Distinct sample
  simp only [slots, List.forall_mem_cons]
  exact ⟨distinct_optional fun value hmem ↦ Value.distinctKeys_toJson (h value hmem),
    List.forall_mem_nil _⟩

end AppManifest
