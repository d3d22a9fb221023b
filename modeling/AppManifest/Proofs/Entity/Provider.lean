import AppManifest.Proofs.Entity.Canonical
/-!
# The layout of providers

Providers are the one kind whose schema is open: what it does not declare is what the record keeps
beside its shared settings (`undeclared_eq`). The overrides for operations have arbitrary keys, so
that slot settles only where the overrides are not written like a reference.
-/

namespace AppManifest

open Slot Shape

namespace Deployment

def slots : List (Slot Deployment) :=
  [.optional "runtimeClass" .string (·.runtimeClass) Json.string? .string,
    .optional "startMode" .string (·.startMode) Json.string? .string]

def layout : Layout Schema.deployment ofMembers? toMembers :=
  .ofClosed rfl slots rfl (by decide)
    (by
      intro members h
      simp only [slots, List.forall_mem_cons] at h
      obtain ⟨hclass, hmode, -⟩ := h
      rw [ofMembers?, optional_eq, optional_eq]
      exact isSome_bind_of hclass fun _ ↦ isSome_bind_of hmode fun _ ↦ rfl)
    (by
      rintro members ⟨_, _⟩
      simp [ofMembers?, slots, optional_eq, Slot.optional, Field.optional, Option.bind_eq_some_iff])
    (fun record ↦ by simp [toMembers, slots, membersOf_optional])

theorem decodes_slots : ∀ slot ∈ slots, slot.Decodes := by
  simp only [slots, List.forall_mem_cons]
  exact ⟨decodes_optional fun _ _ h _ ↦ decodes_string h,
    decodes_optional fun _ _ h _ ↦ decodes_string h,
    List.forall_mem_nil _⟩

/-- Deployment settings settle: all they have are strings. -/
theorem settles_slots (deployment : Deployment) :
    ∀ slot ∈ slots, slot.Settles (slot.get deployment) := by
  simp only [slots, List.forall_mem_cons]
  exact ⟨settles_optional fun _ _ ↦ settles_string _, settles_optional fun _ _ ↦ settles_string _,
    List.forall_mem_nil _⟩

theorem canonizes_slots : ∀ slot ∈ slots, slot.Canonizes := by
  simp only [slots, List.forall_mem_cons]
  exact ⟨canonizes_optional canonizes_string, canonizes_optional canonizes_string,
    List.forall_mem_nil _⟩

end Deployment

namespace RedisLocation

def slots : List (Slot RedisLocation) :=
  [.optional "host" .string (·.host) Json.string? .string,
    .optional "port" (.integer 65535) (·.port)
      (fun value ↦ (value.natBelow? UInt16.size).map UInt16.ofNat) fun n ↦ .int n.toNat]

def layout : Layout Schema.redisLocation ofMembers? toMembers :=
  .ofClosed rfl slots rfl (by decide)
    (by
      intro members h
      simp only [slots, List.forall_mem_cons] at h
      obtain ⟨hhost, hport, -⟩ := h
      rw [ofMembers?, optional_eq, optional_eq]
      exact isSome_bind_of hhost fun _ ↦ isSome_bind_of hport fun _ ↦ rfl)
    (by
      rintro members ⟨_, _⟩
      simp [ofMembers?, slots, optional_eq, Slot.optional, Field.optional, Option.bind_eq_some_iff])
    (fun record ↦ by simp [toMembers, slots, membersOf_optional])

/-- The place of a key-value store is read from every bag that passes its schema; a port fits 16
bits. -/
theorem decodes_slots : ∀ slot ∈ slots, slot.Decodes := by
  simp only [slots, List.forall_mem_cons]
  exact ⟨decodes_optional fun _ _ h _ ↦ decodes_string h,
    decodes_optional fun _ _ h _ ↦ decodes_integer (by decide) h,
    List.forall_mem_nil _⟩

theorem settles_slots (location : RedisLocation) :
    ∀ slot ∈ slots, slot.Settles (slot.get location) := by
  simp only [slots, List.forall_mem_cons]
  exact ⟨settles_optional fun _ _ ↦ settles_string _,
    settles_optional fun _ _ ↦ settles_integer (by decide) UInt16.toNat_ofNat_of_lt' _,
    List.forall_mem_nil _⟩

theorem canonizes_slots : ∀ slot ∈ slots, slot.Canonizes := by
  simp only [slots, List.forall_mem_cons]
  exact ⟨canonizes_optional canonizes_string,
    canonizes_optional (canonizes_integer (by decide) UInt16.toNat_ofNat_of_lt'),
    List.forall_mem_nil _⟩

end RedisLocation

namespace Provider

/-- The members that overrides are written as. -/
def invokeMembers (overrides : Entries String) : Json.Members :=
  overrides.map fun entry ↦ (entry.1, .string entry.2)

/-- The slot of the overrides, whose keys are arbitrary. -/
def invokeSlot : Slot Provider :=
  .optional "invoke" (.map .string) (·.invoke) (Json.mapOf? Json.string?)
    fun overrides ↦ .object (invokeMembers overrides)

def slots : List (Slot Provider) :=
  [.required "kind" .string (·.kind) Json.string? .string,
    .optional "bucket" .string (·.bucket) Json.string? .string,
    .optional "region" .string (·.region) Json.string? .string,
    .optional "deployment" (.object Schema.deployment) (·.deployment)
      (fun value ↦ value.members? >>= Deployment.ofMembers?) fun d ↦ .object d.toMembers,
    invokeSlot,
    .optional "registry" .string (·.registry) Json.string? .string,
    .optional "redis" (.object Schema.redisLocation) (·.redis)
      (fun value ↦ value.members? >>= RedisLocation.ofMembers?) fun r ↦ .object r.toMembers]

/-- **What the schema does not declare is what the record keeps beside the shared settings.** The
schema and the reader each have a list of the shared names, and the two are the same. -/
theorem undeclared_eq (members : Json.Members) :
    Schema.provider.undeclared members =
      members.filter fun entry ↦ !sharedKeys.contains entry.1 := by
  refine List.filter_congr fun entry _ ↦ congrArg Bool.not (Bool.eq_iff_iff.2 ?_)
  rw [SchemaOf.declares_iff, List.contains_iff_mem]
  rfl

/-- **Providers agree with their schema**, their further settings included. -/
def layout : Layout Schema.provider ofMembers? toMembers where
  slots := slots
  extra := (·.extra)
  fields_eq := rfl
  distinctNames := by decide
  isSome_ofMembers? := by
    intro members h
    simp only [slots, List.forall_mem_cons] at h
    obtain ⟨hkind, hbucket, hregion, hdeployment, hinvoke, hregistry, hredis, -⟩ := h
    exact isSome_bind_of hkind fun _ ↦ isSome_bind_of hbucket fun _ ↦
      isSome_bind_of hregion fun _ ↦ isSome_bind_of hdeployment fun _ ↦
      isSome_bind_of hinvoke fun _ ↦ isSome_bind_of hregistry fun _ ↦
      isSome_bind_of hredis fun _ ↦ rfl
  ofMembers?_eq_some_iff := by
    rintro members ⟨_, _, _, _, _, _, _, extra⟩
    rw [show Schema.provider.isOpen = true from rfl, if_pos rfl, undeclared_eq,
      eq_comm (a := extra)]
    simp [ofMembers?, slots, invokeSlot, required_eq, optional_eq, Slot.required, Slot.optional,
      Field.required, Field.optional, Option.bind_eq_some_iff, and_assoc]
  toMembers_eq record := by
    simp [toMembers, slots, invokeSlot, invokeMembers, membersOf_required, membersOf_optional]

/-- The shared settings of a provider are read from every bag that passes the schema. -/
theorem decodes_slots : ∀ slot ∈ slots, slot.Decodes := by
  simp only [slots, List.forall_mem_cons]
  exact ⟨decodes_required decodes_string,
    decodes_optional fun _ _ h _ ↦ decodes_string h,
    decodes_optional fun _ _ h _ ↦ decodes_string h,
    decodes_optional fun _ _ h _ ↦ decodes_object Deployment.layout Deployment.decodes_slots h,
    decodes_optional fun _ _ h _ ↦ decodes_map_string h,
    decodes_optional fun _ _ h _ ↦ decodes_string h,
    decodes_optional fun _ _ h _ ↦
      decodes_object RedisLocation.layout RedisLocation.decodes_slots h,
    List.forall_mem_nil _⟩

/-- The shared settings of a provider settle if its overrides are not written like a reference. All
other slots settle whatever is in them. -/
theorem settles_slots {provider : Provider}
    (hinvoke : ∀ overrides ∈ provider.invoke,
      BlockRef.ofMembers? (invokeMembers overrides) = none) :
    ∀ slot ∈ slots, slot.Settles (slot.get provider) := by
  simp only [slots, List.forall_mem_cons]
  exact ⟨settles_required rfl (settles_string _),
    settles_optional fun _ _ ↦ settles_string _,
    settles_optional fun _ _ ↦ settles_string _,
    settles_optional fun d _ ↦ settles_object Deployment.layout rfl (by decide) d.settles_slots,
    settles_optional fun overrides hmem ↦ writesNormal_map_string.settles fun members heq ↦ by
      obtain rfl := Json.object.inj heq
      exact hinvoke overrides hmem,
    settles_optional fun _ _ ↦ settles_string _,
    settles_optional fun r _ ↦
      settles_object RedisLocation.layout rfl (by decide) r.settles_slots,
    List.forall_mem_nil _⟩

/-- The shared settings of a provider are written as their canonical form. -/
theorem canonizes_slots : ∀ slot ∈ slots, slot.Canonizes := by
  have hdeployment := canonizes_object Deployment.layout rfl (by decide) Deployment.canonizes_slots
  have hredis :=
    canonizes_object RedisLocation.layout rfl (by decide) RedisLocation.canonizes_slots
  simp only [slots, List.forall_mem_cons]
  exact ⟨canonizes_required rfl canonizes_string,
    canonizes_optional canonizes_string,
    canonizes_optional canonizes_string,
    canonizes_optional hdeployment,
    canonizes_optional (writesNormal_map_string.canonizes fun _ ↦ canonical_map),
    canonizes_optional canonizes_string,
    canonizes_optional hredis,
    List.forall_mem_nil _⟩

/-- **A provider that was read is the same as itself.** Free settings may be compared, since normal
forms have no NaN in them. -/
theorem same_self {raw found : Fields} {provider : Provider} (keyed : raw.WellKeyed)
    (h : Schema.provider.Completes raw found)
    (read : ofMembers? (Value.toMembers found) = some provider) :
    same provider provider = true := by
  have hmem : invokeSlot ∈ layout.slots := List.mem_of_getElem? (i := 4) rfl
  have hinvoke : sameOption sameOverrides provider.invoke provider.invoke = true :=
    sameOption_self (layout.of_yields keyed h read hmem (yields_optional yields_map_string))
  have hextra : Fields.same provider.extra provider.extra = true := by
    have heq : provider.extra = Value.normalizeFields (Schema.provider.undeclared raw) :=
      layout.extra_eq_normalize keyed h read
    rw [heq]
    exact Fields.same_normalizeFields (Layout.wellKeyed_undeclared keyed)
  simp [same, hinvoke, hextra]

end Provider

end AppManifest
