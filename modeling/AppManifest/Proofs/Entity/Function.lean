import AppManifest.Proofs.Entity.Canonical
/-!
# Layouts of functions and workflows

The schemas of functions, workflows and what they contain, each with the reader and the writer of
its record. The widths agree by `max < size` alone: a number of megabytes goes up to the greatest
integer of a value and is kept in 64 bits, a number of copies fills its 32 bits.

No field of these records has arbitrary keys, so all of their slots settle. A record that was read
equals itself, since numbers of cores that are read are not NaN.
-/

namespace AppManifest

open Slot Shape

namespace Trigger

def slots : List (Slot Trigger) :=
  [.required "name" .string (·.name) Json.string? .string,
    .required "kind" .string (·.kind) Json.string? .string]

/-- **Triggers agree with their schema**, as blocks and as elements of a function. -/
def layout : Layout Schema.trigger ofMembers? toMembers :=
  .ofClosed rfl slots rfl (by decide)
    (by
      intro members h
      simp only [slots, List.forall_mem_cons] at h
      obtain ⟨hname, hkind, -⟩ := h
      exact isSome_bind_of hname fun _ ↦ isSome_bind_of hkind fun _ ↦ rfl)
    (by
      rintro members ⟨_, _⟩
      simp [ofMembers?, slots, required_eq, Slot.required, Field.required, Option.bind_eq_some_iff])
    (fun record ↦ by simp [toMembers, slots, membersOf_required])

theorem decodes_slots : ∀ slot ∈ slots, slot.Decodes := by
  simp only [slots, List.forall_mem_cons]
  exact ⟨decodes_required decodes_string, decodes_required decodes_string,
    List.forall_mem_nil _⟩

/-- A trigger that was read settles: all it has are strings. -/
theorem settles_slots (trigger : Trigger) : ∀ slot ∈ slots, slot.Settles (slot.get trigger) := by
  simp only [slots, List.forall_mem_cons]
  exact ⟨settles_required rfl (settles_string _), settles_required rfl (settles_string _),
    List.forall_mem_nil _⟩

/-- A trigger is written as its canonical form. -/
theorem canonizes_slots : ∀ slot ∈ slots, slot.Canonizes := by
  simp only [slots, List.forall_mem_cons]
  exact ⟨canonizes_required rfl canonizes_string, canonizes_required rfl canonizes_string,
    List.forall_mem_nil _⟩

end Trigger

namespace Resource

/-- The slot of the number of cores. -/
def cpuSlot : Slot Resource := .optional "cpu" .number (·.cpu) Json.number? cpuJson

def slots : List (Slot Resource) :=
  [cpuSlot,
    .optional "memory" .naturalNumber (·.memory)
      (fun value ↦ (value.natBelow? UInt64.size).map UInt64.ofNat) fun n ↦ .int n.toNat]

def layout : Layout Schema.resource ofMembers? toMembers :=
  .ofClosed rfl slots rfl (by decide)
    (by
      intro members h
      simp only [slots, List.forall_mem_cons] at h
      obtain ⟨hcpu, hmemory, -⟩ := h
      rw [ofMembers?, optional_eq, optional_eq]
      exact isSome_bind_of hcpu fun _ ↦ isSome_bind_of hmemory fun _ ↦ rfl)
    (by
      rintro members ⟨_, _⟩
      simp [ofMembers?, slots, cpuSlot, optional_eq, Slot.optional, Field.optional,
        Option.bind_eq_some_iff])
    (fun record ↦ by simp [toMembers, slots, cpuSlot, membersOf_optional])

/-- A resource is read from every bag that passes its schema. Infinities among the numbers of cores
are accepted there and are read as no number at all. -/
theorem decodes_slots : ∀ slot ∈ slots, slot.Decodes := by
  simp only [slots, List.forall_mem_cons]
  exact ⟨decodes_optional decodes_number,
    decodes_optional fun _ _ h _ ↦ decodes_integer (by decide) h,
    List.forall_mem_nil _⟩

/-- A resource that was read settles. The greatest number of megabytes is one below `2 ^ 63`, so it
fits both the value and the record. -/
theorem settles_slots (resource : Resource) : ∀ slot ∈ slots, slot.Settles (slot.get resource) := by
  simp only [slots, List.forall_mem_cons]
  exact ⟨settles_optional fun _ _ ↦ settles_number _,
    settles_optional fun _ _ ↦ settles_integer (by decide) UInt64.toNat_ofNat_of_lt' _,
    List.forall_mem_nil _⟩

/-- A resource is written as its canonical form, where the number of cores is a float. -/
theorem canonizes_slots : ∀ slot ∈ slots, slot.Canonizes := by
  simp only [slots, List.forall_mem_cons]
  exact ⟨canonizes_optional canonizes_number,
    canonizes_optional (canonizes_integer (by decide) UInt64.toNat_ofNat_of_lt'),
    List.forall_mem_nil _⟩

/-- A resource that was read is the same as itself, since its number of cores is finite; NaN would
not be. -/
theorem yields_same : (Shape.object Schema.resource).Yields
    (fun value ↦ value.members? >>= ofMembers?) fun r ↦ same r r = true := by
  have hcpu : cpuSlot ∈ layout.slots := List.mem_cons_self
  refine (yields_object layout hcpu (yields_optional yields_number)).mono fun r h ↦ ?_
  have hsame : sameOption Binary64.same r.cpu r.cpu = true :=
    sameOption_self fun x hx ↦ Binary64.same_self (h x hx).1
  simp [same, hsame]

end Resource

namespace PubSub

def slots : List (Slot PubSub) :=
  [.required "events" (.list (.reference .event)) (·.events)
    (Json.listOf? (Reference.ofJson? .event)) fun events ↦ .array (events.map Reference.toJson)]

def layout : Layout Schema.pubSub ofMembers? toMembers :=
  .ofClosed rfl slots rfl (by decide)
    (by
      intro members h
      simp only [slots, List.forall_mem_cons] at h
      obtain ⟨hevents, -⟩ := h
      exact isSome_bind_of hevents fun _ ↦ rfl)
    (by
      rintro members ⟨_⟩
      simp [ofMembers?, slots, required_eq, Slot.required, Field.required, Option.bind_eq_some_iff])
    (fun record ↦ by simp [toMembers, slots, membersOf_required])

/-- The events of a subscriber are read from every bag that passes their schema. -/
theorem decodes_slots : ∀ slot ∈ slots, slot.Decodes := by
  simp only [slots, List.forall_mem_cons]
  exact ⟨decodes_required (decodes_list (decodes_reference .event)),
    List.forall_mem_nil _⟩

/-- The events that were read settle, as references do. -/
theorem settles_slots (pubsub : PubSub) : ∀ slot ∈ slots, slot.Settles (slot.get pubsub) := by
  simp only [slots, List.forall_mem_cons]
  exact ⟨settles_required rfl (settles_list rfl settles_reference _),
    List.forall_mem_nil _⟩

theorem canonizes_slots : ∀ slot ∈ slots, slot.Canonizes := by
  simp only [slots, List.forall_mem_cons]
  exact ⟨canonizes_required rfl (canonizes_list rfl canonizes_reference), List.forall_mem_nil _⟩

end PubSub

/-! ### Functions and workflows -/

/-- A number of copies that passes fits 32 bits. -/
theorem decodes_replicas : Schema.replicas.Decodes replicas? := decodes_integer (by decide)

/-- A number of copies is written as it was found. -/
theorem settles_replicas (n : UInt32) :
    Schema.replicas.Settles replicas? (fun n ↦ .int n.toNat) n :=
  settles_integer (by decide) UInt32.toNat_ofNat_of_lt' n

/-- A number of copies is written as its canonical form, which for integers is the integer itself.
-/
theorem canonizes_replicas : Schema.replicas.Canonizes replicas? fun n ↦ .int n.toNat :=
  canonizes_integer (by decide) UInt32.toNat_ofNat_of_lt'

/-- A nested resource is written as its canonical form, by the slots of resources. -/
theorem canonizes_resource : (Shape.object Schema.resource).Canonizes
    (fun value ↦ value.members? >>= Resource.ofMembers?) fun r ↦ .object r.toMembers :=
  canonizes_object Resource.layout rfl (by decide) Resource.canonizes_slots

namespace Function

/-- The slot of the resources. -/
def resourceSlot : Slot Function :=
  .optional "resource" (.object Schema.resource) (·.resource)
    (fun value ↦ value.members? >>= Resource.ofMembers?) fun r ↦ .object r.toMembers

def slots : List (Slot Function) :=
  [.required "runtime" .string (·.runtime) Json.string? .string,
    .optional "image" .string (·.image) Json.string? .string,
    .optional "baseImage" .string (·.baseImage) Json.string? .string,
    .withDefault "codeDir" .string (.string "") (·.codeDir) "" Json.string? .string,
    .optional "handler" .string (·.handler) Json.string? .string,
    .optional "replicas" Schema.replicas (·.replicas) replicas? fun n ↦ .int n.toNat,
    resourceSlot,
    .withDefault "triggers" (.list (.object Schema.trigger)) (.list []) (·.triggers) []
      (Json.listOf? fun value ↦ value.members? >>= Trigger.ofMembers?)
      fun triggers ↦ .array (triggers.map fun t ↦ .object t.toMembers),
    .optional "pubsub" (.object Schema.pubSub) (·.pubsub)
      (fun value ↦ value.members? >>= PubSub.ofMembers?) fun p ↦ .object p.toMembers,
    .optional "role" .string (·.role) Json.string? .string]

/-- **Functions agree with their schema.** -/
def layout : Layout Schema.function ofMembers? toMembers :=
  .ofClosed rfl slots rfl (by decide)
    (by
      intro members h
      simp only [slots, List.forall_mem_cons] at h
      obtain ⟨hruntime, himage, hbase, hdir, hhandler, hreplicas, hresource, htriggers, hpubsub,
        hrole, -⟩ := h
      exact isSome_bind_of hruntime fun _ ↦ isSome_bind_of himage fun _ ↦
        isSome_bind_of hbase fun _ ↦ isSome_bind_of hdir fun _ ↦ isSome_bind_of hhandler fun _ ↦
        isSome_bind_of hreplicas fun _ ↦ isSome_bind_of hresource fun _ ↦
        isSome_bind_of htriggers fun _ ↦ isSome_bind_of hpubsub fun _ ↦
        isSome_bind_of hrole fun _ ↦ rfl)
    (by
      rintro members ⟨_, _, _, _, _, _, _, _, _, _⟩
      simp [ofMembers?, slots, resourceSlot, required_eq, optional_eq, withDefault_eq,
        Slot.required, Slot.optional, Slot.withDefault, Field.required, Field.optional,
        Option.bind_eq_some_iff])
    (fun record ↦ by
      simp [toMembers, slots, resourceSlot, membersOf_required, membersOf_optional,
        membersOf_withDefault])

theorem decodes_slots : ∀ slot ∈ slots, slot.Decodes := by
  simp only [slots, List.forall_mem_cons]
  exact ⟨decodes_required decodes_string,
    decodes_optional fun _ _ h _ ↦ decodes_string h,
    decodes_optional fun _ _ h _ ↦ decodes_string h,
    decodes_withDefault decodes_string (accepts_string _),
    decodes_optional fun _ _ h _ ↦ decodes_string h,
    decodes_optional fun _ _ h _ ↦ decodes_replicas h,
    decodes_optional fun _ _ h _ ↦ decodes_object Resource.layout Resource.decodes_slots h,
    decodes_withDefault (decodes_list (decodes_object Trigger.layout Trigger.decodes_slots))
      (accepts_list List.Forall₂.nil),
    decodes_optional fun _ _ h _ ↦ decodes_object PubSub.layout PubSub.decodes_slots h,
    decodes_optional fun _ _ h _ ↦ decodes_string h,
    List.forall_mem_nil _⟩

/-- A function that was read settles, with its resource and its triggers in it. -/
theorem settles_slots (function : Function) : ∀ slot ∈ slots, slot.Settles (slot.get function) := by
  have htrigger (trigger : Trigger) : (Shape.object Schema.trigger).Settles
      (fun value ↦ value.members? >>= Trigger.ofMembers?) (fun t ↦ .object t.toMembers) trigger :=
    settles_object Trigger.layout rfl (by decide) trigger.settles_slots
  simp only [slots, List.forall_mem_cons]
  exact ⟨settles_required rfl (settles_string _),
    settles_optional fun _ _ ↦ settles_string _,
    settles_optional fun _ _ ↦ settles_string _,
    settles_withDefault rfl (accepts_string _) trivial (settles_string _),
    settles_optional fun _ _ ↦ settles_string _,
    settles_optional fun _ _ ↦ settles_replicas _,
    settles_optional fun r _ ↦ settles_object Resource.layout rfl (by decide) r.settles_slots,
    settles_withDefault rfl (accepts_list List.Forall₂.nil) trivial (settles_list rfl htrigger _),
    settles_optional fun p _ ↦ settles_object PubSub.layout rfl (by decide) p.settles_slots,
    settles_optional fun _ _ ↦ settles_string _,
    List.forall_mem_nil _⟩

/-- A function is written as its canonical form. -/
theorem canonizes_slots : ∀ slot ∈ slots, slot.Canonizes := by
  have htrigger := canonizes_object Trigger.layout rfl (by decide) Trigger.canonizes_slots
  have hpubsub := canonizes_object PubSub.layout rfl (by decide) PubSub.canonizes_slots
  simp only [slots, List.forall_mem_cons]
  exact ⟨canonizes_required rfl canonizes_string,
    canonizes_optional canonizes_string,
    canonizes_optional canonizes_string,
    canonizes_withDefault rfl (accepts_string _) trivial canonizes_string,
    canonizes_optional canonizes_string,
    canonizes_optional canonizes_replicas,
    canonizes_optional canonizes_resource,
    canonizes_withDefault rfl (accepts_list List.Forall₂.nil) trivial
      (canonizes_list rfl htrigger),
    canonizes_optional hpubsub,
    canonizes_optional canonizes_string,
    List.forall_mem_nil _⟩

/-- **A function that was read is the same as itself.** The comparison is the one of records with
floats in them, and the only float of a function is in its resource. -/
theorem same_self {raw found : Fields} {function : Function} (keyed : raw.WellKeyed)
    (h : Schema.function.Completes raw found)
    (read : ofMembers? (Value.toMembers found) = some function) :
    same function function = true := by
  have hmem : resourceSlot ∈ layout.slots := List.mem_of_getElem? (i := 6) rfl
  have hyields : resourceSlot.Yields fun r : Option Resource ↦ ∀ b ∈ r, Resource.same b b = true :=
    yields_optional Resource.yields_same
  have hresource : sameOption Resource.same function.resource function.resource = true :=
    sameOption_self (layout.of_yields keyed h read hmem hyields)
  simp [same, hresource]

end Function

namespace Workflow

/-- The slot of the resources. -/
def resourceSlot : Slot Workflow :=
  .optional "resource" (.object Schema.resource) (·.resource)
    (fun value ↦ value.members? >>= Resource.ofMembers?) fun r ↦ .object r.toMembers

def slots : List (Slot Workflow) :=
  [.required "functions" (.list (.reference .function)) (·.functions)
      (Json.listOf? (Reference.ofJson? .function)) fun fs ↦ .array (fs.map Reference.toJson),
    .required "runtime" .string (·.runtime) Json.string? .string,
    .optional "image" .string (·.image) Json.string? .string,
    .optional "baseImage" .string (·.baseImage) Json.string? .string,
    .required "codeDir" .string (·.codeDir) Json.string? .string,
    .optional "handler" .string (·.handler) Json.string? .string,
    .optional "replicas" Schema.replicas (·.replicas) replicas? fun n ↦ .int n.toNat,
    resourceSlot,
    .optional "role" .string (·.role) Json.string? .string]

/-- **Workflows agree with their schema.** -/
def layout : Layout Schema.workflow ofMembers? toMembers :=
  .ofClosed rfl slots rfl (by decide)
    (by
      intro members h
      simp only [slots, List.forall_mem_cons] at h
      obtain ⟨hfunctions, hruntime, himage, hbase, hdir, hhandler, hreplicas, hresource, hrole,
        -⟩ := h
      exact isSome_bind_of hfunctions fun _ ↦ isSome_bind_of hruntime fun _ ↦
        isSome_bind_of himage fun _ ↦ isSome_bind_of hbase fun _ ↦ isSome_bind_of hdir fun _ ↦
        isSome_bind_of hhandler fun _ ↦ isSome_bind_of hreplicas fun _ ↦
        isSome_bind_of hresource fun _ ↦ isSome_bind_of hrole fun _ ↦ rfl)
    (by
      rintro members ⟨_, _, _, _, _, _, _, _, _⟩
      simp [ofMembers?, slots, resourceSlot, required_eq, optional_eq, Slot.required,
        Slot.optional, Field.required, Field.optional, Option.bind_eq_some_iff])
    (fun record ↦ by
      simp [toMembers, slots, resourceSlot, membersOf_required, membersOf_optional])

theorem decodes_slots : ∀ slot ∈ slots, slot.Decodes := by
  simp only [slots, List.forall_mem_cons]
  exact ⟨decodes_required (decodes_list (decodes_reference .function)),
    decodes_required decodes_string,
    decodes_optional fun _ _ h _ ↦ decodes_string h,
    decodes_optional fun _ _ h _ ↦ decodes_string h,
    decodes_required decodes_string,
    decodes_optional fun _ _ h _ ↦ decodes_string h,
    decodes_optional fun _ _ h _ ↦ decodes_replicas h,
    decodes_optional fun _ _ h _ ↦ decodes_object Resource.layout Resource.decodes_slots h,
    decodes_optional fun _ _ h _ ↦ decodes_string h,
    List.forall_mem_nil _⟩

theorem settles_slots (workflow : Workflow) : ∀ slot ∈ slots, slot.Settles (slot.get workflow) := by
  simp only [slots, List.forall_mem_cons]
  exact ⟨settles_required rfl (settles_list rfl settles_reference _),
    settles_required rfl (settles_string _),
    settles_optional fun _ _ ↦ settles_string _,
    settles_optional fun _ _ ↦ settles_string _,
    settles_required rfl (settles_string _),
    settles_optional fun _ _ ↦ settles_string _,
    settles_optional fun _ _ ↦ settles_replicas _,
    settles_optional fun r _ ↦ settles_object Resource.layout rfl (by decide) r.settles_slots,
    settles_optional fun _ _ ↦ settles_string _,
    List.forall_mem_nil _⟩

theorem canonizes_slots : ∀ slot ∈ slots, slot.Canonizes := by
  simp only [slots, List.forall_mem_cons]
  exact ⟨canonizes_required rfl (canonizes_list rfl canonizes_reference),
    canonizes_required rfl canonizes_string,
    canonizes_optional canonizes_string,
    canonizes_optional canonizes_string,
    canonizes_required rfl canonizes_string,
    canonizes_optional canonizes_string,
    canonizes_optional canonizes_replicas,
    canonizes_optional canonizes_resource,
    canonizes_optional canonizes_string,
    List.forall_mem_nil _⟩

/-- A workflow that was read is the same as itself, for the same reason as a function. -/
theorem same_self {raw found : Fields} {workflow : Workflow} (keyed : raw.WellKeyed)
    (h : Schema.workflow.Completes raw found)
    (read : ofMembers? (Value.toMembers found) = some workflow) :
    same workflow workflow = true := by
  have hmem : resourceSlot ∈ layout.slots := List.mem_of_getElem? (i := 7) rfl
  have hyields : resourceSlot.Yields fun r : Option Resource ↦ ∀ b ∈ r, Resource.same b b = true :=
    yields_optional Resource.yields_same
  have hresource : sameOption Resource.same workflow.resource workflow.resource = true :=
    sameOption_self (layout.of_yields keyed h read hmem hyields)
  simp [same, hresource]

end Workflow

end AppManifest
