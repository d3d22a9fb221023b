import AppManifest.Proofs.Entity.Canonical
/-!
# The layouts of events and secrets

An event describes its data by an object with arbitrary keys, which must be there. Where the fields
of the data are the ones of a reference, the slot does not settle.
-/

namespace AppManifest

open Slot Shape

namespace Event

/-- The slot of the data, whose keys are arbitrary. -/
def dataSlot : Slot Event :=
  .required "data" .structType (·.data) (fun value ↦ value.members? >>= TypeExpr.ofMembers?)
    fun data ↦ .object (TypeExpr.toMembers data)

def slots : List (Slot Event) :=
  [.required "type" .string (·.eventType) Json.string? .string, dataSlot]

/-- **Events agree with their schema.** -/
def layout : Layout Schema.event ofMembers? toMembers :=
  .ofClosed rfl slots rfl (by decide)
    (by
      intro members h
      simp only [slots, List.forall_mem_cons] at h
      obtain ⟨htype, hdata, -⟩ := h
      exact isSome_bind_of htype fun _ ↦ isSome_bind_of hdata fun _ ↦ rfl)
    (by
      rintro members ⟨_, _⟩
      simp [ofMembers?, slots, dataSlot, required_eq, Slot.required, Field.required,
        Option.bind_eq_some_iff])
    (fun record ↦ by simp [toMembers, slots, dataSlot, membersOf_required])

theorem decodes_slots : ∀ slot ∈ slots, slot.Decodes := by
  simp only [slots, List.forall_mem_cons]
  exact ⟨decodes_required decodes_string, decodes_required decodes_structType,
    List.forall_mem_nil _⟩

/-- An event settles if the description of its data is not written like a reference. -/
theorem settles_slots {event : Event}
    (hdata : BlockRef.ofMembers? (TypeExpr.toMembers event.data) = none) :
    ∀ slot ∈ slots, slot.Settles (slot.get event) := by
  simp only [slots, List.forall_mem_cons]
  exact ⟨settles_required rfl (settles_string _),
    settles_required rfl (writesNormal_structType.settles fun members heq ↦ by
      obtain rfl := Json.object.inj heq
      exact hdata),
    List.forall_mem_nil _⟩

theorem canonizes_slots : ∀ slot ∈ slots, slot.Canonizes := by
  simp only [slots, List.forall_mem_cons]
  exact ⟨canonizes_required rfl canonizes_string,
    canonizes_required rfl (writesNormal_structType.canonizes fun _ ↦ canonical_structType),
    List.forall_mem_nil _⟩

/-- **An event that was read is the same as itself**, since no field of its data is described twice.
-/
theorem same_self {raw found : Fields} {event : Event} (keyed : raw.WellKeyed)
    (h : Schema.event.Completes raw found)
    (read : ofMembers? (Value.toMembers found) = some event) : same event event = true := by
  have hmem : dataSlot ∈ layout.slots := List.mem_of_getElem? (i := 1) rfl
  have hdata : TypeExpr.sameUnderKeys event.data event.data = true :=
    layout.of_yields keyed h read hmem (yields_required rfl yields_structType)
  simp [same, hdata]

end Event

namespace Secret

def slots : List (Slot Secret) :=
  [.required "name" .string (·.name) Json.string? .string,
    .required "value" .string (·.value) Json.string? .string]

/-- **Secrets agree with their schema.** -/
def layout : Layout Schema.secret ofMembers? toMembers :=
  .ofClosed rfl slots rfl (by decide)
    (by
      intro members h
      simp only [slots, List.forall_mem_cons] at h
      obtain ⟨hname, hvalue, -⟩ := h
      exact isSome_bind_of hname fun _ ↦ isSome_bind_of hvalue fun _ ↦ rfl)
    (by
      rintro members ⟨_, _⟩
      simp [ofMembers?, slots, required_eq, Slot.required, Field.required, Option.bind_eq_some_iff])
    (fun record ↦ by simp [toMembers, slots, membersOf_required])

theorem decodes_slots : ∀ slot ∈ slots, slot.Decodes := by
  simp only [slots, List.forall_mem_cons]
  exact ⟨decodes_required decodes_string, decodes_required decodes_string,
    List.forall_mem_nil _⟩

theorem settles_slots (secret : Secret) : ∀ slot ∈ slots, slot.Settles (slot.get secret) := by
  simp only [slots, List.forall_mem_cons]
  exact ⟨settles_required rfl (settles_string _), settles_required rfl (settles_string _),
    List.forall_mem_nil _⟩

theorem canonizes_slots : ∀ slot ∈ slots, slot.Canonizes := by
  simp only [slots, List.forall_mem_cons]
  exact ⟨canonizes_required rfl canonizes_string, canonizes_required rfl canonizes_string,
    List.forall_mem_nil _⟩

end Secret

end AppManifest
