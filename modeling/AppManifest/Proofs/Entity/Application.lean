import AppManifest.Proofs.Entity.Canonical
/-!
# The layout of applications

An application refers to blocks of several kinds, and each slot asks for the kind that its field
declares. Sample inputs are any values, kept in normal form. The options have arbitrary keys, so
that slot settles only where the options are not written like a reference.
-/

namespace AppManifest

open Slot Shape

namespace InputExample

/-- The slot of the sample itself. -/
def valueSlot : Slot InputExample :=
  .optional "value" .any (·.value) (fun value ↦ some (Value.ofJson value)) Value.toJson

def slots : List (Slot InputExample) := [valueSlot]

def layout : Layout Schema.inputExample ofMembers? toMembers :=
  .ofClosed rfl slots rfl (by decide)
    (by
      intro members h
      simp only [slots, List.forall_mem_cons] at h
      obtain ⟨hvalue, -⟩ := h
      rw [ofMembers?, optional_eq]
      exact isSome_bind_of hvalue fun _ ↦ rfl)
    (by
      rintro members ⟨_⟩
      simp [ofMembers?, slots, valueSlot, optional_eq, Slot.optional, Field.optional,
        Option.bind_eq_some_iff])
    (fun record ↦ by simp [toMembers, slots, valueSlot, membersOf_optional])

theorem decodes_slots : ∀ slot ∈ slots, slot.Decodes := by
  simp only [slots, List.forall_mem_cons]
  exact ⟨decodes_optional fun _ _ h _ ↦ decodes_any h, List.forall_mem_nil _⟩

/-- A sample that was read settles: its value is a normal form by then. -/
theorem settles_slots (sample : InputExample) :
    ∀ slot ∈ slots, slot.Settles (slot.get sample) := by
  simp only [slots, List.forall_mem_cons]
  exact ⟨settles_optional fun _ _ ↦ settles_any _, List.forall_mem_nil _⟩

theorem canonizes_slots : ∀ slot ∈ slots, slot.Canonizes := by
  simp only [slots, List.forall_mem_cons]
  exact ⟨canonizes_optional canonizes_any, List.forall_mem_nil _⟩

/-- A sample that was read is the same as itself. -/
theorem yields_same : (Shape.object Schema.inputExample).Yields
    (fun value ↦ value.members? >>= ofMembers?) fun e ↦ same e e = true := by
  have hvalue : valueSlot ∈ layout.slots := List.mem_cons_self
  exact (yields_object layout hvalue (yields_optional yields_any)).mono fun e h ↦
    sameOption_self fun value hmem ↦ Value.same_self (h value hmem).1 (h value hmem).2

end InputExample

namespace Application

/-- The slot of the options, whose keys are arbitrary. -/
def optionsSlot : Slot Application :=
  .optional "options" (.map .any) (·.options) Fields.ofJson?
    fun options ↦ .object (Value.toMembers options)

/-- The slot of the sample inputs. -/
def samplesSlot : Slot Application :=
  .withDefault "inputExamples" (.list (.object Schema.inputExample)) (.list []) (·.inputExamples) []
    (Json.listOf? fun value ↦ value.members? >>= InputExample.ofMembers?)
    fun samples ↦ .array (samples.map fun e ↦ .object e.toMembers)

def slots : List (Slot Application) :=
  [.optional "name" .string (·.name) Json.string? .string,
    .required "defaultProvider" (.reference .provider) (·.defaultProvider)
      (Reference.ofJson? .provider) Reference.toJson,
    .withDefault "providers" (.list (.reference .provider)) (.list []) (·.providers) []
      (Json.listOf? (Reference.ofJson? .provider)) fun rs ↦ .array (rs.map Reference.toJson),
    .withDefault "functions" (.list (.reference .function)) (.list []) (·.functions) []
      (Json.listOf? (Reference.ofJson? .function)) fun rs ↦ .array (rs.map Reference.toJson),
    .optional "workflow" (.reference .workflow) (·.workflow)
      (Reference.ofJson? .workflow) Reference.toJson,
    samplesSlot,
    optionsSlot]

/-- **Applications agree with their schema.** -/
def layout : Layout Schema.application ofMembers? toMembers :=
  .ofClosed rfl slots rfl (by decide)
    (by
      intro members h
      simp only [slots, List.forall_mem_cons] at h
      obtain ⟨hname, hdefault, hproviders, hfunctions, hworkflow, hsamples, hoptions, -⟩ := h
      exact isSome_bind_of hname fun _ ↦ isSome_bind_of hdefault fun _ ↦
        isSome_bind_of hproviders fun _ ↦ isSome_bind_of hfunctions fun _ ↦
        isSome_bind_of hworkflow fun _ ↦ isSome_bind_of hsamples fun _ ↦
        isSome_bind_of hoptions fun _ ↦ rfl)
    (by
      rintro members ⟨_, _, _, _, _, _, _⟩
      simp [ofMembers?, slots, samplesSlot, optionsSlot, required_eq, optional_eq,
        withDefault_eq, Slot.required, Slot.optional, Slot.withDefault, Field.required,
        Field.optional, Option.bind_eq_some_iff])
    (fun record ↦ by
      simp [toMembers, slots, samplesSlot, optionsSlot, membersOf_required, membersOf_optional,
        membersOf_withDefault])

theorem decodes_slots : ∀ slot ∈ slots, slot.Decodes := by
  simp only [slots, List.forall_mem_cons]
  exact ⟨decodes_optional fun _ _ h _ ↦ decodes_string h,
    decodes_required (decodes_reference .provider),
    decodes_withDefault (decodes_list (decodes_reference .provider))
      (accepts_list List.Forall₂.nil),
    decodes_withDefault (decodes_list (decodes_reference .function))
      (accepts_list List.Forall₂.nil),
    decodes_optional fun _ _ h _ ↦ decodes_reference .workflow h,
    decodes_withDefault
      (decodes_list (decodes_object InputExample.layout InputExample.decodes_slots))
      (accepts_list List.Forall₂.nil),
    decodes_optional fun _ _ h _ ↦ decodes_map_any h,
    List.forall_mem_nil _⟩

/-- An application settles if its options are not written like a reference. References, samples and
lists of them settle whatever is in them. -/
theorem settles_slots {app : Application}
    (hoptions : ∀ options ∈ app.options, BlockRef.ofMembers? (Value.toMembers options) = none) :
    ∀ slot ∈ slots, slot.Settles (slot.get app) := by
  have hsample (sample : InputExample) : (Shape.object Schema.inputExample).Settles
      (fun value ↦ value.members? >>= InputExample.ofMembers?) (fun e ↦ .object e.toMembers)
      sample :=
    settles_object InputExample.layout rfl (by decide) sample.settles_slots
  simp only [slots, List.forall_mem_cons]
  exact ⟨settles_optional fun _ _ ↦ settles_string _,
    settles_required rfl (settles_reference _),
    settles_withDefault rfl (accepts_list List.Forall₂.nil) trivial
      (settles_list rfl settles_reference _),
    settles_withDefault rfl (accepts_list List.Forall₂.nil) trivial
      (settles_list rfl settles_reference _),
    settles_optional fun _ _ ↦ settles_reference _,
    settles_withDefault rfl (accepts_list List.Forall₂.nil) trivial (settles_list rfl hsample _),
    settles_optional fun options hmem ↦ writesNormal_map_any.settles fun members heq ↦ by
      obtain rfl := Json.object.inj heq
      exact hoptions options hmem,
    List.forall_mem_nil _⟩

theorem canonizes_slots : ∀ slot ∈ slots, slot.Canonizes := by
  have hsample := canonizes_object InputExample.layout rfl (by decide) InputExample.canonizes_slots
  simp only [slots, List.forall_mem_cons]
  exact ⟨canonizes_optional canonizes_string,
    canonizes_required rfl canonizes_reference,
    canonizes_withDefault rfl (accepts_list List.Forall₂.nil) trivial
      (canonizes_list rfl canonizes_reference),
    canonizes_withDefault rfl (accepts_list List.Forall₂.nil) trivial
      (canonizes_list rfl canonizes_reference),
    canonizes_optional canonizes_reference,
    canonizes_withDefault rfl (accepts_list List.Forall₂.nil) trivial (canonizes_list rfl hsample),
    canonizes_optional (writesNormal_map_any.canonizes fun _ ↦ canonical_map),
    List.forall_mem_nil _⟩

/-- A list is the same as itself if its elements are. -/
theorem sameList_self {α : Type} {same : α → α → Bool} {as : List α}
    (h : ∀ a ∈ as, same a a = true) : sameList same as as = true := by
  induction as with
  | nil => rfl
  | cons a rest ih =>
    rw [sameList, h a List.mem_cons_self, ih fun b hmem ↦ h b (List.mem_cons_of_mem _ hmem)]
    rfl

/-- **An application that was read is the same as itself.** Its samples and options are normal
forms, which can be compared. -/
theorem same_self {raw found : Fields} {app : Application} (keyed : raw.WellKeyed)
    (h : Schema.application.Completes raw found)
    (read : ofMembers? (Value.toMembers found) = some app) : same app app = true := by
  have hsamplesMem : samplesSlot ∈ layout.slots := List.mem_of_getElem? (i := 5) rfl
  have hoptionsMem : optionsSlot ∈ layout.slots := List.mem_of_getElem? (i := 6) rfl
  have hsamples : sameList InputExample.same app.inputExamples app.inputExamples = true :=
    sameList_self (layout.of_yields keyed h read hsamplesMem
      (yields_withDefault rfl (accepts_list List.Forall₂.nil) trivial
        (yields_list rfl InputExample.yields_same)))
  have hoptions : sameOption Fields.same app.options app.options = true :=
    sameOption_self (layout.of_yields keyed h read hoptionsMem (yields_optional yields_map_any))
  simp [same, hsamples, hoptions]

end Application

end AppManifest
