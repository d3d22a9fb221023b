import AppManifest.Proofs.Document.Recognition
import AppManifest.Proofs.Document.Records
import AppManifest.Proofs.Entity.Reading
import AppManifest.Proofs.Validation.Grammar
/-!
# Two checks of a kind hint

The kind that a reference is a hint for is checked in two places: of a value, before it is turned
into an entity (`Shape.check`), and of a text or a tree that is read as a typed reference
(`Reference.ofText`, `Reference.ofJson?`). Both are the one relation between a value and a typed
reference, `Value.RefersTo`: the value is a reference with the name of the typed one, and its hint,
if it has any, is the kind.

So the places agree on every input (`Reference.read_iff_accepted`), and a typed reference that was
written is read as a reference of its own kind only.
-/

namespace AppManifest

open Json

variable {kind : Kind}

theorem Shape.conforms_reference_iff {value : Value} :
    (Shape.reference kind).Conforms value ↔
      ∃ reference : Reference kind, value.RefersTo reference := by
  constructor
  · intro h
    cases h with
    | @reference _ target hint => exact ⟨⟨target.name⟩, target.kind, rfl, hint⟩
  · rintro ⟨reference, hint, rfl, hhint⟩
    exact .reference hhint

theorem Value.ofJson_eq_reference_iff {form : Json} {target : BlockRef} :
    Value.ofJson form = .reference target ↔
      ∃ members, form = .object members ∧ BlockRef.ofMembers? members = some target := by
  simp only [eq_comm (b := Value.reference target), ← Value.standsFor_iff, standsFor_reference_iff,
    BlockRef.ofMembers?_eq_some_iff]

namespace Reference

/-- **A value refers to what its target is as a typed reference.** The relation is the one by which
values and typed parts are compared everywhere else. -/
theorem refersTo_iff {value : Value} {reference : Reference kind} :
    value.RefersTo reference ↔
      ∃ target, value = .reference target ∧ ofBlockRef? kind target = some reference := by
  obtain ⟨name⟩ := reference
  constructor
  · rintro ⟨hint, rfl, rfl | rfl⟩
    · exact ⟨_, rfl, rfl⟩
    · exact ⟨_, rfl, if_pos rfl⟩
  · rintro ⟨⟨name', hint⟩, rfl, h⟩
    refine ⟨hint, ?_⟩
    rcases hint with - | hint
    · obtain rfl := congrArg Reference.name (Option.some.inj h)
      exact ⟨rfl, Or.inl rfl⟩
    · rw [ofBlockRef?] at h
      dsimp only at h
      split at h
      · next hkind =>
        obtain rfl := congrArg Reference.name (Option.some.inj h)
        exact ⟨rfl, Or.inr (congrArg some hkind)⟩
      · exact absurd h (by simp)

/-- A tree is read as a typed reference exactly if the value it stands for refers to it. -/
theorem ofJson?_eq_some_iff {form : Json} {reference : Reference kind} :
    ofJson? kind form = some reference ↔ (Value.ofJson form).RefersTo reference := by
  simp only [refersTo_iff, Value.ofJson_eq_reference_iff]
  constructor
  · intro h
    cases form with
    | object members =>
      obtain ⟨target, htarget, h⟩ := Option.bind_eq_some_iff.1 h
      exact ⟨target, ⟨members, rfl, htarget⟩, h⟩
    | _ => exact absurd h (by simp [ofJson?])
  · rintro ⟨target, ⟨members, rfl, htarget⟩, h⟩
    exact Option.bind_eq_some_iff.2 ⟨target, htarget, h⟩

/-- A text is read as a typed reference exactly if it is read as a value that refers to it. -/
theorem ofText_eq_ok_iff {text : String} {reference : Reference kind} :
    ofText kind text = .ok reference ↔
      ∃ found, readValue text = .ok found ∧ found.RefersTo reference := by
  have hread : ofText kind text = .ok reference ↔
      ∃ target, readBlockRef text = .ok target ∧ ofBlockRef? kind target = some reference := by
    simp only [ofText, readBlockRef, readAll_eq_ok_iff, bind_eq_ok]
    constructor
    · rintro ⟨c, ⟨⟨target, behind⟩, htarget, h⟩, hend⟩
      dsimp only at h
      split at h
      · next found hfound =>
        obtain ⟨rfl, rfl⟩ := Prod.mk.inj (Except.ok.inj h)
        exact ⟨target, ⟨behind, htarget, hend⟩, hfound⟩
      · exact absurd h (by simp)
    · rintro ⟨target, ⟨behind, htarget, hend⟩, hfound⟩
      refine ⟨behind, ⟨_, htarget, ?_⟩, hend⟩
      dsimp only
      rw [hfound]
  simp only [hread, readBlockRef_eq_ok_iff_readValue, refersTo_iff]
  constructor
  · rintro ⟨target, htarget, h⟩
    exact ⟨_, htarget, target, rfl, h⟩
  · rintro ⟨_, htarget, target, rfl, h⟩
    exact ⟨target, htarget, h⟩

/-! ### Checks -/

/-- A check accepts the values that refer to a block of the kind, at every path. -/
theorem forall_exists_check_iff {value : Value} :
    (∀ path, ∃ checked, (Shape.reference kind).check value path = .ok checked) ↔
      ∃ reference : Reference kind, value.RefersTo reference := by
  simp only [Shape.exists_check_iff, Shape.conforms_reference_iff]
  exact ⟨fun h ↦ h .root, fun h _ ↦ h⟩

/-! ### Reading back -/

theorem refersTo_toBlockRef (reference : Reference kind) :
    (Value.reference reference.toBlockRef).RefersTo reference :=
  ⟨some kind.name, rfl, Or.inr rfl⟩

/-- What is written is read as the untyped reference. -/
theorem readBlockRef_compact (reference : Reference kind) :
    readBlockRef reference.toJson.compact = .ok reference.toBlockRef := by
  have hprintable : reference.toJson.Printable :=
    Value.printable_toJson (.reference reference.toBlockRef)
  have hnesting : reference.toJson.nesting ≤ nestingLimit := by
    show 1 ≤ nestingLimit
    decide
  rw [readBlockRef_eq_ok_iff]
  exact ⟨_, ofText_compact hprintable hnesting,
    BlockRef.ofMembers?_eq_some_iff.1 (Value.ofMembers?_toMembers_blockRef _)⟩

theorem ofJson_toJson (reference : Reference kind) :
    Value.ofJson reference.toJson = .reference reference.toBlockRef :=
  Value.ofJson_eq_reference_iff.2 ⟨_, rfl, Value.ofMembers?_toMembers_blockRef _⟩

/-- What was written for one kind is nothing that a value of another kind refers to. -/
theorem ofBlockRef?_toBlockRef_of_ne {other : Kind} (reference : Reference kind)
    (h : other ≠ kind) : ofBlockRef? other reference.toBlockRef = none :=
  if_neg fun hname ↦ h (Kind.name_injective hname).symm

/-- A reference to a block of another kind is refused with both kinds, and with no place. -/
theorem ofText_of_ne {other : Kind} (reference : Reference kind) (h : other ≠ kind) :
    ofText other reference.toJson.compact = .error ⟨.otherKind other.name kind.name, none⟩ := by
  obtain ⟨behind, hread, -⟩ := readAll_eq_ok_iff.1 (readBlockRef_compact reference)
  simp only [ofText, readAll, bind, Except.bind, hread, ofBlockRef?_toBlockRef_of_ne reference h]
  rfl

/-- **The two checks of a kind hint agree.** A typed reader takes a text or a tree exactly if the
value that stands there passes the check of a reference field of that kind, and then this value
refers to what was read. A reference that was written is read as one of its own kind only. -/
theorem read_iff_accepted (kind : Kind) :
    (∀ text found, readValue text = .ok found →
      ((∃ reference, ofText kind text = .ok reference) ↔
        ∀ path, ∃ checked, (Shape.reference kind).check found path = .ok checked)) ∧
    (∀ text reference, ofText kind text = .ok reference →
      ∃ found, readValue text = .ok found ∧ found.RefersTo reference) ∧
    (∀ form : Json, (∃ reference, ofJson? kind form = some reference) ↔
      ∀ path, ∃ checked, (Shape.reference kind).check (Value.ofJson form) path = .ok checked) ∧
    (∀ form reference, ofJson? kind form = some reference →
      (Value.ofJson form).RefersTo reference) ∧
    ∀ reference : Reference kind,
      ofText kind reference.toJson.compact = .ok reference ∧
      ofJson? kind reference.toJson = some reference ∧
      ∀ other, other ≠ kind →
        ofText other reference.toJson.compact = .error ⟨.otherKind other.name kind.name, none⟩ ∧
        ofJson? other reference.toJson = none := by
  refine ⟨fun text found hread ↦ ?_, fun _ _ ↦ ofText_eq_ok_iff.1, fun form ↦ ?_,
    fun _ _ ↦ ofJson?_eq_some_iff.1, fun reference ↦ ⟨?_, ?_, fun other hother ↦ ⟨?_, ?_⟩⟩⟩
  · simp only [forall_exists_check_iff, ofText_eq_ok_iff, hread]
    simp
  · simp only [forall_exists_check_iff, ofJson?_eq_some_iff]
  · have hread := readBlockRef_eq_ok_iff_readValue.1 (readBlockRef_compact reference)
    exact ofText_eq_ok_iff.2 ⟨_, hread, refersTo_toBlockRef reference⟩
  · rw [ofJson?_eq_some_iff, ofJson_toJson]
    exact refersTo_toBlockRef reference
  · exact ofText_of_ne reference hother
  · rw [toJson, ofJson?, Value.ofMembers?_toMembers_blockRef]
    exact ofBlockRef?_toBlockRef_of_ne reference hother

end Reference

end AppManifest
