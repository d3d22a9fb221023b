import AppManifest.Entity.Event
import AppManifest.Proofs.Validation.Acceptance
import AppManifest.Proofs.Value.NormalForm
/-!
# Type expressions as values

A type expression is checked as a value, read from the JSON form of that value, and written as JSON.
The reader of values and the reader of type expressions decide in the same way which objects are
references, so a type expression is written as the normal form of the value that it was read from
(`toJson_of_ofJson?`), and the normal form is checked and read like the value itself
(`check_normalize`, `ofJson?_toJson_normalize`).

All inductions are on the value, with its fields beside it; a list of other than one element is no
type expression.
-/

namespace AppManifest

namespace TypeExpr

/-! ### Reading and checking -/

mutual

/-- **What is checked as a type expression can be read as one.** A reference in the value is written
as an object and is recognised again. -/
theorem isSome_ofJson?_of_check : ∀ {value : Value} {path : Path}, check value path = .ok () →
    (ofJson? value.toJson).isSome
  | .string _, _, _ => rfl
  | .reference target, _, _ => by
    rw [Value.toJson, ofJson?, Value.ofMembers?_toMembers_blockRef]
    rfl
  | .list [item], _, h => by
    rw [Value.toJson, Value.toItems, Value.toItems, ofJson?, Option.isSome_map]
    exact isSome_ofJson?_of_check h
  | .object fields, _, h => by
    rw [Value.toJson, ofJson?]
    cases BlockRef.ofMembers? (Value.toMembers fields) with
    | some target => rfl
    | none =>
      show ((ofMembers? (Value.toMembers fields)).map TypeExpr.struct).isSome
      rw [Option.isSome_map]
      exact isSome_ofMembers?_of_checkFields h

theorem isSome_ofMembers?_of_checkFields : ∀ {fields : List (String × Value)} {path : Path},
    checkFields fields path = .ok () → (ofMembers? (Value.toMembers fields)).isSome
  | [], _, _ => rfl
  | (_, _) :: _, _, h => by
    rw [checkFields] at h
    obtain ⟨_, hvalue, hrest⟩ := Checked.bind_eq_ok.1 h
    obtain ⟨type, htype⟩ := Option.isSome_iff_exists.1 (isSome_ofJson?_of_check hvalue)
    obtain ⟨types, htypes⟩ := Option.isSome_iff_exists.1 (isSome_ofMembers?_of_checkFields hrest)
    rw [Value.toMembers, ofMembers?, htype, htypes]
    rfl

end

mutual

/-- Normal forms of type expressions are type expressions, at every path. -/
theorem check_normalize : ∀ {value : Value} {path : Path}, check value path = .ok () →
    ∀ other, check value.normalize other = .ok ()
  | .string _, _, _ => fun _ ↦ rfl
  | .reference _, _, _ => fun _ ↦ rfl
  | .list [item], path, h => fun other ↦ by
    have hitem : check item (path.index 0) = .ok () := h
    rw [Value.normalize, Value.normalizeItems, Value.normalizeItems, check]
    exact check_normalize hitem _
  | .object fields, path, h => fun other ↦ by
    have h : checkFields fields path = .ok () := h
    rw [Value.normalize]
    cases Value.lookalike? (Value.normalizeFields fields) with
    | some target => rfl
    | none => exact checkFields_normalizeFields h other

theorem checkFields_normalizeFields : ∀ {fields : List (String × Value)} {path : Path},
    checkFields fields path = .ok () →
    ∀ other, checkFields (Value.normalizeFields fields) other = .ok ()
  | [], _, _ => fun _ ↦ rfl
  | (_, _) :: _, _, h => fun other ↦ by
    rw [checkFields] at h
    obtain ⟨_, hvalue, hrest⟩ := Checked.bind_eq_ok.1 h
    rw [Value.normalizeFields, checkFields, check_normalize hvalue]
    exact checkFields_normalizeFields hrest other

end

mutual

/-- **A type expression is written as the normal form of the value that it was read from.** Only the
way through JSON can change something, and the normal form has gone that way too. -/
theorem toJson_of_ofJson? : ∀ {value : Value} {type : TypeExpr}, ofJson? value.toJson = some type →
    type.toJson = value.normalize.toJson
  | .null, _, h | .bool _, _, h | .int _, _, h => by simp [Value.toJson, ofJson?] at h
  | .float x, _, h => by
    cases hx : x.isFinite <;> simp [Value.toJson, hx, ofJson?] at h
  | .string s, _, h => by
    obtain rfl := Option.some.inj h
    rfl
  | .reference target, _, h => by
    rw [Value.toJson, ofJson?, Value.ofMembers?_toMembers_blockRef] at h
    obtain rfl := Option.some.inj h
    rfl
  | .list [], _, h => by simp [Value.toJson, Value.toItems, ofJson?] at h
  | .list [item], _, h => by
    rw [Value.toJson, Value.toItems, Value.toItems, ofJson?, Option.map_eq_some_iff] at h
    obtain ⟨element, helement, rfl⟩ := h
    rw [toJson, toJson_of_ofJson? helement]
    rfl
  | .list (_ :: _ :: _), _, h => by simp [Value.toJson, Value.toItems, ofJson?] at h
  | .object fields, _, h => by
    rw [Value.toJson, ofJson?, Value.ofMembers?_toMembers] at h
    rw [Value.normalize]
    cases hl : Value.lookalike? (Value.normalizeFields fields) with
    | some target =>
      rw [hl] at h
      obtain rfl := Option.some.inj h
      rfl
    | none =>
      simp only [hl, Option.map_eq_some_iff] at h
      obtain ⟨types, htypes, rfl⟩ := h
      rw [toJson, toMembers_of_ofMembers? htypes]
      rfl

theorem toMembers_of_ofMembers? : ∀ {fields : List (String × Value)}
    {types : List (String × TypeExpr)}, ofMembers? (Value.toMembers fields) = some types →
    toMembers types = Value.toMembers (Value.normalizeFields fields)
  | [], _, h => by
    obtain rfl := Option.some.inj h
    rfl
  | (key, value) :: rest, _, h => by
    rw [Value.toMembers, ofMembers?] at h
    cases htype : ofJson? value.toJson with
    | none => simp [htype] at h
    | some type =>
      cases htypes : ofMembers? (Value.toMembers rest) with
      | none => simp [htype, htypes] at h
      | some types =>
        rw [htype, htypes] at h
        obtain rfl := Option.some.inj h
        rw [toMembers, toJson_of_ofJson? htype, toMembers_of_ofMembers? htypes]
        rfl

end

mutual

/-- A value and its normal form are read as the same type expression, since both readers take the
same objects for references. -/
theorem ofJson?_toJson_normalize : ∀ value : Value,
    ofJson? value.normalize.toJson = ofJson? value.toJson
  | .null | .bool _ | .int _ | .string _ | .reference _ => rfl
  | .float x => by
    cases hx : x.isFinite <;> simp [Value.normalize, Value.toJson, hx]
  | .list [] => rfl
  | .list [item] => by
    simp only [Value.normalize, Value.normalizeItems, Value.toJson, Value.toItems, ofJson?,
      ofJson?_toJson_normalize item]
  | .list (_ :: _ :: _) => rfl
  | .object fields => by
    rw [Value.toJson, ofJson?, Value.ofMembers?_toMembers, Value.normalize]
    cases hl : Value.lookalike? (Value.normalizeFields fields) with
    | some target =>
      show ofJson? (.object target.toMembers) = _
      rw [ofJson?, Value.ofMembers?_toMembers_blockRef]
    | none =>
      show ofJson? (.object (Value.toMembers (Value.normalizeFields fields))) = _
      rw [ofJson?, Value.ofMembers?_toMembers, Value.normalizeFields_normalizeFields, hl,
        ofMembers?_toMembers_normalizeFields fields]

theorem ofMembers?_toMembers_normalizeFields : ∀ fields : List (String × Value),
    ofMembers? (Value.toMembers (Value.normalizeFields fields)) =
      ofMembers? (Value.toMembers fields)
  | [] => rfl
  | (_, value) :: rest => by
    simp only [Value.normalizeFields, Value.toMembers, ofMembers?, ofJson?_toJson_normalize value,
      ofMembers?_toMembers_normalizeFields rest]

end

/-! ### Equality of type expressions -/

theorem keys_toMembers (types : List (String × TypeExpr)) :
    Entries.keys (toMembers types) = Entries.keys types := by
  induction types with
  | nil => rfl
  | cons entry rest ih => rw [toMembers, Entries.keys_cons, Entries.keys_cons, ih]

/-- The comparison of descriptions looks up each field of the first in the second. -/
theorem sameUnderKeys_of_forall {as bs : StructType}
    (h : ∀ entry ∈ as, ∃ b, Entries.get? bs entry.1 = some b ∧ same entry.2 b = true) :
    sameUnderKeys as bs = true := by
  induction as with
  | nil => rfl
  | cons entry rest ih =>
    obtain ⟨b, hb, hsame⟩ := h entry List.mem_cons_self
    rw [sameUnderKeys, hb, ih fun entry hmem ↦ h entry (List.mem_cons_of_mem _ hmem)]
    exact (Bool.and_true _).trans hsame

/-- Fields that equal themselves and stand under their own keys make a description that equals
itself. -/
theorem sameUnderKeys_self {types all : List (String × TypeExpr)}
    (hsame : ∀ entry ∈ types, same entry.2 entry.2 = true)
    (hall : ∀ entry ∈ types, Entries.get? all entry.1 = some entry.2) :
    sameUnderKeys types all = true :=
  sameUnderKeys_of_forall fun entry hmem ↦ ⟨entry.2, hall entry hmem, hsame entry hmem⟩

/-- Fields are read under the keys of the object, so a description repeats none of them. -/
theorem distinctKeys_of_ofMembers? {fields : List (String × Value)}
    {types : List (String × TypeExpr)} (h : ofMembers? (Value.toMembers fields) = some types)
    (distinct : Entries.DistinctKeys fields) : Entries.DistinctKeys types := by
  have hkeys : Entries.keys types = Entries.keys fields := by
    rw [← keys_toMembers, toMembers_of_ofMembers? h, Value.keys_toMembers,
      Value.keys_normalizeFields]
  rwa [Entries.DistinctKeys, hkeys]

mutual

/-- A type expression that was read equals itself; only repeated keys could stand against it. -/
theorem same_of_ofJson? : ∀ {value : Value} {type : TypeExpr}, ofJson? value.toJson = some type →
    value.DistinctKeys → same type type = true
  | .null, _, h, _ | .bool _, _, h, _ | .int _, _, h, _ => by simp [Value.toJson, ofJson?] at h
  | .float x, _, h, _ => by
    cases hx : x.isFinite <;> simp [Value.toJson, hx, ofJson?] at h
  | .string s, _, h, _ => by
    obtain rfl := Option.some.inj h
    simp [same]
  | .reference target, _, h, _ => by
    rw [Value.toJson, ofJson?, Value.ofMembers?_toMembers_blockRef] at h
    obtain rfl := Option.some.inj h
    simp [same]
  | .list [], _, h, _ => by simp [Value.toJson, Value.toItems, ofJson?] at h
  | .list [item], _, h, distinct => by
    rw [Value.toJson, Value.toItems, Value.toItems, ofJson?, Option.map_eq_some_iff] at h
    obtain ⟨element, helement, rfl⟩ := h
    rw [same]
    exact same_of_ofJson? helement distinct.1
  | .list (_ :: _ :: _), _, h, _ => by simp [Value.toJson, Value.toItems, ofJson?] at h
  | .object fields, _, h, distinct => by
    rw [Value.toJson, ofJson?] at h
    cases hl : BlockRef.ofMembers? (Value.toMembers fields) with
    | some target =>
      rw [hl] at h
      obtain rfl := Option.some.inj h
      simp [same]
    | none =>
      simp only [hl, Option.map_eq_some_iff] at h
      obtain ⟨types, htypes, rfl⟩ := h
      have hkeys := distinctKeys_of_ofMembers? htypes distinct.1
      rw [same, beq_self_eq_true, Bool.true_and]
      exact sameUnderKeys_self (same_of_ofMembers? htypes distinct.2)
        fun entry hmem ↦ Entries.get?_eq_some_of_mem hkeys hmem

theorem same_of_ofMembers? : ∀ {fields : List (String × Value)}
    {types : List (String × TypeExpr)}, ofMembers? (Value.toMembers fields) = some types →
    Value.fieldsDistinct fields → ∀ entry ∈ types, same entry.2 entry.2 = true
  | [], _, h, _ => by
    obtain rfl := Option.some.inj h
    exact fun entry hmem ↦ absurd hmem List.not_mem_nil
  | (key, value) :: rest, _, h, distinct => by
    rw [Value.toMembers, ofMembers?] at h
    cases htype : ofJson? value.toJson with
    | none => simp [htype] at h
    | some type =>
      cases htypes : ofMembers? (Value.toMembers rest) with
      | none => simp [htype, htypes] at h
      | some types =>
        rw [htype, htypes] at h
        obtain rfl := Option.some.inj h
        exact List.forall_mem_cons.2
          ⟨same_of_ofJson? htype distinct.1, same_of_ofMembers? htypes distinct.2⟩

end

/-- **A description that was read from an object without repeated keys equals itself.** With a
repeated key the comparison would find the first of the fields twice. -/
theorem sameUnderKeys_of_ofMembers? {fields : List (String × Value)}
    {types : List (String × TypeExpr)} (h : ofMembers? (Value.toMembers fields) = some types)
    (distinct : (Value.object fields).DistinctKeys) : sameUnderKeys types types = true :=
  sameUnderKeys_self (same_of_ofMembers? h distinct.2) fun _ hmem ↦
    Entries.get?_eq_some_of_mem (distinctKeys_of_ofMembers? h distinct.1) hmem

end TypeExpr

end AppManifest
