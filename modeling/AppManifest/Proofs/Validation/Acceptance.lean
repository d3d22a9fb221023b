import Mathlib.Data.List.Forall2
import AppManifest.Proofs.Checked
import AppManifest.Proofs.Entries
/-!
# What a check accepts

For each shape, the values that its check accepts and what it makes of them. Nothing behind this
module opens the check of a shape itself; what stands in a checked bag is in the module after it.

* `Shape.Completes shape value found`: some run of the check turns `value` into `found`. The lemmas
  `completes_…` read this off for each shape.
* `Shape.Accepts shape value found`: every run does, wherever in a document the value stands. The
  lemmas `accepts_…` are the ones to build with.
-/

namespace AppManifest

/-- In lists that are related element by element, each element of the second has a partner in the
first. -/
theorem exists_mem_of_forall₂ {α β : Type} {R : α → β → Prop} {as : List α} {bs : List β}
    (h : List.Forall₂ R as bs) {b : β} (hmem : b ∈ bs) : ∃ a ∈ as, R a b := by
  induction h with
  | nil => exact absurd hmem List.not_mem_nil
  | @cons a _ _ _ hab _ ih =>
    rcases List.mem_cons.1 hmem with rfl | hmem
    · exact ⟨a, List.mem_cons_self, hab⟩
    · obtain ⟨a, ha, hab⟩ := ih hmem
      exact ⟨a, List.mem_cons_of_mem _ ha, hab⟩

namespace Shape

/-- The check of a shape turns a value into `found` at some path. -/
def Completes (shape : Shape) (value found : Value) : Prop :=
  ∃ path, shape.check value path = .ok found

/-- The check of a shape turns a value into `found` at every path. -/
def Accepts (shape : Shape) (value found : Value) : Prop :=
  ∀ path, shape.check value path = .ok found

variable {shape inner : Shape} {value found : Value}

-- Only this module computes checks by `simp`; the modules after it go through its lemmas.
attribute [local simp] check violation

/-- A value that is accepted at every path becomes the same value in every run, since the runs at
one path agree. -/
theorem Accepts.eq_of_completes {value again found : Value} (accepts : shape.Accepts value again)
    (h : shape.Completes value found) : found = again := by
  obtain ⟨path, h⟩ := h
  exact Except.ok.inj (h.symm.trans (accepts path))

/-! ### Scalars and references -/

/-- The shape of anything changes nothing. -/
theorem completes_any : Shape.any.Completes value found ↔ found = value := by
  constructor
  · rintro ⟨path, h⟩
    cases value <;> simp at h <;> exact h.symm
  · rintro rfl
    exact ⟨Path.root, by cases found <;> rfl⟩

/-- Only strings pass as strings, and they are not changed. -/
theorem completes_string (h : Shape.string.Completes value found) :
    ∃ s, value = .string s ∧ found = .string s := by
  obtain ⟨path, h⟩ := h
  cases value <;> simp at h ⊢
  exact h.symm

/-- Only truth values pass as such, and they are not changed. -/
theorem completes_bool (h : Shape.bool.Completes value found) :
    ∃ b, value = .bool b ∧ found = .bool b := by
  obtain ⟨path, h⟩ := h
  cases value <;> simp at h ⊢
  exact h.symm

/-- Integers and floats pass as numbers if they are at least zero. They are not changed: an integer
stays an integer until it is read. -/
theorem completes_number (h : Shape.number.Completes value found) :
    found = value ∧ ((∃ i, value = .int i) ∨ ∃ x, value = .float x ∧ x.isNonnegative = true) := by
  obtain ⟨path, h⟩ := h
  cases value with
  | int i =>
    rw [check] at h
    split at h
    · exact ⟨(Except.ok.inj h).symm, Or.inl ⟨i, rfl⟩⟩
    · exact absurd h (by simp)
  | float x =>
    rw [check] at h
    split at h
    · next hx => exact ⟨(Except.ok.inj h).symm, Or.inr ⟨x, rfl, hx⟩⟩
    · exact absurd h (by simp)
  | _ => exact absurd h (by simp)

/-- Only integers between zero and the bound pass as integers. A float with an integral value is
none. -/
theorem completes_integer {max : UInt64} (h : (Shape.integer max).Completes value found) :
    ∃ i, value = .int i ∧ found = .int i ∧ 0 ≤ i.toInt ∧ i.toInt ≤ max.toNat := by
  obtain ⟨path, h⟩ := h
  cases value with
  | int i =>
    rw [check] at h
    split at h
    · next hi => exact ⟨i, rfl, (Except.ok.inj h).symm, hi⟩
    · exact absurd h (by simp)
  | _ => exact absurd h (by simp)

/-- A reference passes if it is one of the right kind or of no kind, and the kind is not filled in.
-/
theorem completes_reference {kind : Kind} (h : (Shape.reference kind).Completes value found) :
    ∃ target : BlockRef, value = .reference target ∧ found = .reference target ∧
      (target.kind = none ∨ target.kind = some kind.name) := by
  obtain ⟨path, h⟩ := h
  cases value with
  | reference target =>
    rw [check] at h
    rcases hk : target.kind with - | hint
    · rw [hk] at h
      exact ⟨target, rfl, (Except.ok.inj h).symm, Or.inl hk⟩
    · rw [hk] at h
      by_cases heq : hint = kind.name
      · simp only [heq, if_true] at h
        exact ⟨target, rfl, (Except.ok.inj h).symm, Or.inr (heq ▸ hk)⟩
      · simp [heq] at h
  | _ => simp at h

theorem accepts_any (value : Value) : Shape.any.Accepts value value := fun path ↦ by
  cases value <;> rfl

theorem accepts_string (s : String) : Shape.string.Accepts (.string s) (.string s) := fun _ ↦ rfl

/-- A float that is at least zero is accepted wherever it stands. Records write all their numbers as
floats, so integers are not needed here. -/
theorem accepts_number {x : Binary64} (h : x.isNonnegative = true) :
    Shape.number.Accepts (.float x) (.float x) := fun path ↦ by
  simp [h]

theorem accepts_integer {max : UInt64} {i : Int64} (h : 0 ≤ i.toInt ∧ i.toInt ≤ max.toNat) :
    (Shape.integer max).Accepts (.int i) (.int i) := fun path ↦ by
  simp [h]

/-- A reference with its kind is accepted wherever it stands. Records write all their references
with their kinds. -/
theorem accepts_reference (kind : Kind) (name : String) :
    (Shape.reference kind).Accepts (.reference ⟨name, some kind.name⟩)
      (.reference ⟨name, some kind.name⟩) := fun path ↦ by
  simp

/-- Only the shape of anything accepts `null`. For all others a `null` in a bag would count as an
absent field anyway. -/
theorem eq_null_of_completes (h : shape.Completes .null found) : found = .null := by
  obtain ⟨path, h⟩ := h
  cases shape <;> simp at h
  exact h.symm

/-! ### Lists, maps and objects -/

/-- Every element of a list that passes has passed, at some path of its own. The paths are
forgotten, since no value depends on them. -/
theorem checkItems_eq_ok {run : Value → Path → Checked Value} {path : Path}
    {items found : List Value} :
    ∀ {i : Nat}, checkItems run path i items = .ok found →
      List.Forall₂ (fun item new ↦ ∃ p, run item p = .ok new) items found := by
  -- the index is only part of paths, so it may start anywhere
  induction items generalizing found with
  | nil =>
    intro i h
    rw [checkItems, Except.ok.injEq] at h
    exact h ▸ List.Forall₂.nil
  | cons item rest ih =>
    intro i h
    rw [checkItems] at h
    obtain ⟨new, hnew, h⟩ := Checked.bind_eq_ok.1 h
    obtain ⟨others, hothers, h⟩ := Checked.bind_eq_ok.1 h
    exact Except.ok.inj h ▸ List.Forall₂.cons ⟨_, hnew⟩ (ih hothers)

/-- A list passes if each of its elements does, whatever number the first of them has. -/
theorem checkItems_of_forall₂ {run : Value → Path → Checked Value} {path : Path}
    {items found : List Value}
    (h : List.Forall₂ (fun item new ↦ ∀ p, run item p = .ok new) items found) :
    ∀ i, checkItems run path i items = .ok found := by
  induction h with
  | nil => exact fun _ ↦ rfl
  | cons hitem _ ih =>
    intro i
    rw [checkItems, hitem, Checked.bind_eq_ok]
    exact ⟨_, rfl, Checked.bind_eq_ok.2 ⟨_, ih (i + 1), rfl⟩⟩

theorem completes_list (h : (Shape.list inner).Completes value found) :
    ∃ items new, value = .list items ∧ found = .list new ∧
      List.Forall₂ inner.Completes items new := by
  obtain ⟨path, h⟩ := h
  cases value with
  | list items =>
    rw [check] at h
    obtain ⟨new, hnew, h⟩ := Checked.bind_eq_ok.1 h
    exact ⟨items, new, rfl, (Except.ok.inj h).symm, checkItems_eq_ok hnew⟩
  | _ => simp at h

theorem accepts_list {items new : List Value} (h : List.Forall₂ inner.Accepts items new) :
    (Shape.list inner).Accepts (.list items) (.list new) := fun path ↦ by
  rw [check, checkItems_of_forall₂ h]
  rfl

/-- Every value of a map that passes has passed under its key, at some path of its own. -/
theorem checkEntries_eq_ok {run : Value → Path → Checked Value} {path : Path}
    {fields found : Fields} (h : checkEntries run path fields = .ok found) :
    List.Forall₂ (fun entry new ↦ entry.1 = new.1 ∧ ∃ p, run entry.2 p = .ok new.2)
      fields found := by
  induction fields generalizing found with
  | nil =>
    rw [checkEntries, Except.ok.injEq] at h
    exact h ▸ List.Forall₂.nil
  | cons entry rest ih =>
    obtain ⟨key, value⟩ := entry
    rw [checkEntries] at h
    obtain ⟨new, hnew, h⟩ := Checked.bind_eq_ok.1 h
    obtain ⟨others, hothers, h⟩ := Checked.bind_eq_ok.1 h
    exact Except.ok.inj h ▸ List.Forall₂.cons ⟨rfl, _, hnew⟩ (ih hothers)

/-- A map passes unchanged if each of its values does. Maps whose values are changed by their check
do not occur in any schema. -/
theorem checkEntries_of_forall {run : Value → Path → Checked Value} {path : Path} {fields : Fields}
    (h : ∀ entry ∈ fields, ∀ p, run entry.2 p = .ok entry.2) :
    checkEntries run path fields = .ok fields := by
  induction fields with
  | nil => rfl
  | cons entry rest ih =>
    obtain ⟨key, value⟩ := entry
    rw [checkEntries, h (key, value) List.mem_cons_self,
      ih fun entry hmem ↦ h entry (List.mem_cons_of_mem _ hmem)]
    rfl

/-- Entries whose check changes no value are kept as they stand. -/
theorem eq_of_forall₂_completes
    (unchanged : ∀ {value found}, inner.Completes value found → found = value)
    {fields found : Fields} (h : List.Forall₂ (fun entry new : String × Value ↦
      entry.1 = new.1 ∧ inner.Completes entry.2 new.2) fields found) :
    found = fields ∧ ∀ entry ∈ fields, inner.Completes entry.2 entry.2 := by
  induction h with
  | nil => exact ⟨rfl, fun entry hmem ↦ absurd hmem List.not_mem_nil⟩
  | @cons entry new rest others hentry _ ih =>
    have hvalue : new.2 = entry.2 := unchanged hentry.2
    refine ⟨by rw [ih.1, Prod.ext hentry.1.symm hvalue], fun e hmem ↦ ?_⟩
    rcases List.mem_cons.1 hmem with rfl | hmem
    · exact hvalue ▸ hentry.2
    · exact ih.2 e hmem

/-- A map keeps its keys in their order, and each value is what became of the one under that key. -/
theorem completes_map_forall₂ (h : (Shape.map inner).Completes value found) :
    ∃ fields new : Fields, value = .object fields ∧ found = .object new ∧
      List.Forall₂ (fun entry new ↦ entry.1 = new.1 ∧ inner.Completes entry.2 new.2)
        fields new := by
  obtain ⟨path, h⟩ := h
  cases value with
  | object fields =>
    rw [check] at h
    obtain ⟨new, hnew, h⟩ := Checked.bind_eq_ok.1 h
    exact ⟨fields, new, rfl, (Except.ok.inj h).symm, checkEntries_eq_ok hnew⟩
  | _ => simp at h

/-- A map is kept as it stands if the check of its values changes none, as for maps of strings. -/
theorem completes_map (unchanged : ∀ {value found}, inner.Completes value found → found = value)
    (h : (Shape.map inner).Completes value found) :
    ∃ fields, value = .object fields ∧ found = .object fields ∧
      ∀ entry ∈ fields, inner.Completes entry.2 entry.2 := by
  obtain ⟨fields, new, rfl, rfl, hentries⟩ := completes_map_forall₂ h
  obtain ⟨rfl, hvalues⟩ := eq_of_forall₂_completes unchanged hentries
  exact ⟨_, rfl, rfl, hvalues⟩

/-- A map of values that are accepted unchanged is accepted unchanged, wherever it stands. -/
theorem accepts_map {fields : Fields} (h : ∀ entry ∈ fields, inner.Accepts entry.2 entry.2) :
    (Shape.map inner).Accepts (.object fields) (.object fields) := fun path ↦ by
  rw [check, checkEntries_of_forall h]
  rfl

/-- A struct passes if each of its fields is a type, and it is kept as it stands. -/
theorem completes_structType (h : Shape.structType.Completes value found) :
    ∃ fields, value = .object fields ∧ found = .object fields ∧
      ∃ path, TypeExpr.checkFields fields path = .ok () := by
  obtain ⟨path, h⟩ := h
  cases value with
  | object fields =>
    rw [check] at h
    obtain ⟨done, hfields, hfound⟩ := Checked.bind_eq_ok.1 h
    exact ⟨fields, rfl, (Except.ok.inj hfound).symm, path, hfields⟩
  | _ => simp at h

theorem accepts_structType {fields : Fields}
    (h : ∀ path, TypeExpr.checkFields fields path = .ok ()) :
    Shape.structType.Accepts (.object fields) (.object fields) := fun path ↦ by
  rw [check, h]
  rfl

/-- An object passes if its bag passes the schema; what becomes of it is what becomes of the bag. -/
theorem completes_object {schema : Schema} (h : (Shape.object schema).Completes value found) :
    ∃ raw new, value = .object raw ∧ found = .object new ∧
      ∃ path, checkSchema schema raw path = .ok new := by
  obtain ⟨path, h⟩ := h
  cases value with
  | object raw =>
    rw [check] at h
    obtain ⟨new, hnew, h⟩ := Checked.bind_eq_ok.1 h
    exact ⟨raw, new, rfl, (Except.ok.inj h).symm, path, hnew⟩
  | _ => simp at h

/-- An object whose bag passes its schema at every path is accepted wherever it stands. -/
theorem accepts_object {schema : Schema} {raw new : Fields}
    (h : ∀ path, checkSchema schema raw path = .ok new) :
    (Shape.object schema).Accepts (.object raw) (.object new) := fun path ↦ by
  rw [check, h]
  rfl

end Shape

end AppManifest
