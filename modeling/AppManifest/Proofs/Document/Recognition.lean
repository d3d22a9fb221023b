import AppManifest.Document.Text
import AppManifest.Proofs.Json.Acceptance
import AppManifest.Proofs.Json.Inversion
import AppManifest.Proofs.Value.Recognition
/-!
# References in JSON texts

A text is read as a value by way of a tree, and as a reference by a walk that does without one. The
walk takes a member exactly if its tree has the form that its name asks for
(`BlockRef.readMember_eq_ok_iff`), so it goes through exactly on the objects whose members spell a
reference (`BlockRef.read_eq_ok_iff`).

With the grammar of JSON texts and the rules for what a tree stands for this says what is read as a
reference and what is not, at every depth of a text (`Json.recognizes_references`).
-/

namespace AppManifest

open Json

namespace Json

theorem refuseKey_ne_ok {α : Type} {cause : Cause} {c : Cursor} {a : α} :
    refuseKey cause c ≠ .ok a := by
  rw [refuseKey]
  split <;> simp [Cursor.faultBehind]

theorem lacking_ne_ok {α : Type} {cause : Cause} {c : Cursor} {a : α} :
    lacking cause c ≠ .ok a := by
  rw [lacking]
  split <;> simp [Cursor.faultBehind]

theorem onlyOnce_eq_ok_iff {α : Type} {key : String} {current : Option α} {reader : Reader α}
    {a : α} {c behind : Cursor} :
    onlyOnce key current reader c = .ok (a, behind) ↔
      current = none ∧ ∃ start, colon c = .ok start ∧ reader start = .ok (a, behind) := by
  rw [onlyOnce]
  rcases current with - | present
  · simp [memberValue, bind_eq_ok]
  · exact iff_of_false refuseKey_ne_ok fun h ↦ absurd h.1 (by simp)

end Json

namespace BlockRef

/-- **A member is taken if its tree is.** The reader of a reference looks at keys and values as they
come, and `absorb?` says what it makes of a tree that was read before. -/
theorem readMember_eq_ok_iff (depth : Nat) {seen last : Slots} {key : String}
    {mark behind : Cursor} :
    readMember seen key mark = .ok (last, behind) ↔
      ∃ start found, colon mark = .ok start ∧ tree depth start = .ok (found, behind) ∧
        absorb? seen (key, found) = some last := by
  rw [readMember]
  by_cases href : key = "$ref"
  · subst href
    rw [if_pos rfl, map_eq_ok_iff fun name ↦ (some name, seen.2)]
    simp only [onlyOnce_eq_ok_iff, absorb?_ref_eq_some_iff, stringValue_eq_ok_iff depth]
    constructor
    · rintro ⟨name, ⟨hempty, start, hcolon, hread⟩, hlast⟩
      exact ⟨start, .string name, hcolon, hread, hempty, name, rfl, hlast⟩
    · rintro ⟨start, _, hcolon, hread, hempty, name, rfl, hlast⟩
      exact ⟨name, ⟨hempty, start, hcolon, hread⟩, hlast⟩
  · by_cases hkind : key = "$kind"
    · subst hkind
      rw [if_neg href, if_pos rfl, map_eq_ok_iff fun kind ↦ (seen.1, some kind)]
      simp only [onlyOnce_eq_ok_iff, absorb?_kind_eq_some_iff, hint?_eq_some_iff,
        optionalString_eq_ok_iff depth]
      constructor
      · rintro ⟨kind, ⟨hempty, start, hcolon, hread⟩, hlast⟩
        rcases hread with ⟨rfl, hread⟩ | ⟨text, rfl, hread⟩
        · exact ⟨start, .null, hcolon, hread, hempty, none, Or.inl ⟨rfl, rfl⟩, hlast⟩
        · exact ⟨start, .string text, hcolon, hread, hempty, some text,
            Or.inr ⟨text, rfl, rfl⟩, hlast⟩
      · rintro ⟨start, found, hcolon, hread, hempty, kind, hvalue, hlast⟩
        refine ⟨kind, ⟨hempty, start, hcolon, ?_⟩, hlast⟩
        rcases hvalue with ⟨rfl, rfl⟩ | ⟨text, rfl, rfl⟩
        · exact Or.inl ⟨rfl, hread⟩
        · exact Or.inr ⟨text, rfl, hread⟩
    · rw [if_neg href, if_neg hkind]
      simp only [absorb?_eq_none href hkind]
      exact iff_of_false refuseKey_ne_ok (by simp)

/-- **The walk goes through exactly if all members of the list are taken.** The walk stops at the
first member that it does not take; the list of the members is read to its end before any of them is
looked at. -/
theorem walk_eq_ok_iff (depth : Nat) {fuel : Nat} {first : Bool} {seen last : Slots}
    {c closing : Cursor} :
    membersInto readMember fuel first seen c = .ok (last, closing) ↔
      ∃ found, Listed (tree depth) first c found closing ∧ found.length < fuel ∧
        found.foldlM absorb? seen = some last := by
  refine membersInto_eq_ok_iff ?_
  intro s name mark last behind
  exact readMember_eq_ok_iff depth

/-- What the walk has seen in front of the closing bracket is turned into the reference. -/
theorem read_eq_ok_iff_walk {depth : Nat} {target : BlockRef} {c behind : Cursor} :
    read depth c = .ok (target, behind) ↔ ∃ start, valueStart c = .ok start ∧
      start.startsWith ['\x7b'] = true ∧ depth ≠ 0 ∧ ∃ seen closing,
        membersInto readMember start.skip.fuel true (none, none) start.skip = .ok (seen, closing) ∧
          ofSlots? seen = some target ∧ behind = closing.skip := by
  rw [read, bind_eq_ok]
  refine exists_congr fun start ↦ and_congr_right fun _ ↦ ?_
  by_cases opens : start.startsWith ['\x7b'] = true
  · rw [if_pos opens, and_iff_right opens, openBracket]
    by_cases hdepth : depth = 0
    · rw [if_pos hdepth]
      exact iff_of_false (by simp [Cursor.faultAt, bind, Except.bind]) fun h ↦ h.1 hdepth
    · rw [if_neg hdepth, and_iff_right hdepth]
      show (membersInto readMember start.skip.fuel true (none, none) start.skip >>= _) = _ ↔ _
      rw [bind_eq_ok]
      constructor
      · rintro ⟨⟨⟨_ | name, kind?⟩, closing⟩, hwalk, h⟩
        · exact absurd h lacking_ne_ok
        · obtain ⟨rfl, rfl⟩ := Prod.mk.inj (Except.ok.inj h)
          exact ⟨_, closing, hwalk, rfl, rfl⟩
      · rintro ⟨⟨_ | name, kind?⟩, closing, hwalk, hseen, rfl⟩
        · exact absurd hseen (by simp [ofSlots?])
        · obtain rfl := Option.some.inj hseen
          exact ⟨_, hwalk, rfl⟩
  · rw [if_neg opens]
    exact iff_of_false mismatch_ne_ok fun h ↦ opens h.1

/-- **The walk reads a reference where the tree is an object that spells it.** Both read the same
text, one of them without building the tree. -/
theorem read_eq_ok_iff {depth : Nat} {target : BlockRef} {c behind : Cursor} :
    read depth c = .ok (target, behind) ↔
      ∃ members, tree depth c = .ok (.object members, behind) ∧ Spelled members target := by
  have hspelled : ∀ {members seen}, List.foldlM absorb? (none, none) members = some seen →
      (ofSlots? seen = some target ↔ Spelled members target) := by
    intro members seen h
    rw [← ofMembers?_eq_some_iff, ← bind_ofSlots?_eq_ofMembers?, h, Option.bind_some]
  simp only [read_eq_ok_iff_walk, tree_eq_object_iff, members_eq_ok_iff, walk_eq_ok_iff (depth - 1)]
  constructor
  · rintro ⟨start, hstart, opens, hdepth, seen, closing, ⟨found, hlisted, hlength, hseen⟩, h, rfl⟩
    have hbound := Nat.lt_of_lt_of_le hlength (fuel_skip_le start)
    exact ⟨found, ⟨start, hstart, opens, hdepth, closing, ⟨hlisted, hbound⟩, rfl⟩,
      (hspelled hseen).1 h⟩
  · rintro ⟨found, ⟨start, hstart, opens, hdepth, closing, ⟨hlisted, -⟩, rfl⟩, h⟩
    have hbound : found.length < start.skip.fuel := by
      have hmore := List.length_pos_iff.2 hlisted.rest_ne_nil
      have hlength := h.length_le
      rw [Cursor.fuel]
      omega
    have hfound := ofMembers?_eq_some_iff.2 h
    rw [← bind_ofSlots?_eq_ofMembers?, Option.bind_eq_some_iff] at hfound
    obtain ⟨seen, hseen, htarget⟩ := hfound
    exact ⟨start, hstart, opens, hdepth, seen, closing, ⟨found, hlisted, hbound, hseen⟩,
      htarget, rfl⟩

end BlockRef

namespace Json

theorem value_eq_ok_iff {depth : Nat} {found : Value} {c behind : Cursor} :
    value depth c = .ok (found, behind) ↔
      ∃ form, tree depth c = .ok (form, behind) ∧ form.StandsFor found := by
  simp only [Value.standsFor_iff, eq_comm (a := found)]
  exact map_eq_ok_iff Value.ofJson

theorem readValue_eq_ok_iff {text : String} {found : Value} :
    readValue text = .ok found ↔ ∃ form, ofText text = .ok form ∧ form.StandsFor found := by
  simp only [readValue, ofText, readAll_eq_ok_iff, value_eq_ok_iff]
  constructor
  · rintro ⟨c, ⟨form, htree, hform⟩, hend⟩
    exact ⟨form, ⟨c, htree, hend⟩, hform⟩
  · rintro ⟨form, ⟨c, htree, hend⟩, hform⟩
    exact ⟨c, ⟨form, htree, hform⟩, hend⟩

theorem readBlockRef_eq_ok_iff {text : String} {target : BlockRef} :
    readBlockRef text = .ok target ↔
      ∃ members, ofText text = .ok (.object members) ∧ BlockRef.Spelled members target := by
  simp only [readBlockRef, ofText, readAll_eq_ok_iff, BlockRef.read_eq_ok_iff]
  constructor
  · rintro ⟨c, ⟨members, htree, hspelled⟩, hend⟩
    exact ⟨members, ⟨c, htree, hend⟩, hspelled⟩
  · rintro ⟨members, ⟨c, htree, hend⟩, hspelled⟩
    exact ⟨c, ⟨members, htree, hspelled⟩, hend⟩

/-- A tree stands for a reference if it is an object whose members spell the reference. -/
theorem standsFor_reference_iff {form : Json} {target : BlockRef} :
    form.StandsFor (.reference target) ↔
      ∃ members, form = .object members ∧ BlockRef.Spelled members target := by
  constructor
  · intro h
    cases h with
    | reference hspelled => exact ⟨_, rfl, hspelled⟩
  · rintro ⟨members, rfl, hspelled⟩
    exact .reference hspelled

/-- **A reference on its own is read as it is among values.** So a reference may be taken out of a
value and read by itself. -/
theorem readBlockRef_eq_ok_iff_readValue {text : String} {target : BlockRef} :
    readBlockRef text = .ok target ↔ readValue text = .ok (.reference target) := by
  simp only [readBlockRef_eq_ok_iff, readValue_eq_ok_iff, standsFor_reference_iff]
  constructor
  · rintro ⟨members, htree, hspelled⟩
    exact ⟨.object members, htree, members, rfl, hspelled⟩
  · rintro ⟨_, htree, members, rfl, hspelled⟩
    exact ⟨members, htree, hspelled⟩

/-- **References are recognised exactly.** A text is read as what its tree stands for, if the tree
is not nested too deeply; and a tree stands for one value: an object for a reference exactly if its
members spell one, otherwise for a field bag; an array for a list. What is read as a reference on
its own is what is read as one among values. -/
theorem recognizes_references :
    (∀ text found, readValue text = .ok found ↔ ∃ form : Json,
      form.WrittenAs text ∧ form.nesting ≤ nestingLimit ∧ form.StandsFor found) ∧
    (∀ form : Json, ∃! found, form.StandsFor found) ∧
    ∀ text target, readBlockRef text = .ok target ↔ readValue text = .ok (.reference target) := by
  refine ⟨fun text found ↦ ?_, fun form ↦ ?_, fun _ _ ↦ readBlockRef_eq_ok_iff_readValue⟩
  · simp only [readValue_eq_ok_iff, ofText_eq_ok_iff, and_assoc]
  · exact ⟨Value.ofJson form, (Value.standsFor_iff form _).2 rfl,
      fun found ↦ (Value.standsFor_iff form found).1⟩

end Json

end AppManifest
