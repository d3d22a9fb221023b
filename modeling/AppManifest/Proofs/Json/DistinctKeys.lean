import AppManifest.Json.Members
import AppManifest.Proofs.Value.NormalForm
/-!
# JSON without repeated keys

A value without repeated keys is written without any (`Value.distinctKeys_toJson`), references
included. Members that stand behind another member repeat no key if they do not and the name of that
member is not among their keys (`Json.distinctKeys_cons_iff`), and then a reader that takes the
first, the last or all members of the name finds the one value (`Json.membersNamed_cons_iff`).
-/

namespace AppManifest

namespace Json

theorem itemsDistinct_iff {items : List Json} :
    itemsDistinct items ↔ ∀ item ∈ items, item.DistinctKeys := by
  induction items with
  | nil => simp [itemsDistinct]
  | cons item rest ih => simp [itemsDistinct, ih]

theorem membersDistinct_iff {members : Members} :
    membersDistinct members ↔ ∀ member ∈ members, member.2.DistinctKeys := by
  induction members with
  | nil => simp [membersDistinct]
  | cons member rest ih =>
    obtain ⟨key, value⟩ := member
    simp [membersDistinct, ih]

/-- An object repeats no key if its own keys are distinct and none of its values repeats one. -/
theorem distinctKeys_object_iff {members : Members} :
    (Json.object members).DistinctKeys ↔
      Entries.DistinctKeys members ∧ ∀ member ∈ members, member.2.DistinctKeys := by
  rw [DistinctKeys, membersDistinct_iff]
  rfl

/-- The members of a name, in their order. -/
def membersNamed (name : String) (members : Members) : Members :=
  members.filter (·.1 == name)

@[simp] theorem membersNamed_cons_self (name : String) (value : Json) (members : Members) :
    membersNamed name ((name, value) :: members) = (name, value) :: membersNamed name members :=
  List.filter_cons_of_pos (by simp)

@[simp] theorem membersNamed_cons_of_ne {name key : String} (h : key ≠ name) (value : Json)
    (members : Members) :
    membersNamed name ((key, value) :: members) = membersNamed name members :=
  List.filter_cons_of_neg (by simpa using h)

theorem membersNamed_eq_nil_iff {name : String} {members : Members} :
    membersNamed name members = [] ↔ name ∉ Entries.keys members := by
  rw [membersNamed, List.filter_eq_nil_iff, Entries.keys, List.mem_map]
  simp only [beq_iff_eq, not_exists, not_and]

/-- A member in front of others repeats a key exactly if they have one of its name, as long as
nothing else does. -/
theorem distinctKeys_cons_iff {name : String} {value : Json} {members : Members}
    (hvalue : value.DistinctKeys) (hmembers : (Json.object members).DistinctKeys) :
    (Json.object ((name, value) :: members)).DistinctKeys ↔ name ∉ Entries.keys members := by
  obtain ⟨hkeys, hvalues⟩ := distinctKeys_object_iff.1 hmembers
  rw [distinctKeys_object_iff, Entries.DistinctKeys, Entries.keys_cons, List.nodup_cons]
  exact ⟨fun h ↦ h.1.1, fun h ↦ ⟨⟨h, hkeys⟩, List.forall_mem_cons.2 ⟨hvalue, hvalues⟩⟩⟩

/-- A member in front of others is the only one of its name exactly if they have none of that name.
-/
theorem membersNamed_cons_iff {name : String} (value : Json) {members : Members} :
    membersNamed name ((name, value) :: members) = [(name, value)] ↔
      name ∉ Entries.keys members := by
  rw [← membersNamed_eq_nil_iff, membersNamed, List.filter_cons_of_pos (by simp),
    List.cons_eq_cons, and_iff_right rfl, membersNamed]

end Json

theorem BlockRef.distinctKeys_toMembers (target : BlockRef) :
    (Json.object target.toMembers).DistinctKeys := by
  obtain ⟨name, kind⟩ := target
  cases kind with
  | none => exact ⟨by simp [toMembers], trivial, trivial⟩
  | some kind => exact ⟨by simp [toMembers], trivial, trivial, trivial⟩

namespace Value

mutual

/-- **A value without repeated keys is written without any.** Values are written key by key, and a
reference under keys of its own. -/
theorem distinctKeys_toJson : ∀ {value : Value}, value.DistinctKeys → value.toJson.DistinctKeys
  | .null, _ | .bool _, _ | .int _, _ | .string _, _ => trivial
  | .float x, _ => by
    rw [toJson]
    split <;> trivial
  | .reference target, _ => target.distinctKeys_toMembers
  | .list _, h => itemsDistinct_toItems h
  | .object fields, h => ⟨distinctKeys_toMembers h.1, membersDistinct_toMembers h.2⟩

theorem itemsDistinct_toItems : ∀ {items : List Value}, itemsDistinct items →
    Json.itemsDistinct (toItems items)
  | [], _ => trivial
  | _ :: _, h => ⟨distinctKeys_toJson h.1, itemsDistinct_toItems h.2⟩

theorem membersDistinct_toMembers : ∀ {fields : List (String × Value)}, fieldsDistinct fields →
    Json.membersDistinct (toMembers fields)
  | [], _ => trivial
  | (_, _) :: _, h => ⟨distinctKeys_toJson h.1, membersDistinct_toMembers h.2⟩

end

end Value

end AppManifest
