import AppManifest.Document.Text
import AppManifest.Proofs.Json.Trees
import AppManifest.Proofs.Value.NormalForm
/-!
# Field bags and records are read as they were written

The text of a value is read as its normal form (`reads_value`), and so is that of a field bag, key
by key (`reads_fieldBag`). A record is read from the text of an object if its members, each read
behind its key, lead from the empty state to one that makes a record (`reads_record`).

Packages and documents are records of one form: an optional text and a list. `takes_given` is about
both of them.
-/

namespace AppManifest

namespace Value

mutual

/-- **The text of a value stands for it**: numbers that are not finite are not written as such. -/
theorem printable_toJson : ∀ value : Value, value.toJson.Printable
  | .null | .bool _ | .string _ => trivial
  | .int i => by
    have hlow := i.minValue_le_toInt
    have hhigh := i.toInt_le
    rw [Int64.toInt_minValue] at hlow
    rw [Int64.toInt_maxValue] at hhigh
    show Json.FitsInt i.toInt
    constructor <;> omega
  | .float x => by
    rw [toJson]
    split
    · next finite => exact finite
    · trivial
  | .reference ⟨_, none⟩ => ⟨trivial, trivial⟩
  | .reference ⟨_, some _⟩ => ⟨trivial, trivial, trivial⟩
  | .list items => itemsPrintable_toItems items
  | .object fields => membersPrintable_toMembers fields

theorem itemsPrintable_toItems : ∀ items : List Value, Json.itemsPrintable (toItems items)
  | [] => trivial
  | item :: rest => ⟨printable_toJson item, itemsPrintable_toItems rest⟩

theorem membersPrintable_toMembers : ∀ fields : List (String × Value),
    Json.membersPrintable (toMembers fields)
  | [] => trivial
  | (_, value) :: rest => ⟨printable_toJson value, membersPrintable_toMembers rest⟩

end

end Value

namespace Json

variable {α σ : Type}

/-! ### Room for brackets -/

/-- What is inside an object has room for one bracket less. -/
theorem exists_room_of_object {members : Members} {depth : Nat}
    (h : (object members).nesting ≤ depth) :
    ∃ room, depth = room + 1 ∧ ∀ member ∈ members, member.2.nesting ≤ room := by
  obtain ⟨room, rfl⟩ : ∃ room, depth = room + 1 := by
    rw [nesting] at h
    exact ⟨depth - 1, by omega⟩
  exact ⟨room, rfl, membersNesting_le_iff.1 (Nat.le_of_succ_le_succ h)⟩

/-- What is inside a list has room for one bracket less. -/
theorem exists_room_of_array {items : List Json} {depth : Nat}
    (h : (array items).nesting ≤ depth) :
    ∃ room, depth = room + 1 ∧ ∀ item ∈ items, item.nesting ≤ room := by
  obtain ⟨room, rfl⟩ : ∃ room, depth = room + 1 := by
    rw [nesting] at h
    exact ⟨depth - 1, by omega⟩
  exact ⟨room, rfl, itemsNesting_le_iff.1 (Nat.le_of_succ_le_succ h)⟩

/-! ### Values -/

/-- **A value is read as its normal form.** A value is read through its tree, so this is
`reads_tree` and the fact on normal forms put together. -/
theorem reads_value {value : Value} (distinct : value.DistinctKeys) {depth : Nat}
    (h : value.toJson.nesting ≤ depth) :
    Reads Ends (Json.value depth) value.toJson.compactChars value.normalize := by
  rw [← Value.ofJson_toJson distinct]
  exact (reads_tree depth value.printable_toJson h).map Value.ofJson

/-- **A field bag is read as its normal form.** No key is repeated, so nothing is overwritten as the
bag is read. -/
theorem reads_fieldBag {fields : Fields} (keyed : fields.WellKeyed) {depth : Nat}
    (h : (object (Value.toMembers fields)).nesting ≤ depth) :
    Reads Ends (fieldBag depth) (object (Value.toMembers fields)).compactChars
      (Value.normalizeFields fields) := by
  obtain ⟨room, rfl, hroom⟩ := exists_room_of_object h
  have hvalues : List.Forall₂
      (fun entry a ↦ entry.1 = a.1 ∧ Reads Ends (Json.value room) entry.2 a.2)
      ((Value.toMembers fields).map textOf) (Value.normalizeFields fields) := by
    rw [Value.toMembers_eq_map] at hroom ⊢
    rw [Value.normalizeFields_eq_map, List.map_map, List.forall₂_map_left_iff,
      List.forall₂_map_right_iff, List.forall₂_same]
    intro entry hmem
    have distinct := Value.fieldsDistinct_iff.1 keyed.2 entry hmem
    exact ⟨rfl, reads_value distinct (hroom _ (List.mem_map_of_mem hmem))⟩
  have hbag : Entries.ofList (Value.normalizeFields fields) = Value.normalizeFields fields :=
    Entries.ofList_eq_self (Value.distinctKeys_normalizeFields keyed.1)
  rw [compactChars, compactMembers_eq_joined]
  conv => arg 4; rw [← hbag]
  exact (reads_objectOf hvalues).map Entries.ofList

theorem stringValue_quote (rest : List Char) (offset : Nat) :
    stringValue ⟨'"' :: rest, offset⟩ = stringBody ⟨rest, offset + '"'.utf8Size⟩ := by
  rw [stringValue, valueStart_cons (by decide)]
  rfl

theorem reads_stringValue (s : String) : Reads Ends stringValue (stringChars s) s := by
  have hbody : Reads Ends stringBody _ s := (reads_stringBody s).mono fun _ _ ↦ trivial
  exact hbody.past (p := ['"']) fun rest offset ↦ ⟨_, stringValue_quote rest offset⟩

/-- A text is told from `null` by its quote. -/
theorem reads_optionalString (s : String) :
    Reads Ends optionalString (stringChars s) (some s) := by
  have hbody : Reads Ends stringBody _ s := (reads_stringBody s).mono fun _ _ ↦ trivial
  refine (hbody.map some).past (p := ['"']) fun rest offset ↦ ⟨offset + '"'.utf8Size, ?_⟩
  rw [← stringValue_quote, List.singleton_append, optionalString, valueStart_cons (by decide)]
  rfl

/-- Values of one form are read as a list of what each of them is read as. -/
theorem reads_listOf_map {depth : Nat} {β : Type} {item : Nat → Reader β} {write : α → Json}
    {image : α → β} {values : List α}
    (h : ∀ a ∈ values, Starts (write a).compactChars ∧
      Reads Ends (item depth) (write a).compactChars (image a)) :
    Reads Ends (listOf (depth + 1) item) (array (values.map write)).compactChars
      (values.map image) := by
  rw [compactChars, compactItems_eq_joined, List.map_map]
  refine reads_listOf ?_
  rw [List.forall₂_map_left_iff, List.forall₂_map_right_iff, List.forall₂_same]
  exact h

theorem starts_object (members : Members) : Starts (object members).compactChars :=
  ⟨'\x7b', _, rfl, by decide, by decide⟩

/-! ### Records -/

/-- A member that was not there before is read behind its colon. -/
theorem reads_onlyOnce {reader : Reader α} {text : List Char} {a : α} (h : Reads Ends reader text a)
    (key : String) : Reads Ends (onlyOnce key none reader) (':' :: text) a := by
  refine h.past (p := [':']) fun rest offset ↦ ⟨offset + ':'.utf8Size, ?_⟩
  show memberValue reader ⟨':' :: rest, offset⟩ = _
  rw [memberValue, colon_cons]
  rfl

/-- **A record is read from its members**, if they lead to a state that makes the record. Each of
the records of a document has members of its own; what they have in common is said here. -/
theorem reads_record {expected : String} {depth : Nat} {elements : Nat → Reader α} {start last : σ}
    {member : Nat → σ → String → Reader σ} {finish : σ → Cursor → Except Fault α}
    {members : Members} {a : α} (h : Takes (member depth) (members.map textOf) start last)
    (hfinish : ∀ c, finish last c = .ok a) :
    Reads Ends (record expected (depth + 1) elements start member finish)
      (object members).compactChars a := by
  have hfinal : Reads (Closes '\x7d')
      (fun c ↦ finish last c >>= fun found ↦ .ok (found, c)) [] a := by
    simp only [hfinish]
    exact Reads.pure a
  have hinner : Reads (Closes '\x7d')
      (fun c ↦ membersInto (member depth) c.fuel true start c >>= fun read ↦
        finish read.1 read.2 >>= fun found ↦ .ok (found, read.2))
      (joined true ((members.map textOf).map memberChars)) a := by
    rw [← List.append_nil (joined true _)]
    exact (reads_allMembersInto 0 h).bind hfinal fun _ hrest ↦ hrest
  rw [compactChars, compactMembers_eq_joined]
  refine hinner.bracketed id fun rest offset ↦ ⟨offset + '\x7b'.utf8Size, ?_⟩
  rw [record, valueStart_cons (by decide), bind_assoc]
  refine congrArg (membersInto _ _ _ _ _ >>= ·) (funext fun read ↦ ?_)
  rw [bind_assoc]
  rfl

end Json

end AppManifest
