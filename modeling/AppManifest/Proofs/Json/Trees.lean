import AppManifest.Proofs.Json.Sequences
/-!
# Trees are read as they were written

The compact text of a tree is read as that tree (`ofText_compact`), if the text stands for it
(`Printable`) and no more lists and objects are open at a time than may be. How many that are at the
deepest place of a tree is its nesting.
-/

namespace AppManifest.Json

variable {α : Type} {follow : List Char → Prop}

mutual

/-- How many lists and objects are open at the deepest place of a tree. -/
def nesting : Json → Nat
  | .array items => itemsNesting items + 1
  | .object members => membersNesting members + 1
  | _ => 0

/-- The nesting of the deepest tree of a list. -/
def itemsNesting : List Json → Nat
  | [] => 0
  | item :: rest => max (nesting item) (itemsNesting rest)

/-- The nesting of the deepest tree under members. -/
def membersNesting : List (String × Json) → Nat
  | [] => 0
  | (_, value) :: rest => max (nesting value) (membersNesting rest)

end

/-! ### Trees value by value -/

theorem itemsPrintable_iff {items : List Json} :
    itemsPrintable items ↔ ∀ item ∈ items, item.Printable := by
  induction items with
  | nil => simp [itemsPrintable]
  | cons item rest ih => simp [itemsPrintable, ih]

theorem membersPrintable_iff {members : List (String × Json)} :
    membersPrintable members ↔ ∀ member ∈ members, member.2.Printable := by
  induction members with
  | nil => simp [membersPrintable]
  | cons member rest ih =>
    obtain ⟨key, value⟩ := member
    simp [membersPrintable, ih]

/-- A list of trees is nested as deeply as the deepest of them. -/
theorem itemsNesting_le_iff {items : List Json} {depth : Nat} :
    itemsNesting items ≤ depth ↔ ∀ item ∈ items, item.nesting ≤ depth := by
  induction items with
  | nil => simp [itemsNesting]
  | cons item rest ih => simp [itemsNesting, ih]

theorem membersNesting_le_iff {members : List (String × Json)} {depth : Nat} :
    membersNesting members ≤ depth ↔ ∀ member ∈ members, member.2.nesting ≤ depth := by
  induction members with
  | nil => simp [membersNesting]
  | cons member rest ih =>
    obtain ⟨key, value⟩ := member
    simp [membersNesting, ih]

/-- Between two texts stands a comma, and none in front of the first. -/
theorem joined_cons_cons (text next : List Char) (rest : List (List Char)) :
    joined true (text :: next :: rest) = text ++ ',' :: joined true (next :: rest) :=
  rfl

theorem compactItems_eq_joined : ∀ items : List Json,
    compactItems items = joined true (items.map compactChars)
  | [] => rfl
  | [item] => by simp [compactItems, joined, lead]
  | item :: next :: rest => by
    have hrest := compactItems_eq_joined (next :: rest)
    rw [List.map_cons] at hrest
    rw [List.map_cons, List.map_cons, joined_cons_cons, ← hrest]
    simp only [compactItems]

/-- The text of a member. -/
def textOf (member : String × Json) : String × List Char := (member.1, member.2.compactChars)

theorem compactMembers_eq_joined : ∀ members : List (String × Json),
    compactMembers members = joined true ((members.map textOf).map memberChars)
  | [] => rfl
  | [(key, value)] => by simp [compactMembers, joined, lead, memberChars, textOf]
  | (key, value) :: next :: rest => by
    have hrest := compactMembers_eq_joined (next :: rest)
    rw [List.map_cons, List.map_cons] at hrest
    rw [List.map_cons, List.map_cons, List.map_cons, List.map_cons, joined_cons_cons, ← hrest]
    simp only [compactMembers, memberChars, textOf, List.append_assoc, List.cons_append]

/-! ### Reading trees -/

/-- A scalar is read where a tree may stand, whether there is room for brackets or not. -/
theorem reads_treeAround_scalar {inner : Option (Reader Json)} {chars : List Char} {value : Json}
    (starts : Starts chars) (h : Reads Ends scalar? chars (some value)) :
    Reads Ends (treeAround inner) chars value := by
  intro rest offset hrest
  obtain ⟨behind, hbehind⟩ := h rest offset hrest
  refine ⟨behind, ?_⟩
  rw [treeAround, valueStart_of_starts starts]
  simp only [bind, Except.bind, hbehind]

/-- An array is read where a tree may stand, if its elements are read with the room inside its
brackets. -/
theorem reads_treeAround_array {inner : Reader Json} {texts : List (List Char)} {values : List Json}
    (h : List.Forall₂ (fun text a ↦ Starts text ∧ Reads Ends inner text a) texts values) :
    Reads follow (treeAround (some inner)) ('[' :: joined true texts ++ [']']) (.array values) := by
  -- the fuel is taken in front of the bracket
  refine (reads_allItems 2 h).bracketed Json.array fun rest offset ↦ ⟨offset + '['.utf8Size, ?_⟩
  rw [treeAround, valueStart_cons (by decide)]
  rfl

/-- An object is read where a tree may stand, if its members are read with the room inside its
brackets. -/
theorem reads_treeAround_object {inner : Reader Json} {entries : List (String × List Char)}
    {values : List (String × Json)}
    (h : List.Forall₂ (fun entry a ↦ entry.1 = a.1 ∧ Reads Ends inner entry.2 a.2)
      entries values) :
    Reads follow (treeAround (some inner))
      ('\x7b' :: joined true (entries.map memberChars) ++ ['\x7d']) (.object values) := by
  refine (reads_allMembers 2 h).bracketed Json.object fun rest offset ↦
    ⟨offset + '\x7b'.utf8Size, ?_⟩
  rw [treeAround, valueStart_cons (by decide)]
  rfl

/-- **A tree is read as it was written**, where there is room for its brackets. The induction is on
the room, as each pair of brackets takes one level of it. -/
theorem reads_tree : ∀ (depth : Nat) {value : Json}, value.Printable → value.nesting ≤ depth →
    Reads Ends (tree depth) value.compactChars value := by
  -- on the room that is left: what is inside a bracket has room for one bracket less
  intro depth
  induction depth with
  | zero =>
    intro value printable hdepth
    have scalar : value.isScalar = true := by
      cases value with
      | array items => exact absurd hdepth (by simp [nesting])
      | object members => exact absurd hdepth (by simp [nesting])
      | _ => rfl
    exact reads_treeAround_scalar (starts_compactChars printable) (reads_scalar scalar printable)
  | succ depth ih =>
    intro value printable hdepth
    by_cases scalar : value.isScalar = true
    · exact reads_treeAround_scalar (starts_compactChars printable) (reads_scalar scalar printable)
    · cases value with
      | array items =>
        rw [compactChars, compactItems_eq_joined]
        have hprintable := itemsPrintable_iff.1 printable
        have hnesting := itemsNesting_le_iff.1 (Nat.le_of_succ_le_succ hdepth)
        refine reads_treeAround_array (List.forall₂_map_left_iff.2 (List.forall₂_same.2 ?_))
        exact fun item hmem ↦ ⟨starts_compactChars (hprintable item hmem),
          ih (hprintable item hmem) (hnesting item hmem)⟩
      | object members =>
        rw [compactChars, compactMembers_eq_joined]
        have hprintable := membersPrintable_iff.1 printable
        have hnesting := membersNesting_le_iff.1 (Nat.le_of_succ_le_succ hdepth)
        refine reads_treeAround_object (List.forall₂_map_left_iff.2 (List.forall₂_same.2 ?_))
        exact fun member hmem ↦ ⟨rfl, ih (hprintable member hmem) (hnesting member hmem)⟩
      | _ => exact absurd rfl scalar

/-! ### Whole texts -/

/-- Nothing may follow at the end of a text, so a value that is read there is the whole of it. -/
theorem readAll_ofList {reader : Reader α} {chars : List Char} {a : α}
    (h : Reads Ends reader chars a) : readAll reader (String.ofList chars) = .ok a := by
  obtain ⟨behind, hbehind⟩ := h [] 0 fun ch hch ↦ absurd hch (by simp)
  rw [List.append_nil] at hbehind
  rw [readAll, Cursor.start, String.toList_ofList, hbehind]
  rfl

/-- **The text of a tree is read as that tree.** With `ofText_eq_ok_iff` this is one of many texts
of the tree. -/
theorem ofText_compact {value : Json} (printable : value.Printable)
    (h : value.nesting ≤ nestingLimit) : ofText value.compact = .ok value :=
  readAll_ofList (reads_tree nestingLimit printable h)

end AppManifest.Json
