import AppManifest.Proofs.Json.DistinctKeys
/-!
# What a tree stands for

Which value a JSON tree stands for is said by rules, one for each form of a tree
(`Json.StandsFor`), and not by a computation. The rules overlap in one place only: an object is a
reference or a field bag. It is a reference exactly if its members *spell* one
(`BlockRef.Spelled`): one `$ref` with a text, at most one `$kind` with a text or `null`, and nothing
else, in whatever order.

Two readers decide this in different ways. A value is recognised by the whole list of the members
(`BlockRef.ofMembers?_eq_some_iff`), a reference by a walk over them that fills two slots and stops
at what it does not accept (`BlockRef.absorb?`). Both come to the same
(`BlockRef.exists_absorb?_iff`).
-/

namespace AppManifest

open Json (Members membersNamed)

/-- Only a text is read as one. -/
theorem Json.string?_eq_some_iff {tree : Json} {s : String} :
    tree.string? = some s ↔ tree = .string s := by
  cases tree <;> simp [Json.string?]

namespace BlockRef

/-- What the members called `$kind` say: there is none, it is `null`, or it is a text. -/
inductive Hinted : Members → Option String → Prop where
  | absent : Hinted [] none
  | null : Hinted [("$kind", .null)] none
  | given (kind : String) : Hinted [("$kind", .string kind)] (some kind)

/-- The members spell a reference: its name stands under the one `$ref`, its hint under the only
`$kind` if there is any, and there are no others. -/
@[mk_iff]
structure Spelled (members : Members) (target : BlockRef) : Prop where
  name : membersNamed "$ref" members = [("$ref", .string target.name)]
  kind : Hinted (membersNamed "$kind" members) target.kind
  only : ∀ member ∈ members, member.1 = "$ref" ∨ member.1 = "$kind"

theorem hint?_eq_some_iff {value : Json} {kind : Option String} :
    hint? value = some kind ↔
      (kind = none ∧ value = .null) ∨ ∃ text, kind = some text ∧ value = .string text := by
  cases value <;> simp [hint?, eq_comm]

/-- The rules for `$kind` are two cases for the reader: no member of that name, or one that it
takes. -/
theorem hinted_iff {members : Members} {kind : Option String} :
    Hinted members kind ↔ (members = [] ∧ kind = none) ∨
      ∃ value, members = [("$kind", value)] ∧ hint? value = some kind := by
  constructor
  · rintro (_ | _ | kind)
    · exact Or.inl ⟨rfl, rfl⟩
    · exact Or.inr ⟨.null, rfl, rfl⟩
    · exact Or.inr ⟨.string kind, rfl, rfl⟩
  · rintro (⟨rfl, rfl⟩ | ⟨value, rfl, hvalue⟩)
    · exact .absent
    · rcases hint?_eq_some_iff.1 hvalue with ⟨rfl, rfl⟩ | ⟨text, rfl, rfl⟩
      · exact .null
      · exact .given text

theorem ofParts?_eq_some_iff {value hint : Json} {target : BlockRef} :
    ofParts? value hint = some target ↔
      value = .string target.name ∧ hint? hint = some target.kind := by
  obtain ⟨name, kind⟩ := target
  cases value <;> simp [ofParts?, and_comm]

/-- A member has one of the two names, so the members are no more than those of the two names. The
reader looks at lists of one and of two members only, and this is why that is enough. -/
theorem Spelled.length_le {members : Members} {target : BlockRef} (h : Spelled members target) :
    members.length ≤ 2 := by
  have hothers : members.filter (fun member ↦ !(member.1 == "$ref")) =
      membersNamed "$kind" members := by
    refine List.filter_congr fun member hmem ↦ ?_
    rcases h.only member hmem with hkey | hkey <;> simp [hkey]
  have hlength := List.length_eq_length_filter_add (l := members) (fun member ↦ member.1 == "$ref")
  have hhint : (membersNamed "$kind" members).length ≤ 1 := by
    rcases hinted_iff.1 h.kind with ⟨hnil, -⟩ | ⟨value, hone, -⟩
    · rw [hnil]
      exact Nat.zero_le 1
    · rw [hone]
      exact Nat.le_refl 1
  have hname := congrArg List.length h.name
  rw [membersNamed, List.length_singleton] at hname
  rw [hothers, hname] at hlength
  omega

/-- **A reference is recognised exactly where one is spelled.** The reader names the possible orders
of the members; the rules do not mention order at all. -/
theorem ofMembers?_eq_some_iff {members : Members} {target : BlockRef} :
    ofMembers? members = some target ↔ Spelled members target := by
  match members with
  | [] => exact iff_of_false (by simp [ofMembers?]) fun h ↦ absurd h.name (by simp [membersNamed])
  | [(key, value)] =>
    rw [ofMembers?, spelled_iff, hinted_iff]
    by_cases hkey : key = "$ref"
    · subst hkey
      rw [if_pos rfl, ofParts?_eq_some_iff]
      simp [membersNamed, hint?, eq_comm]
    · simp [membersNamed, hkey]
  | [(key, value), (key', value')] =>
    rw [ofMembers?, spelled_iff, hinted_iff]
    -- one name for each of the two slots, in either order
    by_cases hfirst : key = "$ref" ∧ key' = "$kind"
    · obtain ⟨rfl, rfl⟩ := hfirst
      rw [if_pos ⟨rfl, rfl⟩, ofParts?_eq_some_iff]
      simp [membersNamed]
    · rw [if_neg hfirst]
      by_cases hsecond : key = "$kind" ∧ key' = "$ref"
      · obtain ⟨rfl, rfl⟩ := hsecond
        rw [if_pos ⟨rfl, rfl⟩, ofParts?_eq_some_iff]
        simp [membersNamed]
      · rw [if_neg hsecond]
        refine iff_of_false (by simp) ?_
        rintro ⟨hname, -, honly⟩
        rcases honly (key, value) (by simp) with rfl | rfl
        · rcases honly (key', value') (by simp) with rfl | rfl
          · exact absurd hname (by simp [membersNamed])
          · exact hfirst ⟨rfl, rfl⟩
        · rcases honly (key', value') (by simp) with rfl | rfl
          · exact hsecond ⟨rfl, rfl⟩
          · exact absurd hname (by simp [membersNamed])
  | first :: second :: third :: rest =>
    refine iff_of_false (by simp [ofMembers?]) fun h ↦ ?_
    have hlength := h.length_le
    simp only [List.length_cons] at hlength
    omega

/-! ### Filling slots -/

/-- The slots for a name and for a hint, as far as they are filled. -/
abbrev Slots := Option String × Option (Option String)

/-- Put a member in the slot of its name, if the slot is empty and the value fits. -/
def absorb? (seen : Slots) (member : String × Json) : Option Slots :=
  if member.1 = "$ref" then
    if seen.1.isSome then none
    else (Json.string? member.2).map fun name ↦ (some name, seen.2)
  else if member.1 = "$kind" then
    if seen.2.isSome then none else (hint? member.2).map fun kind ↦ (seen.1, some kind)
  else none

/-- The slot of the name takes one text. A second member of that name stops the walk, whatever its
value is. -/
theorem absorb?_ref_eq_some_iff {seen last : Slots} {value : Json} :
    absorb? seen ("$ref", value) = some last ↔
      seen.1 = none ∧ ∃ name, value = .string name ∧ (some name, seen.2) = last := by
  obtain ⟨_ | name, kind?⟩ := seen <;> simp [absorb?, Json.string?_eq_some_iff]

/-- The slot of the hint takes one text or one `null`. A `null` fills it, so a second hint is
refused also then. -/
theorem absorb?_kind_eq_some_iff {seen last : Slots} {value : Json} :
    absorb? seen ("$kind", value) = some last ↔
      seen.2 = none ∧ ∃ kind, hint? value = some kind ∧ (seen.1, some kind) = last := by
  obtain ⟨name?, _ | kind⟩ := seen <;> simp [absorb?]

theorem absorb?_eq_none {key : String} (href : key ≠ "$ref") (hkind : key ≠ "$kind") (seen : Slots)
    (value : Json) : absorb? seen (key, value) = none := by
  rw [absorb?, if_neg href, if_neg hkind]

/-- The reference that the slots make, if there is a name. -/
def ofSlots? (seen : Slots) : Option BlockRef :=
  seen.1.map fun name ↦ ⟨name, seen.2.getD none⟩

/-- Members of a name leave a slot as it is, if there are none, and fill an empty one, if there is
one only. -/
inductive Fills {α : Type} (key : String) (read : Json → Option α) :
    Option α → Members → Option α → Prop where
  | kept (slot : Option α) : Fills key read slot [] slot
  | filled {value : Json} {a : α} (h : read value = some a) :
      Fills key read none [(key, value)] (some a)

section

variable {α : Type} {key : String} {read : Json → Option α} {slot last : Option α}
  {members : Members}

/-- Without members a slot stays as it is. -/
theorem fills_nil_iff : Fills key read slot [] last ↔ last = slot := by
  constructor
  · rintro (_ | _)
    rfl
  · rintro rfl
    exact .kept _

theorem fills_some_iff {a : α} :
    Fills key read (some a) members last ↔ members = [] ∧ last = some a := by
  constructor
  · rintro (_ | _)
    exact ⟨rfl, rfl⟩
  · rintro ⟨rfl, rfl⟩
    exact .kept _

theorem fills_none_iff : Fills key read none members last ↔ (members = [] ∧ last = none) ∨
    ∃ value a, members = [(key, value)] ∧ read value = some a ∧ last = some a := by
  constructor
  · rintro (_ | h)
    · exact Or.inl ⟨rfl, rfl⟩
    · exact Or.inr ⟨_, _, rfl, h, rfl⟩
  · rintro (⟨rfl, rfl⟩ | ⟨value, a, rfl, h, rfl⟩)
    · exact .kept none
    · exact .filled h

/-- The first member goes into an empty slot, and the others meet a filled one. This is one step of
the walk, seen from the slot of its name. -/
theorem fills_cons_iff {value : Json} :
    Fills key read slot ((key, value) :: members) last ↔
      slot = none ∧ ∃ a, read value = some a ∧ Fills key read (some a) members last := by
  simp only [fills_some_iff]
  constructor
  · rintro (_ | h)
    exact ⟨rfl, _, h, rfl, rfl⟩
  · rintro ⟨rfl, a, h, rfl, rfl⟩
    exact .filled h

end

/-- The slot of the name is filled by one `$ref` with a text, as the rule for references says. -/
theorem fills_name_iff {members : Members} {name : String} :
    Fills "$ref" Json.string? none members (some name) ↔ members = [("$ref", .string name)] := by
  simp [fills_none_iff, Json.string?_eq_some_iff]

/-- A hint that is `null` fills the slot and is the same as none, so the slot says more than the
reference that is made of it. -/
theorem hinted_iff_fills {members : Members} {kind : Option String} :
    Hinted members kind ↔
      ∃ kind?, Fills "$kind" hint? none members kind? ∧ kind?.getD none = kind := by
  simp only [hinted_iff, fills_none_iff]
  constructor
  · rintro (⟨hnil, rfl⟩ | ⟨value, hone, hvalue⟩)
    · exact ⟨none, Or.inl ⟨hnil, rfl⟩, rfl⟩
    · exact ⟨some kind, Or.inr ⟨value, kind, hone, hvalue, rfl⟩, rfl⟩
  · rintro ⟨_, ⟨hnil, rfl⟩ | ⟨value, kind, hone, hvalue, rfl⟩, rfl⟩
    · exact Or.inl ⟨hnil, rfl⟩
    · exact Or.inr ⟨value, hone, hvalue⟩

/-- **The walk goes through exactly if both slots take the members of their names**, and there are
no others. Members of different names do not meet, so their order does not matter. -/
theorem foldlM_absorb?_eq_some_iff {members : Members} {seen last : Slots} :
    members.foldlM absorb? seen = some last ↔
      Fills "$ref" Json.string? seen.1 (membersNamed "$ref" members) last.1 ∧
      Fills "$kind" hint? seen.2 (membersNamed "$kind" members) last.2 ∧
      ∀ member ∈ members, member.1 = "$ref" ∨ member.1 = "$kind" := by
  induction members generalizing seen with
  | nil =>
    obtain ⟨name?, kind?⟩ := seen
    obtain ⟨name'?, kind'?⟩ := last
    simp [membersNamed, fills_nil_iff, eq_comm]
  | cons member rest ih =>
    obtain ⟨key, value⟩ := member
    rw [List.foldlM_cons, Option.bind_eq_bind, Option.bind_eq_some_iff]
    simp only [ih, List.forall_mem_cons]
    by_cases href : key = "$ref"
    · subst href
      rw [Json.membersNamed_cons_self, Json.membersNamed_cons_of_ne (by decide), fills_cons_iff]
      simp only [absorb?_ref_eq_some_iff, Json.string?_eq_some_iff]
      constructor
      · rintro ⟨_, ⟨hempty, name, rfl, rfl⟩, hname, hkind, honly⟩
        exact ⟨⟨hempty, name, rfl, hname⟩, hkind, Or.inl trivial, honly⟩
      · rintro ⟨⟨hempty, name, rfl, hname⟩, hkind, -, honly⟩
        exact ⟨_, ⟨hempty, name, rfl, rfl⟩, hname, hkind, honly⟩
    · by_cases hkind : key = "$kind"
      · subst hkind
        rw [Json.membersNamed_cons_self, Json.membersNamed_cons_of_ne href, fills_cons_iff]
        simp only [absorb?_kind_eq_some_iff]
        constructor
        · rintro ⟨_, ⟨hempty, kind, hvalue, rfl⟩, hname, hkind, honly⟩
          exact ⟨hname, ⟨hempty, kind, hvalue, hkind⟩, Or.inr trivial, honly⟩
        · rintro ⟨hname, ⟨hempty, kind, hvalue, hkind⟩, -, honly⟩
          exact ⟨_, ⟨hempty, kind, hvalue, rfl⟩, hname, hkind, honly⟩
      · simp [absorb?_eq_none href hkind, href, hkind]

/-- The reference of a walk is the one that the members spell. So both readers of references agree,
although one sees the list of the members and the other one member at a time. -/
theorem bind_ofSlots?_eq_ofMembers? (members : Members) :
    (members.foldlM absorb? (none, none)).bind ofSlots? = ofMembers? members := by
  refine Option.ext fun target ↦ ?_
  rw [Option.bind_eq_some_iff, ofMembers?_eq_some_iff, spelled_iff]
  obtain ⟨name, kind⟩ := target
  simp only [foldlM_absorb?_eq_some_iff, hinted_iff_fills, ← fills_name_iff, ofSlots?,
    Option.map_eq_some_iff, BlockRef.mk.injEq]
  constructor
  · rintro ⟨⟨_, kind?⟩, ⟨hname, hkind, honly⟩, _, rfl, rfl, rfl⟩
    exact ⟨hname, ⟨kind?, hkind, rfl⟩, honly⟩
  · rintro ⟨hname, ⟨kind?, hkind, rfl⟩, honly⟩
    exact ⟨(some name, kind?), ⟨hname, hkind, honly⟩, name, rfl, rfl, rfl⟩

end BlockRef

/-! ### Whole trees -/

/-- The value that a tree stands for. An integer that does not fit 64 bits is a binary number; an
array is a list, element by element; an object whose members do not spell a reference is a field bag
that has each key once, where it stood first, with the value that stood under it last. -/
inductive Json.StandsFor : Json → Value → Prop where
  | null : StandsFor .null .null
  | bool (b : Bool) : StandsFor (.bool b) (.bool b)
  | int (i : Int64) : StandsFor (.int i.toInt) (.int i)
  | wide {n : Int} (h : ∀ i : Int64, i.toInt ≠ n) : StandsFor (.int n) (.float (Binary64.ofInt n))
  | float (x : Binary64) : StandsFor (.float x) (.float x)
  | string (s : String) : StandsFor (.string s) (.string s)
  | array {items : List Json} {values : List Value} (each : List.Forall₂ StandsFor items values) :
      StandsFor (.array items) (.list values)
  | reference {members : Members} {target : BlockRef} (h : BlockRef.Spelled members target) :
      StandsFor (.object members) (.reference target)
  | object {members : Members} {fields : Fields} (h : ∀ target, ¬ BlockRef.Spelled members target)
      (keys : Entries.keys fields = (Entries.keys members).eraseDups)
      (last : ∀ before key item after value, members = before ++ (key, item) :: after →
        key ∉ Entries.keys after → Entries.get? fields key = some value → StandsFor item value) :
      StandsFor (.object members) (.object fields)

namespace Value

theorem ofItems_eq_map (items : List Json) : ofItems items = items.map ofJson := by
  induction items with
  | nil => rfl
  | cons item rest ih => rw [ofItems, ih, List.map_cons]

/-- An integer stands for an integer of 64 bits if it is one, and for a binary number otherwise. -/
theorem standsFor_int_iff {n : Int} {value : Value} :
    (Json.int n).StandsFor value ↔ value = ofInt n := by
  by_cases hfits : Int64.minValue.toInt ≤ n ∧ n ≤ Int64.maxValue.toInt
  · obtain ⟨i, rfl⟩ : ∃ i : Int64, i.toInt = n :=
      ⟨Int64.ofInt n, Int64.toInt_ofInt_of_le hfits.1 (Int.lt_add_one_of_le hfits.2)⟩
    rw [ofInt_toInt]
    constructor
    · intro h
      generalize hn : i.toInt = n at h
      rcases h with _ | _ | j | hwide
      · rw [Int64.toInt_inj.1 hn]
      · exact absurd hn (hwide i)
    · rintro rfl
      exact .int i
  · have hwide : ∀ i : Int64, i.toInt ≠ n := by
      rintro i rfl
      exact hfits ⟨i.minValue_le_toInt, i.toInt_le⟩
    rw [ofInt, if_neg hfits]
    constructor
    · rintro (_ | _ | j | _)
      · exact absurd rfl (hwide j)
      · rfl
    · rintro rfl
      exact .wide hwide

/-- An array stands for the list of what its elements stand for, given that each of them stands for
what it is read as. -/
theorem standsFor_array_iff {items : List Json}
    (each : ∀ item ∈ items, ∀ value, item.StandsFor value ↔ value = ofJson item) (value : Value) :
    (Json.array items).StandsFor value ↔ value = .list (ofItems items) := by
  rw [ofItems_eq_map]
  constructor
  · rintro (_ | _ | _ | _ | _ | _ | hitems)
    congr 1
    induction hitems with
    | nil => rfl
    | cons hitem _ ih =>
      obtain ⟨hfirst, hrest⟩ := List.forall_mem_cons.1 each
      rw [List.map_cons, (hfirst _).1 hitem, ih hrest]
  · rintro rfl
    refine .array (List.forall₂_map_right_iff.2 (List.forall₂_same.2 fun item hmem ↦ ?_))
    exact (each item hmem _).2 rfl

/-- What is stored under a key is read from the member that was given last under it. -/
theorem get?_ofList_ofMembers (members : Members) (key : String) :
    Entries.get? (Entries.ofList (ofMembers members)) key =
      (Entries.get? (Entries.ofList members) key).map ofJson := by
  rw [Entries.get?_ofList, Entries.get?_ofList, ofMembers_eq_map, ← List.map_reverse,
    Entries.get?_map]

/-- A field bag with the keys of the members and what stands under them last is the one that stores
the members one after the other. On the right nothing is stored step by step, as in the rule for
objects. -/
theorem eq_ofList_ofMembers_iff {members : Members}
    (each : ∀ member ∈ members, ∀ value, member.2.StandsFor value ↔ value = ofJson member.2)
    {fields : Fields} :
    fields = Entries.ofList (ofMembers members) ↔
      Entries.keys fields = (Entries.keys members).eraseDups ∧
      ∀ before key item after value, members = before ++ (key, item) :: after →
        key ∉ Entries.keys after → Entries.get? fields key = some value → item.StandsFor value := by
  constructor
  · rintro rfl
    refine ⟨by rw [Entries.keys_ofList, keys_ofMembers], ?_⟩
    intro before key item after value hmembers hafter hvalue
    have hitem := Entries.get?_ofList_eq_some_iff.2 ⟨before, after, hmembers, hafter⟩
    rw [get?_ofList_ofMembers, hitem] at hvalue
    exact (each (key, item) (by simp [hmembers]) value).2 (Option.some.inj hvalue).symm
  · rintro ⟨hkeys, hlast⟩
    have hstored : fields.keys = Entries.keys (Entries.ofList members) := by
      rw [hkeys, Entries.keys_ofList]
    refine Entries.ext_get? ?_ ?_ fun key ↦ ?_
    · rw [hkeys, Entries.keys_ofList, keys_ofMembers]
    · rw [Entries.DistinctKeys, hstored]
      exact Entries.distinctKeys_ofList members
    · rw [get?_ofList_ofMembers]
      rcases hitem : Entries.get? (Entries.ofList members) key with - | item
      · rw [Entries.get?_eq_none_iff, ← hstored] at hitem
        rw [Entries.get?_eq_none_iff.2 hitem, Option.map_none]
      · rcases hvalue : Entries.get? fields key with - | value
        · rw [Entries.get?_eq_none_iff, hstored, ← Entries.get?_eq_none_iff, hitem] at hvalue
          exact absurd hvalue (by simp)
        · obtain ⟨before, after, hmembers, hafter⟩ := Entries.get?_ofList_eq_some_iff.1 hitem
          have hstands := hlast before key item after value hmembers hafter hvalue
          rw [(each (key, item) (by simp [hmembers]) value).1 hstands, Option.map_some]

/-- An object stands for a reference if its members spell one, and for a field bag otherwise. -/
theorem standsFor_object_iff {members : Members}
    (each : ∀ member ∈ members, ∀ value, member.2.StandsFor value ↔ value = ofJson member.2)
    (value : Value) :
    (Json.object members).StandsFor value ↔ value = ofJson (.object members) := by
  rcases hmembers : BlockRef.ofMembers? members with - | target
  · have hspelled : ∀ target, ¬ BlockRef.Spelled members target := by
      intro target h
      exact absurd (hmembers.symm.trans (BlockRef.ofMembers?_eq_some_iff.2 h)) (by simp)
    rw [ofJson, hmembers]
    constructor
    · intro h
      cases h with
      | reference h => exact absurd h (hspelled _)
      | object _ hkeys hlast => rw [(eq_ofList_ofMembers_iff each).2 ⟨hkeys, hlast⟩]
    · rintro rfl
      obtain ⟨hkeys, hlast⟩ := (eq_ofList_ofMembers_iff each).1 rfl
      exact .object hspelled hkeys hlast
  · have hspelled := BlockRef.ofMembers?_eq_some_iff.1 hmembers
    rw [ofJson, hmembers]
    constructor
    · intro h
      cases h with
      | reference h =>
        rw [Option.some.inj ((BlockRef.ofMembers?_eq_some_iff.2 h).symm.trans hmembers)]
      | object h => exact absurd hspelled (h target)
    · rintro rfl
      exact .reference hspelled

mutual

/-- **A tree stands for one value, which is the one it is read as.** The recursion is the one of
trees, so elements and members have statements of their own behind it. -/
theorem standsFor_iff : ∀ (tree : Json) (value : Value),
    tree.StandsFor value ↔ value = ofJson tree
  | .null, _ | .bool _, _ | .float _, _ | .string _, _ => by
    constructor
    · rintro ⟨⟩
      rfl
    · rintro rfl
      constructor
  | .int _, _ => standsFor_int_iff
  | .array items, value => standsFor_array_iff (itemsStandFor_iff items) value
  | .object members, value => standsFor_object_iff (membersStandFor_iff members) value

/-- Each element stands for what it is read as; the part of the recursion for arrays. -/
theorem itemsStandFor_iff : ∀ (items : List Json), ∀ item ∈ items, ∀ value,
    item.StandsFor value ↔ value = ofJson item
  | [] => fun _ hmem ↦ absurd hmem List.not_mem_nil
  | item :: rest => List.forall_mem_cons.2 ⟨standsFor_iff item, itemsStandFor_iff rest⟩

/-- Each member's value stands for what it is read as; the part of the recursion for objects. -/
theorem membersStandFor_iff : ∀ (members : Members), ∀ member ∈ members, ∀ value,
    member.2.StandsFor value ↔ value = ofJson member.2
  | [] => fun _ hmem ↦ absurd hmem List.not_mem_nil
  | (_, value) :: rest => List.forall_mem_cons.2 ⟨standsFor_iff value, membersStandFor_iff rest⟩

end

end Value

end AppManifest
