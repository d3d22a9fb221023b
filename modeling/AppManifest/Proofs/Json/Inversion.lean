import Mathlib.Data.List.DropRight
import AppManifest.Json.Members
import AppManifest.Json.Reader
/-!
# What a reader must have read

What is known of a text from the fact that a reader went through: a value starts with its first
character behind the white space, a string with a quote, an object with a brace. This holds of the
readers of values of any form, so two readers of the same text can be compared without knowing the
text.

Members are listed one after the other (`Listed`). A walk over them and a list of them need not be
given the same fuel; both go through if the members are fewer than the steps
(`members_eq_ok_iff`, `membersInto_eq_ok_iff`).
-/

namespace AppManifest.Json

variable {α β : Type}

/-- Two readers go through one after the other if the first does, and the second does with what the
first has found. -/
theorem bind_eq_ok {first : Except Fault α} {next : α → Except Fault β} {result : β} :
    (first >>= next) = .ok result ↔ ∃ a, first = .ok a ∧ next a = .ok result := by
  cases first with
  | ok a =>
    show next a = .ok result ↔ _
    simp
  | error fault =>
    show (Except.error fault : Except Fault β) = .ok result ↔ _
    simp

/-- What was read is turned into something else, and the place where reading stopped is the same. -/
theorem map_eq_ok_iff (f : α → β) {read : Except Fault (α × Cursor)} {b : β} {behind : Cursor} :
    (read >>= fun found ↦ .ok (f found.1, found.2)) = .ok (b, behind) ↔
      ∃ a, read = .ok (a, behind) ∧ f a = b := by
  rw [bind_eq_ok]
  constructor
  · rintro ⟨⟨a, c⟩, hread, heq⟩
    obtain ⟨rfl, rfl⟩ := Prod.mk.inj (Except.ok.inj heq)
    exact ⟨a, hread, rfl⟩
  · rintro ⟨a, hread, rfl⟩
    exact ⟨(a, behind), hread, rfl⟩

/-- A whole text is read if a value is, and if nothing but white space follows it. -/
theorem readAll_eq_ok_iff {reader : Reader α} {text : String} {a : α} :
    readAll reader text = .ok a ↔
      ∃ c, reader (.start text) = .ok (a, c) ∧ (skipBlanks c).rest = [] := by
  rw [readAll, bind_eq_ok]
  constructor
  · rintro ⟨⟨value, c⟩, hread, hend⟩
    dsimp only at hend
    split at hend
    · next hempty =>
      obtain rfl := Except.ok.inj hend
      exact ⟨c, hread, List.isEmpty_iff.1 hempty⟩
    · exact absurd hend (by simp [Cursor.faultAt])
  · rintro ⟨c, hread, hend⟩
    refine ⟨(a, c), hread, ?_⟩
    dsimp only
    rw [hend]
    rfl

/-! ### Where a value starts -/

theorem skipBlanks_skipBlanks (c : Cursor) : skipBlanks (skipBlanks c) = skipBlanks c := by
  have hnone : (c.rest.dropWhile isBlank).takeWhile isBlank = [] :=
    List.takeWhile_eq_nil_iff.2 (List.dropWhile_get_zero_not isBlank c.rest)
  simp only [skipBlanks, List.dropWhile_idempotent, hnone, List.length_nil, Nat.add_zero]

/-- A value starts behind the white space, unless the text ends there. -/
theorem valueStart_eq_ok_iff {c start : Cursor} :
    valueStart c = .ok start ↔ start = skipBlanks c ∧ start.rest ≠ [] := by
  unfold valueStart
  by_cases hend : (skipBlanks c).rest = []
  · simp only [hend, List.isEmpty_nil, if_true, Cursor.faultAt]
    exact iff_of_false (by simp) fun ⟨heq, hmore⟩ ↦ hmore (heq ▸ hend)
  · simp only [List.isEmpty_iff, hend, if_false]
    constructor
    · intro h
      obtain rfl := Except.ok.inj h
      exact ⟨rfl, hend⟩
    · rintro ⟨rfl, -⟩
      rfl

/-- Going to the start of a value once more changes nothing. Readers that call each other may both
do it. -/
theorem valueStart_of_valueStart {c start : Cursor} (h : valueStart c = .ok start) :
    valueStart start = .ok start := by
  obtain ⟨rfl, hmore⟩ := valueStart_eq_ok_iff.1 h
  exact valueStart_eq_ok_iff.2 ⟨(skipBlanks_skipBlanks c).symm, hmore⟩

theorem startsWith_singleton_iff {c : Cursor} {ch : Char} :
    c.startsWith [ch] = true ↔ ∃ more, c.rest = ch :: more := by
  unfold Cursor.startsWith
  rcases c.rest with - | ⟨first, more⟩ <;> simp

theorem fuel_skip_le (c : Cursor) : c.skip.fuel ≤ c.fuel := by
  obtain ⟨_ | ⟨ch, rest⟩, offset⟩ := c
  · exact Nat.le_refl _
  · simp only [Cursor.fuel, Cursor.skip, List.length_cons]
    omega

/-! ### Scalars -/

/-- What is read as a number is one. -/
theorem exists_number?_of_number {negative : Bool} {c behind : Cursor} {tree : Json}
    (h : number negative c = .ok (tree, behind)) : ∃ x, tree.number? = some x := by
  have hfloat : ∀ {x? : Option Binary64} {tree : Json},
      x?.map Json.float = some tree → ∃ x, tree.number? = some x := by
    intro x? tree h
    obtain ⟨x, -, rfl⟩ := Option.map_eq_some_iff.1 h
    exact ⟨x, rfl⟩
  have hwhole : ∀ {digits : List Nat} {tree : Json},
      wholeNumber? negative digits = some tree → ∃ x, tree.number? = some x := by
    intro digits tree h
    unfold wholeNumber? at h
    dsimp only at h
    split at h
    · obtain rfl := Option.some.inj h
      exact ⟨_, rfl⟩
    · split at h
      · obtain rfl := Option.some.inj h
        exact ⟨_, rfl⟩
      · exact hfloat h
  rw [number] at h
  obtain ⟨⟨whole, c₁⟩, -, h⟩ := bind_eq_ok.1 h
  obtain ⟨⟨fraction, c₂⟩, -, h⟩ := bind_eq_ok.1 h
  obtain ⟨⟨power, c₃⟩, -, h⟩ := bind_eq_ok.1 h
  dsimp only at h
  split at h
  · next value hvalue =>
    obtain rfl := (Prod.mk.inj (Except.ok.inj h)).1
    split at hvalue
    · exact hwhole hvalue
    · exact hfloat hvalue
  · exact absurd h (by simp [Cursor.faultBehind])

/-- **What is read as a scalar**: a word, a text or a number, told by the first character. The cases
are those that readers of single values tell apart. -/
theorem scalar?_cases {c behind : Cursor} {tree : Json}
    (h : scalar? c = .ok (some tree, behind)) :
    (tree = .null ∧ c.startsWith ['n'] = true ∧ word ['u', 'l', 'l'] c.skip = .ok ((), behind)) ∨
      (∃ b, tree = .bool b) ∨
      (∃ s, tree = .string s ∧ c.startsWith ['"'] = true ∧
        stringBody c.skip = .ok (s, behind)) ∨
      ∃ x, tree.number? = some x := by
  rw [scalar?] at h
  rcases hrest : c.rest with - | ⟨ch, more⟩
  · rw [hrest] at h
    exact absurd h (by simp)
  have hstarts : ∀ {first : Char}, ch = first → c.startsWith [first] = true := by
    rintro first rfl
    exact startsWith_singleton_iff.2 ⟨more, hrest⟩
  rw [hrest] at h
  dsimp only at h
  split at h
  · next hch =>
    obtain ⟨⟨⟩, hword, heq⟩ := (map_eq_ok_iff fun _ ↦ some null).1 h
    exact Or.inl ⟨(Option.some.inj heq).symm, hstarts hch, hword⟩
  split at h
  · obtain ⟨-, -, heq⟩ := (map_eq_ok_iff fun _ ↦ some (bool true)).1 h
    exact Or.inr (Or.inl ⟨true, (Option.some.inj heq).symm⟩)
  split at h
  · obtain ⟨-, -, heq⟩ := (map_eq_ok_iff fun _ ↦ some (bool false)).1 h
    exact Or.inr (Or.inl ⟨false, (Option.some.inj heq).symm⟩)
  split at h
  · obtain ⟨n, hnumber, heq⟩ := (map_eq_ok_iff some).1 h
    obtain rfl := Option.some.inj heq
    exact Or.inr (Or.inr (Or.inr (exists_number?_of_number hnumber)))
  split at h
  · obtain ⟨n, hnumber, heq⟩ := (map_eq_ok_iff some).1 h
    obtain rfl := Option.some.inj heq
    exact Or.inr (Or.inr (Or.inr (exists_number?_of_number hnumber)))
  split at h
  · next hch =>
    obtain ⟨s, hbody, heq⟩ := (map_eq_ok_iff fun s ↦ some (string s)).1 h
    exact Or.inr (Or.inr (Or.inl ⟨s, (Option.some.inj heq).symm, hstarts hch, hbody⟩))
  · exact absurd h (by simp)

theorem scalar?_eq_string_iff {c behind : Cursor} {s : String} :
    scalar? c = .ok (some (.string s), behind) ↔
      c.startsWith ['"'] = true ∧ stringBody c.skip = .ok (s, behind) := by
  constructor
  · intro h
    rcases scalar?_cases h with ⟨heq, -⟩ | ⟨b, heq⟩ | ⟨s', heq, hquote, hbody⟩ | ⟨x, hx⟩
    · exact absurd heq (by simp)
    · exact absurd heq (by simp)
    · obtain rfl := Json.string.inj heq
      exact ⟨hquote, hbody⟩
    · exact absurd hx (by simp [number?])
  · rintro ⟨hquote, hbody⟩
    obtain ⟨more, hrest⟩ := startsWith_singleton_iff.1 hquote
    rw [scalar?, hrest]
    exact bind_eq_ok.2 ⟨_, hbody, rfl⟩

theorem scalar?_eq_null_iff {c behind : Cursor} :
    scalar? c = .ok (some .null, behind) ↔
      c.startsWith ['n'] = true ∧ word ['u', 'l', 'l'] c.skip = .ok ((), behind) := by
  constructor
  · intro h
    rcases scalar?_cases h with ⟨-, hword⟩ | ⟨b, heq⟩ | ⟨s', heq, -⟩ | ⟨x, hx⟩
    · exact hword
    · exact absurd heq (by simp)
    · exact absurd heq (by simp)
    · exact absurd hx (by simp [number?])
  · rintro ⟨hletter, hword⟩
    obtain ⟨more, hrest⟩ := startsWith_singleton_iff.1 hletter
    rw [scalar?, hrest]
    exact bind_eq_ok.2 ⟨_, hword, rfl⟩

/-- No scalar starts with a bracket, and then nothing is consumed. -/
theorem scalar?_of_bracket {c : Cursor} {bracket : Char} (h : c.startsWith [bracket] = true)
    (hbracket : bracket = '[' ∨ bracket = '\x7b') : scalar? c = .ok (none, c) := by
  obtain ⟨more, hrest⟩ := startsWith_singleton_iff.1 h
  rw [scalar?, hrest]
  rcases hbracket with rfl | rfl <;> rfl

/-- A value that does not have the form of its place is never accepted; the reader goes through it
for the error only. -/
theorem mismatch_ne_ok {expected : String} {c : Cursor} {a : α} :
    mismatch expected c ≠ .ok a := by
  rw [mismatch]
  rcases scalar? c with fault | ⟨- | found, behind⟩
  · simp
  · dsimp only
    split
    · simp [Cursor.faultBehind]
    · split <;> simp [Cursor.faultBehind, Cursor.faultAt]
  · simp [Cursor.faultBehind]

/-! ### Trees -/

/-- Where no scalar starts nothing is consumed. -/
theorem eq_of_scalar?_eq_none {c behind : Cursor} (h : scalar? c = .ok (none, behind)) :
    behind = c := by
  have hsome : ∀ {α : Type} (f : α → Json) {read : Except Fault (α × Cursor)},
      (read >>= fun found ↦ .ok (some (f found.1), found.2)) ≠ .ok (none, behind) := by
    intro α f read h
    obtain ⟨a, -, ha⟩ := (map_eq_ok_iff fun a ↦ some (f a)).1 h
    exact absurd ha (by simp)
  rw [scalar?] at h
  split at h
  · exact (Prod.mk.inj (Except.ok.inj h)).2.symm
  split at h
  · exact absurd h (hsome fun _ ↦ null)
  split at h
  · exact absurd h (hsome fun _ ↦ bool true)
  split at h
  · exact absurd h (hsome fun _ ↦ bool false)
  split at h
  · exact absurd h (hsome id)
  split at h
  · exact absurd h (hsome id)
  split at h
  · exact absurd h (hsome string)
  · exact (Prod.mk.inj (Except.ok.inj h)).2.symm

/-- How a tree is read from where it starts: as a scalar, or as what stands between brackets, if
there is room for them. -/
inductive TreeFrom : Nat → Cursor → Json → Cursor → Prop where
  | scalar {depth : Nat} {start behind : Cursor} {found : Json}
      (h : scalar? start = .ok (some found, behind)) : TreeFrom depth start found behind
  | array {depth : Nat} {start closing : Cursor} {elements : List Json}
      (opens : start.startsWith ['['] = true)
      (h : items (tree depth) start.fuel true start.skip = .ok (elements, closing)) :
      TreeFrom (depth + 1) start (.array elements) closing.skip
  | object {depth : Nat} {start closing : Cursor} {pairs : Members}
      (opens : start.startsWith ['\x7b'] = true)
      (h : members (tree depth) start.fuel true start.skip = .ok (pairs, closing)) :
      TreeFrom (depth + 1) start (.object pairs) closing.skip

/-- **What is read as a tree** is read from where it starts, as a scalar or between brackets. -/
theorem tree_eq_ok_iff {depth : Nat} {c behind : Cursor} {found : Json} :
    tree depth c = .ok (found, behind) ↔
      ∃ start, valueStart c = .ok start ∧ TreeFrom depth start found behind := by
  constructor
  · intro h
    rcases depth with - | depth
    · obtain ⟨start, hstart, hrest⟩ := bind_eq_ok.1 h
      obtain ⟨⟨- | scalar, middle⟩, hscalar, hend⟩ := bind_eq_ok.1 hrest
      · exact absurd hend (by simp [Cursor.faultAt])
      · obtain ⟨rfl, rfl⟩ := Prod.mk.inj (Except.ok.inj hend)
        exact ⟨start, hstart, .scalar hscalar⟩
    · obtain ⟨start, hstart, hrest⟩ := bind_eq_ok.1 h
      obtain ⟨⟨- | scalar, middle⟩, hscalar, hend⟩ := bind_eq_ok.1 hrest
      · obtain rfl := eq_of_scalar?_eq_none hscalar
        refine ⟨middle, hstart, ?_⟩
        dsimp only at hend
        split at hend
        · next opens =>
          obtain ⟨⟨elements, closing⟩, hitems, hfound⟩ := bind_eq_ok.1 hend
          obtain ⟨rfl, rfl⟩ := Prod.mk.inj (Except.ok.inj hfound)
          exact .array opens hitems
        · split at hend
          · next opens =>
            obtain ⟨⟨pairs, closing⟩, hmembers, hfound⟩ := bind_eq_ok.1 hend
            obtain ⟨rfl, rfl⟩ := Prod.mk.inj (Except.ok.inj hfound)
            exact .object opens hmembers
          · exact absurd hend (by simp [Cursor.faultAt])
      · obtain ⟨rfl, rfl⟩ := Prod.mk.inj (Except.ok.inj hend)
        exact ⟨start, hstart, .scalar hscalar⟩
  · rintro ⟨start, hstart, h⟩
    cases h with
    | scalar hscalar =>
      cases depth with
      | zero => exact bind_eq_ok.2 ⟨start, hstart, bind_eq_ok.2 ⟨_, hscalar, rfl⟩⟩
      | succ depth => exact bind_eq_ok.2 ⟨start, hstart, bind_eq_ok.2 ⟨_, hscalar, rfl⟩⟩
    | @array depth _ closing elements opens hitems =>
      have hscalar := scalar?_of_bracket opens (Or.inl rfl)
      refine bind_eq_ok.2 ⟨start, hstart, bind_eq_ok.2 ⟨_, hscalar, ?_⟩⟩
      dsimp only
      rw [if_pos opens]
      exact bind_eq_ok.2 ⟨_, hitems, rfl⟩
    | @object depth _ closing pairs opens hmembers =>
      have hlist : start.startsWith ['['] ≠ true := by
        obtain ⟨more, hrest⟩ := startsWith_singleton_iff.1 opens
        simp [Cursor.startsWith, hrest]
      have hscalar := scalar?_of_bracket opens (Or.inr rfl)
      refine bind_eq_ok.2 ⟨start, hstart, bind_eq_ok.2 ⟨_, hscalar, ?_⟩⟩
      dsimp only
      rw [if_neg hlist, if_pos opens]
      exact bind_eq_ok.2 ⟨_, hmembers, rfl⟩

/-! ### Texts, `null` and objects -/

section

variable {depth : Nat} {c behind : Cursor}

theorem tree_eq_string_iff {s : String} :
    tree depth c = .ok (.string s, behind) ↔ ∃ start, valueStart c = .ok start ∧
      start.startsWith ['"'] = true ∧ stringBody start.skip = .ok (s, behind) := by
  simp only [tree_eq_ok_iff, ← scalar?_eq_string_iff]
  constructor
  · rintro ⟨start, hstart, ⟨hscalar⟩⟩
    exact ⟨start, hstart, hscalar⟩
  · rintro ⟨start, hstart, hscalar⟩
    exact ⟨start, hstart, .scalar hscalar⟩

theorem tree_eq_null_iff :
    tree depth c = .ok (.null, behind) ↔ ∃ start, valueStart c = .ok start ∧
      start.startsWith ['n'] = true ∧ word ['u', 'l', 'l'] start.skip = .ok ((), behind) := by
  simp only [tree_eq_ok_iff, ← scalar?_eq_null_iff]
  constructor
  · rintro ⟨start, hstart, ⟨hscalar⟩⟩
    exact ⟨start, hstart, hscalar⟩
  · rintro ⟨start, hstart, hscalar⟩
    exact ⟨start, hstart, .scalar hscalar⟩

/-- A tree is an object exactly if its members stand between braces and there is room for these. -/
theorem tree_eq_object_iff {found : Members} :
    tree depth c = .ok (.object found, behind) ↔ ∃ start, valueStart c = .ok start ∧
      start.startsWith ['\x7b'] = true ∧ depth ≠ 0 ∧ ∃ closing,
        members (tree (depth - 1)) start.fuel true start.skip = .ok (found, closing) ∧
          behind = closing.skip := by
  rw [tree_eq_ok_iff]
  constructor
  · rintro ⟨start, hstart, h⟩
    rcases h with hscalar | _ | ⟨opens, hmembers⟩
    · rcases scalar?_cases hscalar with ⟨heq, -⟩ | ⟨b, heq⟩ | ⟨s, heq, -⟩ | ⟨x, hx⟩
      · exact absurd heq (by simp)
      · exact absurd heq (by simp)
      · exact absurd heq (by simp)
      · exact absurd hx (by simp [number?])
    · exact ⟨start, hstart, opens, Nat.succ_ne_zero _, _, hmembers, rfl⟩
  · rintro ⟨start, hstart, opens, hdepth, closing, hmembers, rfl⟩
    obtain ⟨room, rfl⟩ := Nat.exists_eq_succ_of_ne_zero hdepth
    exact ⟨start, hstart, .object opens hmembers⟩

variable (depth) in
/-- A text is read where the tree of a text is. -/
theorem stringValue_eq_ok_iff {s : String} :
    stringValue c = .ok (s, behind) ↔ tree depth c = .ok (.string s, behind) := by
  rw [tree_eq_string_iff, stringValue, bind_eq_ok]
  refine exists_congr fun start ↦ and_congr_right fun _ ↦ ?_
  by_cases hquote : start.startsWith ['"'] = true
  · rw [if_pos hquote, and_iff_right hquote]
  · rw [if_neg hquote]
    exact iff_of_false mismatch_ne_ok fun h ↦ hquote h.1

/-- It does not matter whether the white space in front of a tree was passed over before. -/
theorem tree_of_valueStart {start : Cursor} (h : valueStart c = .ok start) :
    tree depth start = tree depth c := by
  cases depth <;> simp only [tree, treeAround, h, valueStart_of_valueStart h]

variable (depth) in
/-- A text or `null` is read where the tree of one of them is. -/
theorem optionalString_eq_ok_iff {text : Option String} :
    optionalString c = .ok (text, behind) ↔
      (text = none ∧ tree depth c = .ok (.null, behind)) ∨
        ∃ s, text = some s ∧ tree depth c = .ok (.string s, behind) := by
  rw [optionalString, bind_eq_ok]
  constructor
  · rintro ⟨start, hstart, h⟩
    split at h
    · next hletter =>
      obtain ⟨⟨⟩, hword, rfl⟩ := (map_eq_ok_iff fun _ ↦ none).1 h
      exact Or.inl ⟨rfl, tree_eq_null_iff.2 ⟨start, hstart, hletter, hword⟩⟩
    · obtain ⟨s, hs, rfl⟩ := (map_eq_ok_iff some).1 h
      rw [stringValue_eq_ok_iff depth, tree_of_valueStart hstart] at hs
      exact Or.inr ⟨s, rfl, hs⟩
  · rintro (⟨rfl, h⟩ | ⟨s, rfl, h⟩)
    · obtain ⟨start, hstart, hletter, hword⟩ := tree_eq_null_iff.1 h
      refine ⟨start, hstart, ?_⟩
      rw [if_pos hletter]
      exact (map_eq_ok_iff fun _ ↦ none).2 ⟨(), hword, rfl⟩
    · obtain ⟨start, hstart, hquote, -⟩ := tree_eq_string_iff.1 h
      have hletter : start.startsWith ['n'] ≠ true := by
        obtain ⟨more, hrest⟩ := startsWith_singleton_iff.1 hquote
        simp [Cursor.startsWith, hrest]
      refine ⟨start, hstart, ?_⟩
      rw [if_neg hletter]
      rw [← tree_of_valueStart hstart, ← stringValue_eq_ok_iff depth] at h
      exact (map_eq_ok_iff some).2 ⟨s, h, rfl⟩

end

/-! ### Members -/

/-- Members stand one after the other up to the closing bracket, each with its key, a colon and its
value. -/
inductive Listed (value : Reader α) : Bool → Cursor → List (String × α) → Cursor → Prop where
  | nil {first : Bool} {c closing : Cursor} (key : nextKey first c = .ok (none, closing)) :
      Listed value first c [] closing
  | cons {first : Bool} {c mark start behind closing : Cursor} {name : String} {a : α}
      {rest : List (String × α)} (key : nextKey first c = .ok (some name, mark))
      (colon : colon mark = .ok start) (read : value start = .ok (a, behind))
      (more : Listed value false behind rest closing) :
      Listed value first c ((name, a) :: rest) closing

/-- There is a closing bracket at least, so an object cannot end with the text. -/
theorem Listed.rest_ne_nil {value : Reader α} {first : Bool} {c closing : Cursor}
    {found : List (String × α)} (h : Listed value first c found closing) : c.rest ≠ [] := by
  intro hempty
  have hfault : nextKey first c = (skipBlanks c).faultAt .endInObject := by
    simp [nextKey, skipBlanks, hempty]
  rcases h with hkey | ⟨hkey, -, -, -⟩
  · exact absurd (hfault.symm.trans hkey) (by simp [Cursor.faultAt])
  · exact absurd (hfault.symm.trans hkey) (by simp [Cursor.faultAt])

/-- **A list of members is read if there are steps enough**: one for each of them and one for the
bracket. `Listed` knows nothing of steps, so lists that were read with different numbers of them can
be compared. -/
theorem members_eq_ok_iff {value : Reader α} {fuel : Nat} {first : Bool} {c closing : Cursor}
    {found : List (String × α)} :
    members value fuel first c = .ok (found, closing) ↔
      Listed value first c found closing ∧ found.length < fuel := by
  induction fuel generalizing first c found with
  | zero => exact iff_of_false (by simp [members, Cursor.faultAt]) fun h ↦ Nat.not_lt_zero _ h.2
  | succ fuel ih =>
    rw [members, bind_eq_ok]
    constructor
    · rintro ⟨⟨- | name, mark⟩, hkey, h⟩
      · obtain ⟨rfl, rfl⟩ := Prod.mk.inj (Except.ok.inj h)
        exact ⟨.nil hkey, Nat.succ_pos _⟩
      · obtain ⟨start, hcolon, h⟩ := bind_eq_ok.1 h
        obtain ⟨⟨a, behind⟩, hread, h⟩ := bind_eq_ok.1 h
        obtain ⟨rest, hrest, rfl⟩ := (map_eq_ok_iff fun rest ↦ (name, a) :: rest).1 h
        obtain ⟨hlisted, hlength⟩ := ih.1 hrest
        exact ⟨.cons hkey hcolon hread hlisted, Nat.succ_lt_succ hlength⟩
    · rintro ⟨hlisted, hlength⟩
      rcases hlisted with hkey | ⟨hkey, hcolon, hread, hmore⟩
      · exact ⟨_, hkey, rfl⟩
      · refine ⟨_, hkey, bind_eq_ok.2 ⟨_, hcolon, bind_eq_ok.2 ⟨_, hread, ?_⟩⟩⟩
        exact bind_eq_ok.2 ⟨_, ih.2 ⟨hmore, Nat.lt_of_succ_lt_succ hlength⟩, rfl⟩

/-- **A walk over members goes through exactly if they are listed and each of them is taken**, where
a member is taken by its key and its value. -/
theorem membersInto_eq_ok_iff {σ : Type} {member : σ → String → Reader σ} {value : Reader α}
    {take? : σ → String × α → Option σ}
    (takes : ∀ s name mark last behind, member s name mark = .ok (last, behind) ↔
      ∃ start a, colon mark = .ok start ∧ value start = .ok (a, behind) ∧
        take? s (name, a) = some last)
    {fuel : Nat} {first : Bool} {s last : σ} {c closing : Cursor} :
    membersInto member fuel first s c = .ok (last, closing) ↔
      ∃ found, Listed value first c found closing ∧ found.length < fuel ∧
        found.foldlM take? s = some last := by
  induction fuel generalizing first s c with
  | zero =>
    exact iff_of_false (by simp [membersInto, Cursor.faultAt])
      fun ⟨_, _, h, _⟩ ↦ Nat.not_lt_zero _ h
  | succ fuel ih =>
    rw [membersInto, bind_eq_ok]
    constructor
    · rintro ⟨⟨- | name, mark⟩, hkey, h⟩
      · obtain ⟨rfl, rfl⟩ := Prod.mk.inj (Except.ok.inj h)
        exact ⟨[], .nil hkey, Nat.succ_pos _, rfl⟩
      · obtain ⟨⟨middle, behind⟩, hmember, h⟩ := bind_eq_ok.1 h
        obtain ⟨start, a, hcolon, hread, htake⟩ := (takes ..).1 hmember
        obtain ⟨rest, hlisted, hlength, hrest⟩ := ih.1 h
        refine ⟨(name, a) :: rest, .cons hkey hcolon hread hlisted, Nat.succ_lt_succ hlength, ?_⟩
        rw [List.foldlM_cons, htake]
        exact hrest
    · rintro ⟨found, hlisted, hlength, htaken⟩
      rcases hlisted with hkey | ⟨hkey, hcolon, hread, hmore⟩
      · obtain rfl := Option.some.inj htaken
        exact ⟨_, hkey, rfl⟩
      · rw [List.foldlM_cons, Option.bind_eq_bind, Option.bind_eq_some_iff] at htaken
        obtain ⟨middle, htake, hrest⟩ := htaken
        refine ⟨_, hkey, bind_eq_ok.2 ⟨_, (takes ..).2 ⟨_, _, hcolon, hread, htake⟩, ?_⟩⟩
        exact ih.2 ⟨_, hmore, Nat.lt_of_succ_lt_succ hlength, hrest⟩

end AppManifest.Json
