import AppManifest.Proofs.Json.Scalars
/-!
# Elements and members are read one after the other

Between brackets stand texts with commas between them (`joined`). If a reader reads each of the
texts, then elements and members are read in their order (`reads_items`, `reads_membersInto`),
whatever the reader is: one of trees, or one of values of a known form. With the brackets around
them (`Reads.bracketed`) this is `reads_listOf` and `reads_objectOf`.

Members that change a state, each in its own way, are the general case (`Takes`); members with
values of one form are collected in a list (`collect`).

The loops take fuel, and a step is paid for by the characters it consumes: each text starts with
something (`Starts`).
-/

namespace AppManifest.Json

variable {α : Type} {follow : List Char → Prop}

/-! ### Where a value starts -/

/-- A text that starts with something that is neither white space nor a closing bracket. -/
def Starts (text : List Char) : Prop :=
  ∃ ch more, text = ch :: more ∧ isBlank ch = false ∧ ch ≠ ']'

theorem skipBlanks_cons {ch : Char} (h : isBlank ch = false) (more : List Char) (offset : Nat) :
    skipBlanks ⟨ch :: more, offset⟩ = ⟨ch :: more, offset⟩ := by
  simp [skipBlanks, h]

theorem valueStart_cons {ch : Char} (h : isBlank ch = false) (more : List Char) (offset : Nat) :
    valueStart ⟨ch :: more, offset⟩ = .ok ⟨ch :: more, offset⟩ := by
  rw [valueStart, skipBlanks_cons h]
  rfl

theorem valueStart_of_starts {text : List Char} (starts : Starts text) (rest : List Char)
    (offset : Nat) : valueStart ⟨text ++ rest, offset⟩ = .ok ⟨text ++ rest, offset⟩ := by
  obtain ⟨ch, more, rfl, hblank, -⟩ := starts
  exact valueStart_cons hblank (more ++ rest) offset

/-- A text that starts with something is not empty, so each element pays for one step of the loop.
-/
theorem Starts.length_pos {text : List Char} (starts : Starts text) : 0 < text.length := by
  obtain ⟨ch, more, rfl, -⟩ := starts
  exact Nat.succ_pos _

theorem starts_signed {parts : NumberParts} (h : parts.WellFormed) (negative : Bool) :
    Starts (Binary64.signChars negative ++ parts.chars) := by
  have hdigit : ∀ d < 10, isBlank d.digitChar = false ∧ d.digitChar ≠ ']' := by decide
  cases negative with
  | true => exact ⟨'-', parts.chars, rfl, by decide, by decide⟩
  | false =>
    obtain ⟨d, more, hd, hchars⟩ := h.exists_chars_eq
    obtain ⟨hblank, hclosing⟩ := hdigit d hd
    exact ⟨d.digitChar, more, hchars, hblank, hclosing⟩

/-- The text of a tree starts with something, so white space is never needed between values. -/
theorem starts_compactChars {tree : Json} (printable : tree.Printable) :
    Starts tree.compactChars := by
  cases tree with
  | null => exact ⟨'n', _, rfl, by decide, by decide⟩
  | bool b =>
    cases b with
    | true => exact ⟨'t', _, rfl, by decide, by decide⟩
    | false => exact ⟨'f', _, rfl, by decide, by decide⟩
  | int n =>
    rw [compactChars_int]
    exact starts_signed (wellFormed_wholeParts _) _
  | float x =>
    obtain ⟨negative, magnitude, rfl⟩ := Binary64.exists_eq_finite printable
    obtain ⟨parts, hspells, htext⟩ := exists_spells_shortest magnitude
    rw [compactChars, htext]
    exact starts_signed hspells.wellFormed negative
  | string s => exact ⟨'"', _, rfl, by decide, by decide⟩
  | array items => exact ⟨'[', _, rfl, by decide, by decide⟩
  | object members => exact ⟨'\x7b', _, rfl, by decide, by decide⟩

/-! ### Texts with commas between them -/

/-- What stands in front of an element or a member: a comma, unless it is the first. -/
def lead (first : Bool) : List Char := if first then [] else [',']

/-- Texts, each with a comma in front of it unless it is the first. -/
def joined : Bool → List (List Char) → List Char
  | _, [] => []
  | first, text :: rest => lead first ++ (text ++ joined false rest)

/-- The closing bracket follows. -/
def Closes (bracket : Char) (rest : List Char) : Prop := ∃ more, rest = bracket :: more

/-- Behind one of the texts stands a comma, or a closing bracket. Numbers end in front of both,
which is all that has to be known of what follows a value. -/
theorem ends_joined {bracket : Char} (hbracket : bracket = ']' ∨ bracket = '\x7d')
    (texts : List (List Char)) {rest : List Char} (hrest : Closes bracket rest) :
    Ends (joined false texts ++ rest) := by
  obtain ⟨more, rfl⟩ := hrest
  intro ch hch
  cases texts with
  | nil =>
    obtain rfl : bracket = ch := Option.some.inj hch
    exact Or.inr hbracket
  | cons text texts =>
    obtain rfl : ',' = ch := Option.some.inj hch
    exact Or.inl rfl

/-! ### Elements -/

theorem nextItem_closing (first : Bool) (rest : List Char) (offset : Nat) :
    nextItem first ⟨']' :: rest, offset⟩ = .ok (false, ⟨']' :: rest, offset⟩) := by
  rw [nextItem, skipBlanks_cons (by decide)]
  rfl

/-- An element follows, with the comma that belongs in front of it. -/
theorem exists_nextItem {text : List Char} (starts : Starts text) (first : Bool) (rest : List Char)
    (offset : Nat) : ∃ start, nextItem first ⟨lead first ++ (text ++ rest), offset⟩ =
      .ok (true, ⟨text ++ rest, start⟩) := by
  obtain ⟨ch, more, rfl, hblank, hclosing⟩ := starts
  cases first with
  | true =>
    refine ⟨offset, ?_⟩
    show nextItem true ⟨ch :: (more ++ rest), offset⟩ = _
    rw [nextItem, skipBlanks_cons hblank]
    simp [Cursor.startsWith, hclosing]
  | false =>
    refine ⟨offset + ','.utf8Size, ?_⟩
    show nextItem false ⟨',' :: ch :: (more ++ rest), offset⟩ = _
    rw [nextItem, skipBlanks_cons (by decide)]
    simp [Cursor.startsWith, Cursor.skip, skipBlanks_cons hblank, hclosing]

/-- One step of the loop over elements: the element is read, and the others behind it. -/
theorem items_cons {item : Reader α} {fuel : Nat} {first : Bool} {a : α} {as : List α}
    {c start behind last : Cursor} (hnext : nextItem first c = .ok (true, start))
    (hitem : item start = .ok (a, behind)) (hmore : items item fuel false behind = .ok (as, last)) :
    items item (fuel + 1) first c = .ok (a :: as, last) := by
  simp only [items, hnext, hitem, hmore, bind, Except.bind, if_true]

/-- **Elements are read one after the other**, up to the closing bracket. By induction along the
texts; each of them takes one step and at least one character. -/
theorem reads_items {item : Reader α} {texts : List (List Char)} {as : List α}
    (h : List.Forall₂ (fun text a ↦ Starts text ∧ Reads Ends item text a) texts as) :
    ∀ {fuel : Nat} {first : Bool}, (joined first texts).length < fuel →
      Reads (Closes ']') (items item fuel first) (joined first texts) as := by
  -- on the elements; each of them has a character at least, which pays for its step
  induction h with
  | nil =>
    rintro (_ | fuel) first hfuel rest offset ⟨more, rfl⟩
    · exact absurd hfuel (Nat.not_lt_zero _)
    · refine ⟨offset, ?_⟩
      show items item (fuel + 1) first ⟨']' :: more, offset⟩ = _
      rw [items, nextItem_closing]
      rfl
  | @cons text a texts as hhead _ ih =>
    rintro (_ | fuel) first hfuel rest offset hrest
    · exact absurd hfuel (Nat.not_lt_zero _)
    · obtain ⟨hstarts, hreads⟩ := hhead
      have hfuel' : (joined false texts).length < fuel := by
        have hpos := hstarts.length_pos
        simp only [joined, List.length_append] at hfuel
        omega
      obtain ⟨start, hstart⟩ := exists_nextItem hstarts first (joined false texts ++ rest) offset
      obtain ⟨middle, hmiddle⟩ := hreads _ start (ends_joined (Or.inl rfl) texts hrest)
      obtain ⟨behind, hbehind⟩ := ih hfuel' rest middle hrest
      refine ⟨behind, ?_⟩
      rw [joined, List.append_assoc, List.append_assoc]
      exact items_cons hstart hmiddle hbehind

/-! ### Members -/

/-- A key, a colon and the text of a value. -/
def memberChars (entry : String × List Char) : List Char := stringChars entry.1 ++ ':' :: entry.2

theorem nextKey_closing (first : Bool) (rest : List Char) (offset : Nat) :
    nextKey first ⟨'\x7d' :: rest, offset⟩ = .ok (none, ⟨'\x7d' :: rest, offset⟩) := by
  rw [nextKey, skipBlanks_cons (by decide)]
  rfl

/-- A key is read with the comma that belongs in front of it. -/
theorem reads_nextKey (first : Bool) (key : String) :
    Reads Anything (nextKey first) (lead first ++ stringChars key) (some key) := by
  have hbody := (reads_stringBody key).map some
  cases first with
  | true =>
    refine hbody.past (p := ['"']) fun rest offset ↦ ⟨offset + '"'.utf8Size, ?_⟩
    rw [List.singleton_append, nextKey, skipBlanks_cons (by decide)]
    rfl
  | false =>
    refine hbody.past (p := [',', '"']) fun rest offset ↦
      ⟨offset + ','.utf8Size + '"'.utf8Size, ?_⟩
    have hquote : skipBlanks (Cursor.skip ⟨',' :: '"' :: rest, offset⟩) =
        ⟨'"' :: rest, offset + ','.utf8Size⟩ := skipBlanks_cons (by decide) rest _
    rw [List.cons_append, List.singleton_append, nextKey, skipBlanks_cons (by decide)]
    dsimp only
    rw [hquote]
    rfl

theorem colon_cons (rest : List Char) (offset : Nat) :
    colon ⟨':' :: rest, offset⟩ = .ok ⟨rest, offset + ':'.utf8Size⟩ := by
  rw [colon, skipBlanks_cons (by decide)]
  rfl

section State

variable {σ : Type} {member : σ → String → Reader σ}

/-- Members, each of which is read behind its key, take one state to another. -/
inductive Takes (member : σ → String → Reader σ) : List (String × List Char) → σ → σ → Prop where
  | nil (s : σ) : Takes member [] s s
  | cons {key : String} {text : List Char} {rest : List (String × List Char)} {s middle last : σ}
      (first : Reads Ends (member s key) (':' :: text) middle)
      (more : Takes member rest middle last) :
      Takes member ((key, text) :: rest) s last

/-- One step of the loop over members: the key is read, the state is changed by the member, and the
others follow. -/
theorem membersInto_cons {fuel : Nat} {first : Bool} {key : String} {s middle : σ}
    {c mark behind : Cursor} {result : Except Fault (σ × Cursor)}
    (hkey : nextKey first c = .ok (some key, mark))
    (hmember : member s key mark = .ok (middle, behind))
    (hmore : membersInto member fuel false middle behind = result) :
    membersInto member (fuel + 1) first s c = result := by
  simp only [membersInto, hkey, hmember, hmore, bind, Except.bind]

/-- **Members change a state one after the other**, up to the closing bracket. What a member may be
depends on the state, so the members are given together with the states between them. -/
theorem reads_membersInto {entries : List (String × List Char)} {s last : σ}
    (h : Takes member entries s last) :
    ∀ {fuel : Nat} {first : Bool}, (joined first (entries.map memberChars)).length < fuel →
      Reads (Closes '\x7d') (membersInto member fuel first s)
        (joined first (entries.map memberChars)) last := by
  -- on the members; each of them has a character at least, which pays for its step
  induction h with
  | nil s =>
    rintro (_ | fuel) first hfuel rest offset ⟨more, rfl⟩
    · exact absurd hfuel (Nat.not_lt_zero _)
    · refine ⟨offset, ?_⟩
      show membersInto member (fuel + 1) first s ⟨'\x7d' :: more, offset⟩ = _
      rw [membersInto, nextKey_closing]
      rfl
  | @cons key text entries s middle last hhead _ ih =>
    rintro (_ | fuel) first hfuel rest offset hrest
    · exact absurd hfuel (Nat.not_lt_zero _)
    · have hfuel' : (joined false (entries.map memberChars)).length < fuel := by
        simp only [List.map_cons, joined, memberChars, List.length_append, List.length_cons]
          at hfuel
        omega
      have htext : joined first (((key, text) :: entries).map memberChars) ++ rest =
          lead first ++ stringChars key ++
            (':' :: text ++ (joined false (entries.map memberChars) ++ rest)) := by
        simp [joined, memberChars]
      obtain ⟨mark, hmark⟩ := reads_nextKey first key
        (':' :: text ++ (joined false (entries.map memberChars) ++ rest)) offset trivial
      obtain ⟨next, hnext⟩ :=
        hhead _ mark (ends_joined (Or.inr rfl) (entries.map memberChars) hrest)
      obtain ⟨behind, hbehind⟩ := ih hfuel' rest next hrest
      refine ⟨behind, ?_⟩
      rw [htext]
      exact membersInto_cons hmark hnext hbehind

end State

/-! ### Members with values of one form -/

/-- Put a member behind those that were read already. -/
def collect (value : Reader α) (done : List (String × α)) (key : String) :
    Reader (List (String × α)) := fun c ↦ do
  let c ← colon c
  let (v, c) ← value c
  .ok (done ++ [(key, v)], c)

/-- Members with values of one form change a state too, which is the list of them. So what is known
of changes of a state holds of the loop that collects members. -/
theorem membersInto_collect (value : Reader α) (fuel : Nat) (first : Bool)
    (done : List (String × α)) (c : Cursor) :
    membersInto (collect value) fuel first done c = (do
      let (more, c) ← members value fuel first c
      .ok (done ++ more, c)) := by
  induction fuel generalizing first done c with
  | zero => rfl
  | succ fuel ih =>
    rw [membersInto, members]
    rcases nextKey first c with fault | ⟨- | key, mark⟩
    · rfl
    · show Except.ok (done, mark) = Except.ok (done ++ [], mark)
      rw [List.append_nil]
    · simp only [collect, bind, Except.bind]
      rcases colon mark with fault | start
      · rfl
      · simp only
        rcases value start with fault | ⟨v, behind⟩
        · rfl
        · simp only [ih, bind, Except.bind]
          rcases members value fuel false behind with fault | ⟨more, last⟩
          · rfl
          · simp

theorem takes_collect {value : Reader α} {entries : List (String × List Char)}
    {as : List (String × α)}
    (h : List.Forall₂ (fun entry a ↦ entry.1 = a.1 ∧ Reads Ends value entry.2 a.2) entries as)
    (done : List (String × α)) : Takes (collect value) entries done (done ++ as) := by
  induction h generalizing done with
  | nil =>
    rw [List.append_nil]
    exact .nil done
  | @cons entry a entries as hhead _ ih =>
    obtain ⟨key, text⟩ := entry
    obtain ⟨key', a⟩ := a
    obtain ⟨rfl, hreads⟩ := hhead
    have hfirst : Reads Ends (collect value done key) (':' :: text) (done ++ [(key, a)]) := by
      have hread := hreads.map fun v ↦ done ++ [(key, v)]
      refine hread.past (p := [':']) fun rest offset ↦ ⟨offset + ':'.utf8Size, ?_⟩
      rw [List.singleton_append, collect, colon_cons]
      rfl
    have hmore := ih (done ++ [(key, a)])
    rw [List.append_assoc, List.singleton_append] at hmore
    exact .cons hfirst hmore

/-! ### With brackets around them -/

/-- **What is read up to a closing bracket is read with both brackets.** Anything may follow then,
since the value is closed. -/
theorem Reads.bracketed {β : Type} {reader : Reader β} {inner : Reader α} {opening closing : Char}
    {chars : List Char} {a : α} (h : Reads (Closes closing) inner chars a) (f : α → β)
    (heq : ∀ rest offset, ∃ middle, reader ⟨opening :: rest, offset⟩ =
      inner ⟨rest, middle⟩ >>= fun read ↦ .ok (f read.1, read.2.skip)) :
    Reads follow reader (opening :: chars ++ [closing]) (f a) := by
  intro rest offset _
  obtain ⟨middle, hmiddle⟩ := heq (chars ++ closing :: rest) offset
  obtain ⟨behind, hbehind⟩ := h (closing :: rest) middle ⟨rest, rfl⟩
  refine ⟨behind + closing.utf8Size, ?_⟩
  rw [List.append_assoc, List.singleton_append, List.cons_append, hmiddle, hbehind]
  rfl

/-- Where the elements start there is fuel for all of them. -/
theorem reads_allItems {item : Reader α} {texts : List (List Char)} {as : List α} (extra : Nat)
    (h : List.Forall₂ (fun text a ↦ Starts text ∧ Reads Ends item text a) texts as) :
    Reads (Closes ']') (fun c ↦ items item (c.fuel + extra) true c) (joined true texts) as := by
  intro rest offset hrest
  refine reads_items h ?_ rest offset hrest
  simp only [Cursor.fuel, List.length_append]
  omega

/-- Where the members start there is fuel for all of them. -/
theorem reads_allMembersInto {σ : Type} {member : σ → String → Reader σ}
    {entries : List (String × List Char)} {s last : σ} (extra : Nat)
    (h : Takes member entries s last) :
    Reads (Closes '\x7d') (fun c ↦ membersInto member (c.fuel + extra) true s c)
      (joined true (entries.map memberChars)) last := by
  intro rest offset hrest
  refine reads_membersInto h ?_ rest offset hrest
  simp only [Cursor.fuel, List.length_append]
  omega

/-- **Members with values of one form are read one after the other**, up to the closing bracket. -/
theorem reads_allMembers {value : Reader α} {entries : List (String × List Char)}
    {as : List (String × α)} (extra : Nat)
    (h : List.Forall₂ (fun entry a ↦ entry.1 = a.1 ∧ Reads Ends value entry.2 a.2) entries as) :
    Reads (Closes '\x7d') (fun c ↦ members value (c.fuel + extra) true c)
      (joined true (entries.map memberChars)) as := by
  have heq : ∀ fuel c, membersInto (collect value) fuel true [] c = members value fuel true c := by
    intro fuel c
    rw [membersInto_collect]
    rcases members value fuel true c with fault | ⟨more, last⟩
    · rfl
    · rfl
  simp only [← heq]
  exact reads_allMembersInto extra (takes_collect h [])

/-- **A list of values of one form is read as it was written.** One level of brackets is spent, and
the elements are read with those that are left. -/
theorem reads_listOf {depth : Nat} {item : Nat → Reader α} {texts : List (List Char)} {as : List α}
    (h : List.Forall₂ (fun text a ↦ Starts text ∧ Reads Ends (item depth) text a) texts as) :
    Reads follow (listOf (depth + 1) item) ('[' :: joined true texts ++ [']']) as := by
  refine (reads_allItems 0 h).bracketed id fun rest offset ↦ ⟨offset + '['.utf8Size, ?_⟩
  rw [listOf, valueStart_cons (by decide)]
  rfl

/-- **An object of values of one form is read as it was written**, with one level of brackets spent
as for lists. -/
theorem reads_objectOf {depth : Nat} {value : Nat → Reader α}
    {entries : List (String × List Char)} {as : List (String × α)}
    (h : List.Forall₂ (fun entry a ↦ entry.1 = a.1 ∧ Reads Ends (value depth) entry.2 a.2)
      entries as) :
    Reads follow (objectOf (depth + 1) value)
      ('\x7b' :: joined true (entries.map memberChars) ++ ['\x7d']) as := by
  refine (reads_allMembers 0 h).bracketed id fun rest offset ↦ ⟨offset + '\x7b'.utf8Size, ?_⟩
  rw [objectOf, valueStart_cons (by decide)]
  rfl

end AppManifest.Json
