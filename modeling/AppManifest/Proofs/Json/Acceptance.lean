import AppManifest.Proofs.Json.Grammar
import AppManifest.Proofs.Json.Trees
/-!
# The texts of JSON trees

What is a text of a tree is said by a grammar (`Json.WrittenAs`): tokens with white space around
them, elements and members with commas between them. A text is read as a tree exactly if it is a
text of the tree by that grammar and the tree is not nested too deeply (`Json.ofText_eq_ok_iff`).

Elements and members are sequences of the same kind (`SequenceText`) and differ in the bracket that
closes them and in what stands between the commas, so one induction serves both loops
(`Exact.sequence`). The induction over trees is on the room that is left for brackets: what is
between two of them is read by an exact reader with less room.
-/

namespace AppManifest.Json

variable {α : Type}

/-! ### White space -/

/-- White space stands in front of the rest. -/
def Spaces (text rest : List Char) : Prop :=
  ∃ blanks : List Char, (∀ ch ∈ blanks, isBlank ch = true) ∧ text = blanks ++ rest

/-- No white space stands in front. -/
def Fresh (text : List Char) : Prop := ∀ ch ∈ text.head?, isBlank ch = false

/-- White space is passed over from left to right, so what is behind it is no longer than the text.
It gives the bound for elements and members, which stand behind white space. -/
theorem Spaces.length_le {text rest : List Char} (h : Spaces text rest) :
    rest.length ≤ text.length := by
  obtain ⟨blanks, -, rfl⟩ := h
  rw [List.length_append]
  exact Nat.le_add_left _ _

/-- **The reader passes over all the white space there is and nothing else.** What it leaves is the
one rest that stands behind white space and does not start with any. -/
theorem rest_skipBlanks_iff {c : Cursor} {rest : List Char} :
    (skipBlanks c).rest = rest ↔ Spaces c.rest rest ∧ Fresh rest := by
  show c.rest.dropWhile isBlank = rest ↔ _
  constructor
  · rintro rfl
    refine ⟨⟨_, fun _ ↦ List.mem_takeWhile_imp, List.takeWhile_append_dropWhile.symm⟩, ?_⟩
    exact fun _ ↦ eq_false_of_mem_head?_dropWhile
  · rintro ⟨⟨blanks, hblanks, heq⟩, hfresh⟩
    rw [heq, List.dropWhile_append_of_pos hblanks]
    rcases rest with - | ⟨ch, more⟩
    · rfl
    · exact List.dropWhile_cons_of_neg (by simp [hfresh ch rfl])

/-- One character decides whether white space stands in front; the brackets, commas and quotes that
the loops look for are no white space. -/
theorem fresh_cons {ch : Char} (h : isBlank ch = false) (more : List Char) :
    Fresh (ch :: more) := by
  rintro _ ⟨⟩
  exact h

/-- Where a value starts no white space stands, so a reader that looks for white space first reads
the same value from there. -/
theorem Starts.fresh {text : List Char} (starts : Starts text) : Fresh text := by
  obtain ⟨ch, more, rfl, hblank, -⟩ := starts
  exact fresh_cons hblank more

/-- Where no white space is, none is passed over: the place where the loop has stopped and the place
where the grammar puts the element are the same. -/
theorem spaces_iff_of_fresh {text rest : List Char} (fresh : Fresh text) :
    Spaces text rest ↔ rest = text := by
  constructor
  · rintro ⟨_ | ⟨ch, blanks⟩, hblanks, rfl⟩
    · rfl
    · exact absurd (hblanks ch List.mem_cons_self) (by simp [fresh ch rfl])
  · rintro rfl
    exact ⟨[], by simp, rfl⟩

/-- What the reader passes over is white space. -/
theorem spaces_skipBlanks (c : Cursor) : Spaces c.rest (skipBlanks c).rest :=
  (rest_skipBlanks_iff.1 rfl).1

/-- White space of the grammar is passed over by the reader. The number of bytes read so far is left
open, since no text of the grammar mentions it. -/
theorem exists_skipBlanks_eq {c : Cursor} {rest : List Char} (h : Spaces c.rest rest)
    (fresh : Fresh rest) : ∃ offset, skipBlanks c = ⟨rest, offset⟩ := by
  obtain rfl := rest_skipBlanks_iff.2 ⟨h, fresh⟩
  exact ⟨_, rfl⟩

/-! ### Scalars -/

/-- A value that is neither a list nor an object. -/
inductive ScalarText : List Char → Json → List Char → Prop where
  | null {rest : List Char} : ScalarText ('n' :: ['u', 'l', 'l'] ++ rest) .null rest
  | yes {rest : List Char} : ScalarText ('t' :: ['r', 'u', 'e'] ++ rest) (.bool true) rest
  | no {rest : List Char} : ScalarText ('f' :: ['a', 'l', 's', 'e'] ++ rest) (.bool false) rest
  | negative {text rest : List Char} {value : Json} (h : NumberText true text value rest) :
      ScalarText ('-' :: text) value rest
  | nonnegative {text rest : List Char} {value : Json} (h : NumberText false text value rest) :
      ScalarText text value rest
  | string {text chars rest : List Char} (h : StringText text chars rest) :
      ScalarText ('"' :: text) (.string (String.ofList chars)) rest

/-- A number without its sign starts with a digit. The reader tells numbers from other scalars by
this character. -/
theorem NumberText.exists_eq_cons {negative : Bool} {text rest : List Char} {value : Json}
    (h : NumberText negative text value rest) : ∃ d more, d < 10 ∧ text = d.digitChar :: more := by
  obtain ⟨whole, isWhole, -, -, -, -⟩ := h
  exact whole.exists_eq_cons isWhole.nonempty

/-- A scalar starts with a character that is neither white space nor the closing bracket of a list,
so the loop over elements goes on to read it. -/
theorem ScalarText.starts {text rest : List Char} {value : Json} (h : ScalarText text value rest) :
    Starts text := by
  cases h with
  | nonnegative h =>
    obtain ⟨d, more, hd, rfl⟩ := h.exists_eq_cons
    have hdigit : ∀ d < 10, isBlank d.digitChar = false ∧ d.digitChar ≠ ']' := by decide
    exact ⟨_, _, rfl, hdigit d hd⟩
  | _ => exact ⟨_, _, rfl, by decide⟩

theorem ScalarText.length_lt {text rest : List Char} {value : Json}
    (h : ScalarText text value rest) : rest.length < text.length := by
  cases h with
  | nonnegative h => exact h.length_lt
  | negative h => exact Nat.lt_succ_of_lt h.length_lt
  | string h =>
    have hlength := h.length_lt
    rw [List.length_cons]
    omega
  | _ => simp only [List.length_append, List.length_cons]; omega

/-- A string is turned into a scalar or a key: the readers of both are `stringBody` with what it
gives changed by `f`. -/
theorem exact_stringBody_map (f : String → α) :
    Exact (fun c ↦ stringBody c >>= fun read ↦ .ok (f read.1, read.2)) fun text a rest ↦
      ∃ chars, StringText text chars rest ∧ f (String.ofList chars) = a := by
  refine (exact_stringBody.map f).congr fun text a rest ↦ ?_
  constructor
  · rintro ⟨_, ⟨chars, hchars, rfl⟩, rfl⟩
    exact ⟨chars, hchars, rfl⟩
  · rintro ⟨chars, hchars, rfl⟩
    exact ⟨_, ⟨chars, hchars, rfl⟩, rfl⟩

/-- What was read is turned into a scalar. The statement is the one of `Exact` at one cursor, with
the `some` of the found scalar taken off, since `scalar?` may also find that no scalar stands there.
-/
theorem Exact.scalar {reader : Reader α} {R : List Char → α → List Char → Prop}
    (h : Exact reader R) (f : α → Json) (c : Cursor) (found : Json) (rest : List Char) :
    (∃ offset, (reader c >>= fun read ↦ .ok (some (f read.1), read.2)) =
      .ok (some found, ⟨rest, offset⟩)) ↔ ∃ a, R c.rest a rest ∧ f a = found := by
  refine ((h.map fun a ↦ some (f a)) c (some found) rest).trans ?_
  simp only [Option.some.injEq]

/-- A word such as `null` stands for the one scalar that it names; `Exact.scalar` applied to the
reader of a word. -/
theorem exact_scalarWord (chars : List Char) (value : Json) (c : Cursor) (found : Json)
    (rest : List Char) :
    (∃ offset, (word chars c >>= fun read ↦ .ok (some value, read.2)) =
      .ok (some found, ⟨rest, offset⟩)) ↔ c.rest = chars ++ rest ∧ value = found := by
  refine ((exact_word chars).scalar (fun _ ↦ value) c found rest).trans ?_
  exact ⟨fun ⟨_, h⟩ ↦ h, fun h ↦ ⟨(), h⟩⟩

/-- What is read as a scalar is the text of one. The first character decides which of the readers
ran, and each of them is exact. -/
theorem scalarText_of_scalar? {c : Cursor} {found : Json} {rest : List Char} {offset : Nat}
    (h : scalar? c = .ok (some found, ⟨rest, offset⟩)) : ScalarText c.rest found rest := by
  obtain ⟨text, before⟩ := c
  rw [scalar?] at h
  rcases text with - | ⟨ch, more⟩
  · exact absurd h (by simp)
  dsimp only at h
  split at h
  · next hch =>
    obtain ⟨hword, rfl⟩ := (exact_scalarWord ..).1 ⟨offset, h⟩
    obtain rfl : more = _ := hword
    exact hch ▸ .null
  split at h
  · next hch =>
    obtain ⟨hword, rfl⟩ := (exact_scalarWord ..).1 ⟨offset, h⟩
    obtain rfl : more = _ := hword
    exact hch ▸ .yes
  split at h
  · next hch =>
    obtain ⟨hword, rfl⟩ := (exact_scalarWord ..).1 ⟨offset, h⟩
    obtain rfl : more = _ := hword
    exact hch ▸ .no
  split at h
  · next hch =>
    obtain ⟨_, hnumber, rfl⟩ := ((exact_number true).scalar id ..).1 ⟨offset, h⟩
    exact hch ▸ .negative hnumber
  split at h
  · obtain ⟨_, hnumber, rfl⟩ := ((exact_number false).scalar id ..).1 ⟨offset, h⟩
    exact .nonnegative hnumber
  split at h
  · next hch =>
    obtain ⟨chars, hchars, hfound⟩ :=
      (exact_stringBody_map (fun s ↦ some (Json.string s)) ..).1 ⟨offset, h⟩
    obtain rfl := Option.some.inj hfound
    exact hch ▸ .string hchars
  · exact absurd h (by simp)

/-- Every text of a scalar is read as that scalar, wherever it stands. The tests of the first
character come in a fixed order, and a digit fails all that come before its own. -/
theorem ScalarText.exists_scalar? {text rest : List Char} {value : Json}
    (h : ScalarText text value rest) (before : Nat) :
    ∃ offset, scalar? ⟨text, before⟩ = .ok (some value, ⟨rest, offset⟩) := by
  cases h with
  | null => exact (exact_scalarWord _ _ ⟨_, _⟩ _ _).2 ⟨rfl, rfl⟩
  | yes => exact (exact_scalarWord _ _ ⟨_, _⟩ _ _).2 ⟨rfl, rfl⟩
  | no => exact (exact_scalarWord _ _ ⟨_, _⟩ _ _).2 ⟨rfl, rfl⟩
  | negative h => exact ((exact_number true).scalar id ⟨_, _⟩ _ _).2 ⟨_, h, rfl⟩
  | nonnegative h =>
    obtain ⟨d, more, hd, rfl⟩ := h.exists_eq_cons
    obtain ⟨hn, ht, hf, hsign, hdigit⟩ := digitChar_starts d hd
    rw [scalar?]
    dsimp only
    rw [if_neg hn, if_neg ht, if_neg hf, if_neg hsign, if_pos hdigit]
    exact ((exact_number false).scalar id ..).2 ⟨_, h, rfl⟩
  | string h =>
    exact (exact_stringBody_map (fun s ↦ some (Json.string s)) ⟨_, _⟩ _ _).2 ⟨_, h, rfl⟩

/-! ### Sequences -/

/-- What stands in front of an element or a member: white space, with a comma in it unless it is the
first. -/
inductive LeadText : Bool → List Char → List Char → Prop where
  | first {text start : List Char} (h : Spaces text start) : LeadText true text start
  | later {text comma start : List Char} (before : Spaces text (',' :: comma))
      (behind : Spaces comma start) : LeadText false text start

/-- Elements or members with commas between them, up to the closing bracket. -/
inductive SequenceText (closing : Char) (P : List Char → α → List Char → Prop) :
    Bool → List Char → List α → List Char → Prop where
  | close {first : Bool} {text rest : List Char} (h : Spaces text (closing :: rest)) :
      SequenceText closing P first text [] rest
  | cons {first : Bool} {text start behind rest : List Char} {a : α} {as : List α}
      (lead : LeadText first text start) (h : P start a behind)
      (more : SequenceText closing P false behind as rest) :
      SequenceText closing P first text (a :: as) rest

section

variable {closing : Char} {P : List Char → α → List Char → Prop} {first : Bool}
  {text rest : List Char} {as : List α}

/-- **A loop goes through a sequence if each of its steps goes past one element**, or stops in front
of the bracket; one step is needed for each of them. -/
theorem Exact.sequence {loop : Nat → Bool → Reader (List α)}
    (zero : ∀ first, Exact (loop 0 first) fun _ _ _ ↦ False)
    (succ : ∀ {fuel : Nat} {first : Bool} {R : List Char → List α → List Char → Prop},
      Exact (loop fuel false) R → Exact (loop (fuel + 1) first) fun text as stop ↦
        (as = [] ∧ Spaces text stop ∧ ∃ rest, stop = closing :: rest) ∨
          ∃ start a behind more, LeadText first text start ∧ P start a behind ∧
            R behind more stop ∧ a :: more = as)
    (fuel : Nat) (first : Bool) : Exact (loop fuel first) fun text as stop ↦
      as.length < fuel ∧ ∃ rest, stop = closing :: rest ∧
        SequenceText closing P first text as rest := by
  induction fuel generalizing first with
  | zero => exact (zero first).congr fun _ _ _ ↦ by simp
  | succ fuel ih =>
    refine (succ (ih false)).congr fun text as stop ↦ ?_
    constructor
    · rintro (⟨rfl, hspaces, rest, rfl⟩ |
        ⟨start, a, behind, more, hlead, ha, ⟨hlength, rest, rfl, h⟩, rfl⟩)
      · exact ⟨Nat.succ_pos fuel, rest, rfl, .close hspaces⟩
      · exact ⟨Nat.succ_lt_succ hlength, rest, rfl, .cons hlead ha h⟩
    · rintro ⟨hlength, rest, rfl, h⟩
      cases h with
      | close hspaces => exact Or.inl ⟨rfl, hspaces, rest, rfl⟩
      | cons hlead ha hmore =>
        have hfewer := Nat.lt_of_succ_lt_succ hlength
        exact Or.inr ⟨_, _, _, _, hlead, ha, ⟨hfewer, rest, rfl, hmore⟩, rfl⟩

/-- What holds of every element of a sequence can be said behind it. It moves the bound on the
nesting from the elements, where the induction over trees puts it, to the list as a whole. -/
theorem sequenceText_and_iff {q : α → Prop} :
    SequenceText closing (fun text a rest ↦ P text a rest ∧ q a) first text as rest ↔
      SequenceText closing P first text as rest ∧ ∀ a ∈ as, q a := by
  constructor
  · intro h
    induction h with
    | close h => exact ⟨.close h, by simp⟩
    | cons lead h _ ih => exact ⟨.cons lead h.1 ih.1, List.forall_mem_cons.2 ⟨h.2, ih.2⟩⟩
  · rintro ⟨h, hq⟩
    induction h with
    | close h => exact .close h
    | cons lead h _ ih =>
      obtain ⟨hfirst, hmore⟩ := List.forall_mem_cons.1 hq
      exact .cons lead ⟨h, hfirst⟩ (ih hmore)

/-- White space and a comma in front of an element take characters of the text. -/
theorem LeadText.length_le {start : List Char} (h : LeadText first text start) :
    start.length ≤ text.length := by
  rcases h with h | ⟨before, behind⟩
  · exact h.length_le
  · exact behind.length_le.trans ((Nat.le_succ _).trans before.length_le)

/-- Every element takes a character of the text, and so does the closing bracket. A loop with one
step for each character of the text has therefore enough of them. -/
theorem SequenceText.length_lt (h : SequenceText closing P first text as rest)
    (each : ∀ a ∈ as, ∀ start behind, P start a behind → behind.length < start.length) :
    as.length + rest.length < text.length := by
  induction h with
  | close h =>
    have hlength := h.length_le
    rw [List.length_cons] at hlength
    rw [List.length_nil]
    omega
  | cons lead h _ ih =>
    obtain ⟨hfirst, hmore⟩ := List.forall_mem_cons.1 each
    have hlead := lead.length_le
    have hlength := hfirst _ _ h
    have hrest := ih hmore
    rw [List.length_cons]
    omega

end

/-! ### Elements -/

/-- Behind white space a value may start wherever the text goes on and no bracket closes the list.
Both conditions are what the loop has tested by then. -/
theorem starts_skipBlanks {c : Cursor} (nonempty : ¬ (skipBlanks c).rest.isEmpty = true)
    (h : ¬ (skipBlanks c).startsWith [']'] = true) : Starts (skipBlanks c).rest := by
  have hfresh := (rest_skipBlanks_iff (c := c)).1 rfl |>.2
  rcases hskip : skipBlanks c with ⟨_ | ⟨ch, more⟩, offset⟩
  · exact absurd (by rw [hskip]; rfl) nonempty
  · rw [hskip] at hfresh h
    exact ⟨ch, more, rfl, hfresh ch rfl, by simpa [Cursor.startsWith] using h⟩

/-- In front of the closing bracket the loop over elements stops, before the first element as well
as behind a later one. -/
theorem exists_nextItem_of_closing {c : Cursor} {rest : List Char} (h : Spaces c.rest (']' :: rest))
    (first : Bool) : ∃ offset, nextItem first c = .ok (false, ⟨']' :: rest, offset⟩) := by
  obtain ⟨offset, hskip⟩ := exists_skipBlanks_eq h (fresh_cons (by decide) rest)
  refine ⟨offset, ?_⟩
  rw [nextItem, hskip]
  rfl

/-- In front of an element the loop goes on to it, past the comma if it is not the first. -/
theorem LeadText.exists_nextItem {first : Bool} {c : Cursor} {start : List Char}
    (lead : LeadText first c.rest start) (starts : Starts start) :
    ∃ offset, nextItem first c = .ok (true, ⟨start, offset⟩) := by
  obtain ⟨ch, more, rfl, hblank, hclose⟩ := starts
  have hfresh := fresh_cons hblank more
  cases lead with
  | first hspaces =>
    obtain ⟨offset, hskip⟩ := exists_skipBlanks_eq hspaces hfresh
    refine ⟨offset, ?_⟩
    rw [nextItem, hskip]
    simp [Cursor.startsWith, hclose]
  | @later _ comma _ before behind =>
    obtain ⟨middle, hskip⟩ := exists_skipBlanks_eq before (fresh_cons (by decide) comma)
    obtain ⟨offset, hskip'⟩ := exists_skipBlanks_eq
      (c := ⟨comma, middle + ','.utf8Size⟩) behind hfresh
    refine ⟨offset, ?_⟩
    rw [nextItem, hskip]
    simp [Cursor.startsWith, Cursor.skip, hskip', hclose]

/-- Behind a comma stands what is behind the white space there: what the loop passes over in its two
calls is one lead of the grammar. -/
theorem leadText_of_comma {c : Cursor} (h : (skipBlanks c).startsWith [','] = true) :
    LeadText false c.rest (skipBlanks (skipBlanks c).skip).rest := by
  obtain ⟨comma, hcomma⟩ := startsWith_singleton_iff.1 h
  have hspaces := spaces_skipBlanks c
  have hbehind := spaces_skipBlanks (skipBlanks c).skip
  rw [hcomma] at hspaces
  rw [show (skipBlanks c).skip.rest = comma by rw [Cursor.skip, hcomma]] at hbehind
  exact .later hspaces hbehind

/-- **A step of the loop over elements** either stops in front of the closing bracket or goes to
where the next element starts. A comma in front of the bracket is refused, as the grammar has none
there. -/
theorem exact_nextItem (first : Bool) : Exact (nextItem first) fun text more start ↦
    (more = false ∧ Spaces text start ∧ ∃ rest, start = ']' :: rest) ∨
      (more = true ∧ LeadText first text start ∧ Starts start) := by
  intro c more start
  constructor
  · rintro ⟨offset, h⟩
    have hspaces := spaces_skipBlanks c
    rw [nextItem] at h
    dsimp only at h
    split at h
    · exact absurd h (by simp [Cursor.faultAt])
    next hmore =>
    split at h
    · next hclose =>
      obtain ⟨rfl, heq⟩ := Prod.mk.inj (Except.ok.inj h)
      rw [heq] at hspaces hclose
      exact Or.inl ⟨rfl, hspaces, startsWith_singleton_iff.1 hclose⟩
    next hclose =>
    have hstarts := starts_skipBlanks hmore hclose
    split at h
    · next hfirst =>
      obtain ⟨rfl, heq⟩ := Prod.mk.inj (Except.ok.inj h)
      rw [heq] at hspaces hstarts
      exact Or.inr ⟨rfl, hfirst ▸ .first hspaces, hstarts⟩
    next hfirst =>
    split at h
    · next hcomma =>
      have hlead := leadText_of_comma hcomma
      split at h
      · exact absurd h (by simp [Cursor.faultAt])
      next hmore =>
      split at h
      · exact absurd h (by simp [Cursor.faultAt])
      next hclose =>
      have hstarts := starts_skipBlanks hmore hclose
      obtain ⟨rfl, heq⟩ := Prod.mk.inj (Except.ok.inj h)
      rw [heq] at hlead hstarts
      exact Or.inr ⟨rfl, eq_false_of_ne_true hfirst ▸ hlead, hstarts⟩
    · exact absurd h (by simp [Cursor.faultAt])
  · rintro (⟨rfl, hspaces, rest, rfl⟩ | ⟨rfl, hlead, hstarts⟩)
    · exact exists_nextItem_of_closing hspaces first
    · exact hlead.exists_nextItem hstarts

/-- **Elements are read up to the closing bracket.** The reader of an element passes over white
space on its own, and `starts` says that none is left where `nextItem` has stopped. -/
theorem exact_items {item : Reader α} {P : List Char → α → List Char → Prop}
    (h : Exact item fun text a rest ↦ ∃ start, Spaces text start ∧ P start a rest)
    (starts : ∀ {start a rest}, P start a rest → Starts start) (fuel : Nat) (first : Bool) :
    Exact (items item fuel first) fun text as stop ↦
      as.length < fuel ∧ ∃ rest, stop = ']' :: rest ∧ SequenceText ']' P first text as rest := by
  refine Exact.sequence (fun _ ↦ .fault) ?_ fuel first
  intro fuel first R hmore
  refine ((exact_nextItem first).bind fun more ↦
    .ite (p := more = true) (fun _ ↦ h.bind fun a ↦ hmore.map (a :: ·)) fun _ ↦ .pure []).congr
    fun text as stop ↦ ?_
  constructor
  · rintro ⟨_, start, ⟨rfl, hspaces, hrest⟩ | ⟨rfl, hlead, hstarts⟩, h⟩
    · rcases h with ⟨⟨⟩, -⟩ | ⟨-, rfl, rfl⟩
      exact Or.inl ⟨rfl, hspaces, hrest⟩
    · rcases h with ⟨-, a, behind, ⟨_, hspaces, ha⟩, more, hmore, rfl⟩ | ⟨h, -⟩
      · obtain rfl := (spaces_iff_of_fresh hstarts.fresh).1 hspaces
        exact Or.inr ⟨_, a, behind, more, hlead, ha, hmore, rfl⟩
      · exact absurd rfl h
  · rintro (⟨rfl, hspaces, hrest⟩ | ⟨start, a, behind, more, hlead, ha, hmore, rfl⟩)
    · exact ⟨false, stop, Or.inl ⟨rfl, hspaces, hrest⟩, Or.inr ⟨by simp, rfl, rfl⟩⟩
    · have hstarts := starts ha
      have hspaces := (spaces_iff_of_fresh hstarts.fresh).2 rfl
      exact ⟨true, start, Or.inr ⟨rfl, hlead, hstarts⟩,
        Or.inl ⟨rfl, a, behind, ⟨start, hspaces, ha⟩, more, hmore, rfl⟩⟩

/-! ### Members -/

/-- A key, a colon and a value. -/
inductive MemberText (P : List Char → α → List Char → Prop) :
    List Char → String × α → List Char → Prop where
  | mk {text chars behind start value rest : List Char} {a : α} (key : StringText text chars behind)
      (before : Spaces behind (':' :: start)) (space : Spaces start value) (h : P value a rest) :
      MemberText P ('"' :: text) (String.ofList chars, a) rest

/-- What holds of the value of a member can be said behind it, as for elements in
`sequenceText_and_iff`. -/
theorem memberText_and {P : List Char → α → List Char → Prop} {q : α → Prop} :
    MemberText (fun text a rest ↦ P text a rest ∧ q a) =
      fun text member rest ↦ MemberText P text member rest ∧ q member.2 := by
  funext text member rest
  refine propext ⟨?_, ?_⟩
  · rintro ⟨key, before, space, h, hq⟩
    exact ⟨⟨key, before, space, h⟩, hq⟩
  · rintro ⟨⟨key, before, space, h⟩, hq⟩
    exact ⟨key, before, space, h, hq⟩

/-- A member takes at least one character of the text if its value does; its key and the colon take
more. -/
theorem MemberText.length_lt {P : List Char → α → List Char → Prop} {text rest : List Char}
    {member : String × α} (h : MemberText P text member rest)
    (each : ∀ {start}, P start member.2 rest → rest.length < start.length) :
    rest.length < text.length := by
  obtain ⟨key, before, space, h⟩ := h
  have hkey := key.length_lt
  have hbefore := before.length_le
  have hspace := space.length_le
  have hlength := each h
  rw [List.length_cons] at hbefore ⊢
  omega

/-- In front of the closing bracket the loop over members stops, before the first member as well as
behind a later one. -/
theorem exists_nextKey_of_closing {c : Cursor} {rest : List Char}
    (h : Spaces c.rest ('\x7d' :: rest)) (first : Bool) :
    ∃ offset, nextKey first c = .ok (none, ⟨'\x7d' :: rest, offset⟩) := by
  obtain ⟨offset, hskip⟩ := exists_skipBlanks_eq h (fresh_cons (by decide) rest)
  refine ⟨offset, ?_⟩
  rw [nextKey, hskip]
  rfl

/-- In front of a member the loop reads its key, past the comma if it is not the first. -/
theorem LeadText.exists_nextKey {first : Bool} {c : Cursor} {start chars rest : List Char}
    (lead : LeadText first c.rest ('"' :: start)) (key : StringText start chars rest) :
    ∃ offset, nextKey first c = .ok (some (String.ofList chars), ⟨rest, offset⟩) := by
  have hfresh : Fresh ('"' :: start) := fresh_cons (by decide) start
  have hread := fun offset ↦ (exact_stringBody_map some ⟨start, offset⟩ _ rest).2 ⟨chars, key, rfl⟩
  cases lead with
  | first hspaces =>
    obtain ⟨offset, hskip⟩ := exists_skipBlanks_eq hspaces hfresh
    rw [nextKey, hskip]
    exact hread _
  | @later _ comma _ before behind =>
    obtain ⟨middle, hskip⟩ := exists_skipBlanks_eq before (fresh_cons (by decide) comma)
    obtain ⟨offset, hskip'⟩ := exists_skipBlanks_eq
      (c := Cursor.skip ⟨',' :: comma, middle⟩) behind hfresh
    rw [nextKey, hskip]
    dsimp only
    rw [hskip']
    exact hread _

/-- A key that is read behind a quote has the text of a string. -/
theorem keyText_of_quote {c : Cursor} {key : Option String} {rest : List Char} {offset : Nat}
    (hquote : c.startsWith ['"'] = true)
    (h : (stringBody c.skip >>= fun read ↦ .ok (some read.1, read.2)) = .ok (key, ⟨rest, offset⟩)) :
    ∃ start chars, c.rest = '"' :: start ∧ StringText start chars rest ∧
      some (String.ofList chars) = key := by
  obtain ⟨start, hstart⟩ := startsWith_singleton_iff.1 hquote
  obtain ⟨chars, hchars, hkey⟩ := (exact_stringBody_map some ..).1 ⟨offset, h⟩
  rw [Cursor.skip, hstart] at hchars
  exact ⟨start, chars, hstart, hchars, hkey⟩

/-- **A step of the loop over members** either stops in front of the closing bracket or reads a key.
Unlike `exact_nextItem` it has read something by then, so the text of the key is part of the
statement. -/
theorem exact_nextKey (first : Bool) : Exact (nextKey first) fun text key rest ↦
    (key = none ∧ Spaces text rest ∧ ∃ more, rest = '\x7d' :: more) ∨
      ∃ start chars, LeadText first text ('"' :: start) ∧ StringText start chars rest ∧
        some (String.ofList chars) = key := by
  intro c key rest
  constructor
  · rintro ⟨offset, h⟩
    have hspaces := spaces_skipBlanks c
    rw [nextKey] at h
    dsimp only at h
    split at h
    · exact absurd h (by simp [Cursor.faultAt])
    split at h
    · next hclose =>
      obtain ⟨rfl, heq⟩ := Prod.mk.inj (Except.ok.inj h)
      rw [heq] at hspaces hclose
      exact Or.inl ⟨rfl, hspaces, startsWith_singleton_iff.1 hclose⟩
    split at h
    · next hfirst =>
      split at h
      · next hquote =>
        obtain ⟨start, chars, hstart, hkey⟩ := keyText_of_quote hquote h
        rw [hstart] at hspaces
        exact Or.inr ⟨start, chars, hfirst ▸ .first hspaces, hkey⟩
      · exact absurd h (by simp [Cursor.faultAt])
    next hfirst =>
    split at h
    · next hcomma =>
      have hlead := leadText_of_comma hcomma
      split at h
      · exact absurd h (by simp [Cursor.faultAt])
      split at h
      · next hquote =>
        obtain ⟨start, chars, hstart, hkey⟩ := keyText_of_quote hquote h
        rw [hstart] at hlead
        exact Or.inr ⟨start, chars, eq_false_of_ne_true hfirst ▸ hlead, hkey⟩
      · split at h <;> exact absurd h (by simp [Cursor.faultAt])
    · exact absurd h (by simp [Cursor.faultAt])
  · rintro (⟨rfl, hspaces, more, rfl⟩ | ⟨start, chars, hlead, hchars, rfl⟩)
    · exact exists_nextKey_of_closing hspaces first
    · exact hlead.exists_nextKey hchars

/-- Between a key and its value the reader wants a colon with white space in front of it. -/
theorem colon_eq_ok_iff {c start : Cursor} :
    colon c = .ok start ↔ (skipBlanks c).startsWith [':'] = true ∧ start = (skipBlanks c).skip := by
  rw [colon]
  split
  · next hempty =>
    refine iff_of_false (by simp [Cursor.faultAt]) fun h ↦ ?_
    obtain ⟨more, hmore⟩ := startsWith_singleton_iff.1 h.1
    exact absurd hempty (by simp [hmore])
  · by_cases h : (skipBlanks c).startsWith [':'] = true
    · rw [if_pos h, and_iff_right h]
      simp [eq_comm]
    · rw [if_neg h]
      exact iff_of_false (by simp [Cursor.faultAt]) fun h' ↦ h h'.1

/-- What is read behind a colon: the reader of a value runs from the character behind the colon, and
white space in front of the value is left to it. -/
theorem Exact.pastColon {reader : Reader α} {R : List Char → α → List Char → Prop}
    (h : Exact reader R) : Exact (fun c ↦ colon c >>= reader) fun text a rest ↦
      ∃ start, Spaces text (':' :: start) ∧ R start a rest := by
  intro c a rest
  constructor
  · rintro ⟨offset, hread⟩
    obtain ⟨_, hcolon, hread⟩ := bind_eq_ok.1 hread
    obtain ⟨hmark, rfl⟩ := colon_eq_ok_iff.1 hcolon
    obtain ⟨start, hstart⟩ := startsWith_singleton_iff.1 hmark
    have hspaces := spaces_skipBlanks c
    have hrest := (h _ a rest).1 ⟨offset, hread⟩
    rw [hstart] at hspaces
    rw [Cursor.skip, hstart] at hrest
    exact ⟨start, hspaces, hrest⟩
  · rintro ⟨start, hspaces, hrest⟩
    obtain ⟨middle, hskip⟩ := exists_skipBlanks_eq hspaces (fresh_cons (by decide) start)
    obtain ⟨offset, hread⟩ := (h (Cursor.skip ⟨':' :: start, middle⟩) a rest).2 hrest
    have hcolon : colon c = .ok (Cursor.skip ⟨':' :: start, middle⟩) :=
      colon_eq_ok_iff.2 (by rw [hskip]; exact ⟨rfl, rfl⟩)
    exact ⟨offset, bind_eq_ok.2 ⟨_, hcolon, hread⟩⟩

/-- The members that are left behind a key: none where no key was found, and otherwise that of the
key and those after it. -/
def LeftBehind (P : List Char → α → List Char → Prop)
    (R : List Char → List (String × α) → List Char → Prop) (behind : List Char)
    (members : List (String × α)) (stop : List Char) : Option String → Prop
  | none => members = [] ∧ stop = behind
  | some name => ∃ start, Spaces behind (':' :: start) ∧ ∃ a rest,
      (∃ value, Spaces start value ∧ P value a rest) ∧
        ∃ more, R rest more stop ∧ (name, a) :: more = members

/-- **Members are read up to the closing bracket.** This is `exact_items` for members: the same
induction with another bracket, and with a key and a colon in front of each value. -/
theorem exact_members {value : Reader α} {P : List Char → α → List Char → Prop}
    (h : Exact value fun text a rest ↦ ∃ start, Spaces text start ∧ P start a rest) (fuel : Nat)
    (first : Bool) : Exact (members value fuel first) fun text as stop ↦
      as.length < fuel ∧ ∃ rest, stop = '\x7d' :: rest ∧
        SequenceText '\x7d' (MemberText P) first text as rest := by
  refine Exact.sequence (fun _ ↦ .fault) ?_ fuel first
  intro fuel first R hmore
  refine ((exact_nextKey first).bind (S := fun key behind as stop ↦
    LeftBehind P R behind as stop key) ?_).congr fun text as stop ↦ ?_
  · rintro (_ | name)
    · exact .pure []
    · exact (h.bind fun a ↦ hmore.map ((name, a) :: ·)).pastColon
  · constructor
    · rintro ⟨_, behind, ⟨rfl, hspaces, hrest⟩ | ⟨start, chars, hlead, hchars, rfl⟩, h⟩
      · obtain ⟨rfl, rfl⟩ := h
        exact Or.inl ⟨rfl, hspaces, hrest⟩
      · obtain ⟨colon, hcolon, a, rest, ⟨value, hvalue, ha⟩, more, hmore, rfl⟩ := h
        exact Or.inr ⟨_, _, rest, more, hlead, .mk hchars hcolon hvalue ha, hmore, rfl⟩
    · rintro (⟨rfl, hspaces, hrest⟩ | ⟨_, _, rest, more, hlead, hmember, hmore, rfl⟩)
      · exact ⟨none, stop, Or.inl ⟨rfl, hspaces, hrest⟩, rfl, rfl⟩
      · obtain ⟨key, before, space, ha⟩ := hmember
        exact ⟨_, _, Or.inr ⟨_, _, hlead, key, rfl⟩, _, before, _, rest, ⟨_, space, ha⟩, more,
          hmore, rfl⟩

/-! ### Trees -/

/-- A value at the front of a text. -/
inductive ValueText : List Char → Json → List Char → Prop where
  | scalar {text rest : List Char} {value : Json} (h : ScalarText text value rest) :
      ValueText text value rest
  | array {text rest : List Char} {items : List Json}
      (h : SequenceText ']' ValueText true text items rest) :
      ValueText ('[' :: text) (.array items) rest
  | object {text rest : List Char} {members : Members}
      (h : SequenceText '\x7d' (MemberText ValueText) true text members rest) :
      ValueText ('\x7b' :: text) (.object members) rest

/-- Every value starts with a character that is neither white space nor the closing bracket of a
list, which `exact_items` asks of elements. -/
theorem ValueText.starts {text rest : List Char} {value : Json} (h : ValueText text value rest) :
    Starts text := by
  cases h with
  | scalar h => exact h.starts
  | _ => exact ⟨_, _, rfl, by decide⟩

/-- Every value takes a character of the text. The induction is on a bound for the nesting, because
the rules for lists and objects have the values inside a sequence. -/
theorem ValueText.length_lt_of_nesting_le (depth : Nat) : ∀ {text rest : List Char} {value : Json},
    ValueText text value rest → value.nesting ≤ depth → rest.length < text.length := by
  -- on the room for the brackets of the value
  induction depth with
  | zero =>
    intro text rest value h hdepth
    cases h with
    | scalar h => exact h.length_lt
    | array h => exact absurd hdepth (by simp [nesting])
    | object h => exact absurd hdepth (by simp [nesting])
  | succ depth ih =>
    intro text rest value h hdepth
    cases h with
    | scalar h => exact h.length_lt
    | array h =>
      have hnesting := itemsNesting_le_iff.1 (Nat.le_of_succ_le_succ hdepth)
      have hlength := h.length_lt fun item hmem _ _ hitem ↦ ih hitem (hnesting item hmem)
      rw [List.length_cons]
      omega
    | object h =>
      have hnesting := membersNesting_le_iff.1 (Nat.le_of_succ_le_succ hdepth)
      have hlength := h.length_lt fun member hmem _ _ hmember ↦
        hmember.length_lt fun hvalue ↦ ih hvalue (hnesting member hmem)
      rw [List.length_cons]
      omega

/-- Every value takes a character of the text, so the length of a text bounds the number of elements
and members in it, and the steps that the loops are given are enough. -/
theorem ValueText.length_lt {text rest : List Char} {value : Json} (h : ValueText text value rest) :
    rest.length < text.length :=
  length_lt_of_nesting_le value.nesting h (Nat.le_refl _)

/-- What is read as a scalar has no brackets, so it is read with no room left for them. -/
theorem nesting_of_scalar? {c behind : Cursor} {value : Json}
    (h : scalar? c = .ok (some value, behind)) : value.nesting = 0 := by
  rcases scalar?_cases h with ⟨rfl, -⟩ | ⟨b, rfl⟩ | ⟨s, rfl, -⟩ | ⟨x, hx⟩
  · rfl
  · rfl
  · rfl
  · cases value <;> first | rfl | exact absurd hx (by simp [number?])

/-- A value with room for its brackets, and white space in front of it. -/
def TreeText (depth : Nat) (text : List Char) (value : Json) (rest : List Char) : Prop :=
  ∃ start, Spaces text start ∧ ValueText start value rest ∧ value.nesting ≤ depth

section

variable {depth : Nat} (inner : Exact (tree depth) (TreeText depth))
include inner

/-- Elements are read exactly if the values with less room for brackets are (`ih`). The bound on
their nesting is taken out of the sequence. -/
theorem exact_elements (fuel : Nat) : Exact (items (tree depth) fuel true)
    fun text elements stop ↦ elements.length < fuel ∧ ∃ rest, stop = ']' :: rest ∧
      SequenceText ']' ValueText true text elements rest ∧ itemsNesting elements ≤ depth := by
  refine (exact_items inner (fun h ↦ h.1.starts) fuel true).congr fun text elements stop ↦ ?_
  simp only [sequenceText_and_iff, itemsNesting_le_iff]

/-- Members are read exactly if the values with less room for brackets are (`ih`), as for elements.
-/
theorem exact_pairs (fuel : Nat) : Exact (members (tree depth) fuel true)
    fun text pairs stop ↦ pairs.length < fuel ∧ ∃ rest, stop = '\x7d' :: rest ∧
      SequenceText '\x7d' (MemberText ValueText) true text pairs rest ∧
        membersNesting pairs ≤ depth := by
  refine (exact_members inner fuel true).congr fun text pairs stop ↦ ?_
  simp only [memberText_and, sequenceText_and_iff, membersNesting_le_iff]

end

/-- What is left behind a bracket is the text without it. -/
theorem eq_of_skip_eq {closing : Cursor} {bracket : Char} {more rest : List Char} {offset : Nat}
    (h : closing.rest = bracket :: more) (heq : closing.skip = ⟨rest, offset⟩) : more = rest := by
  rw [Cursor.skip, h] at heq
  exact (Cursor.mk.inj heq).1

section

variable {depth : Nat} (inner : ∀ room < depth, Exact (tree room) (TreeText room)) {value : Json}
  {rest : List Char}
include inner

/-- What is read behind white space is the text of a value with room for its brackets. -/
theorem valueText_of_treeFrom {start : Cursor} {offset : Nat}
    (h : TreeFrom depth start value ⟨rest, offset⟩) :
    ValueText start.rest value rest ∧ value.nesting ≤ depth := by
  generalize hbehind : (⟨rest, offset⟩ : Cursor) = behind at h
  cases h with
  | scalar hscalar =>
    rw [← hbehind] at hscalar
    refine ⟨.scalar (scalarText_of_scalar? hscalar), ?_⟩
    rw [nesting_of_scalar? hscalar]
    exact Nat.zero_le depth
  | @array room _ closing elements opens hitems =>
    obtain ⟨text, htext⟩ := startsWith_singleton_iff.1 opens
    obtain ⟨-, more, hclosing, h, hnesting⟩ :=
      (exact_elements (inner room (Nat.lt_succ_self room)) _ _ _ _).1 ⟨closing.offset, hitems⟩
    obtain rfl := eq_of_skip_eq hclosing hbehind.symm
    rw [Cursor.skip, htext] at h
    rw [htext]
    exact ⟨.array h, Nat.succ_le_succ hnesting⟩
  | @object room _ closing pairs opens hmembers =>
    obtain ⟨text, htext⟩ := startsWith_singleton_iff.1 opens
    obtain ⟨-, more, hclosing, h, hnesting⟩ :=
      (exact_pairs (inner room (Nat.lt_succ_self room)) _ _ _ _).1 ⟨closing.offset, hmembers⟩
    obtain rfl := eq_of_skip_eq hclosing hbehind.symm
    rw [Cursor.skip, htext] at h
    rw [htext]
    exact ⟨.object h, Nat.succ_le_succ hnesting⟩

/-- Every value with room for its brackets is read. The number of steps for its elements or members
is the length of the text, which `ValueText.length_lt` shows to be enough. -/
theorem ValueText.exists_treeFrom {text : List Char} (h : ValueText text value rest)
    (hdepth : value.nesting ≤ depth) (before : Nat) :
    ∃ offset, TreeFrom depth ⟨text, before⟩ value ⟨rest, offset⟩ := by
  cases h with
  | scalar h =>
    obtain ⟨offset, hscalar⟩ := h.exists_scalar? before
    exact ⟨offset, .scalar hscalar⟩
  | @array text _ elements h =>
    have hroom : 0 < depth := Nat.lt_of_lt_of_le (Nat.succ_pos _) hdepth
    obtain ⟨room, rfl⟩ := Nat.exists_eq_succ_of_ne_zero (Nat.ne_of_gt hroom)
    -- the fuel is taken in front of the bracket
    have hlength := h.length_lt fun _ _ _ _ hitem ↦ hitem.length_lt
    have hfuel : elements.length < Cursor.fuel ⟨'[' :: text, before⟩ := by
      simp only [Cursor.fuel, List.length_cons]
      omega
    obtain ⟨closing, hitems⟩ :=
      (exact_elements (inner room (Nat.lt_succ_self room)) _ ⟨text, _⟩ elements (']' :: rest)).2
        ⟨hfuel, rest, rfl, h, Nat.le_of_succ_le_succ hdepth⟩
    exact ⟨_, .array rfl hitems⟩
  | @object text _ pairs h =>
    have hroom : 0 < depth := Nat.lt_of_lt_of_le (Nat.succ_pos _) hdepth
    obtain ⟨room, rfl⟩ := Nat.exists_eq_succ_of_ne_zero (Nat.ne_of_gt hroom)
    have hlength := h.length_lt fun _ _ _ _ hmember ↦
      hmember.length_lt fun hvalue ↦ hvalue.length_lt
    have hfuel : pairs.length < Cursor.fuel ⟨'\x7b' :: text, before⟩ := by
      simp only [Cursor.fuel, List.length_cons]
      omega
    obtain ⟨closing, hmembers⟩ :=
      (exact_pairs (inner room (Nat.lt_succ_self room)) _ ⟨text, _⟩ pairs ('\x7d' :: rest)).2
        ⟨hfuel, rest, rfl, h, Nat.le_of_succ_le_succ hdepth⟩
    exact ⟨_, .object rfl hmembers⟩

end

/-- **A tree is read exactly where a text of it stands**, if there is room for its brackets. The
induction is on that room: the values between two brackets are read with one pair less. -/
theorem exact_tree (depth : Nat) : Exact (tree depth) (TreeText depth) := by
  -- on the room that is left: what is inside a bracket is read with room for one bracket less
  induction depth using Nat.strong_induction_on with
  | h depth ih =>
  intro c value rest
  constructor
  · rintro ⟨offset, h⟩
    obtain ⟨start, hstart, hfrom⟩ := tree_eq_ok_iff.1 h
    obtain rfl := (valueStart_eq_ok_iff.1 hstart).1
    exact ⟨_, spaces_skipBlanks c, valueText_of_treeFrom ih hfrom⟩
  · rintro ⟨start, hspaces, h, hdepth⟩
    obtain ⟨middle, hskip⟩ := exists_skipBlanks_eq hspaces h.starts.fresh
    obtain ⟨offset, hfrom⟩ := h.exists_treeFrom ih hdepth middle
    have hmore := List.ne_nil_of_length_pos (Nat.zero_lt_of_lt h.length_lt)
    exact ⟨offset, tree_eq_ok_iff.2 ⟨_, valueStart_eq_ok_iff.2 ⟨hskip.symm, hmore⟩, hfrom⟩⟩

/-! ### Whole texts -/

/-- The text is one of the tree, with white space around it. -/
def WrittenAs (form : Json) (text : String) : Prop :=
  ∃ start rest, Spaces text.toList start ∧ ValueText start form rest ∧ Spaces rest []

/-- A whole text is read as a tree if nothing but white space stands around the tree. The statement
leaves the room for brackets open, so that `WrittenAs.unique` can choose it large enough. -/
theorem readAll_tree_eq_ok_iff {depth : Nat} {text : String} {form : Json} :
    readAll (tree depth) text = .ok form ↔ form.WrittenAs text ∧ form.nesting ≤ depth := by
  rw [readAll_eq_ok_iff]
  constructor
  · rintro ⟨⟨rest, offset⟩, htree, hend⟩
    obtain ⟨start, hspaces, h, hdepth⟩ := (exact_tree depth _ _ _).1 ⟨offset, htree⟩
    exact ⟨⟨start, rest, hspaces, h, (rest_skipBlanks_iff.1 hend).1⟩, hdepth⟩
  · rintro ⟨⟨start, rest, hspaces, h, hend⟩, hdepth⟩
    obtain ⟨offset, htree⟩ :=
      (exact_tree depth (.start text) form rest).2 ⟨start, hspaces, h, hdepth⟩
    exact ⟨_, htree, rest_skipBlanks_iff.2 ⟨hend, by simp [Fresh]⟩⟩

/-- **What is read as a tree** are the texts of the tree, unless it is nested too deeply. The
grammar on the right knows neither cursors nor steps nor the limit. -/
theorem ofText_eq_ok_iff {text : String} {form : Json} :
    ofText text = .ok form ↔ form.WrittenAs text ∧ form.nesting ≤ nestingLimit :=
  readAll_tree_eq_ok_iff

/-- A tree is written as its compact text, so the grammar has a text for every printable tree, deep
ones among them. -/
theorem writtenAs_compact {form : Json} (printable : form.Printable) :
    form.WrittenAs form.compact := by
  have hreads := reads_tree form.nesting printable (Nat.le_refl _)
  exact (readAll_tree_eq_ok_iff.1 (readAll_ofList hreads)).1

/-- **A text is one of one tree only**, however deeply it is nested. It is read off the reader: with
room enough for both trees it would give both. -/
theorem WrittenAs.unique {text : String} {form form' : Json} (h : form.WrittenAs text)
    (h' : form'.WrittenAs text) : form = form' := by
  have hread := readAll_tree_eq_ok_iff.2 ⟨h, Nat.le_max_left form.nesting form'.nesting⟩
  have hread' := readAll_tree_eq_ok_iff.2 ⟨h', Nat.le_max_right form.nesting form'.nesting⟩
  exact Except.ok.inj (hread.symm.trans hread')

end AppManifest.Json
