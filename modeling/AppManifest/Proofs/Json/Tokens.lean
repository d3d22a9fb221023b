import AppManifest.Json.Printer
import AppManifest.Json.Reader
import AppManifest.Proofs.Binary64.ReadBack
/-!
# Tokens are read as they were written

A reader *reads* something from characters if it does so wherever the characters stand and whatever
follows, as long as that may follow (`Reads`). How many bytes came before does not matter, since it
is counted for faults only. Reading one thing after the other is `Reads.bind`; what is recognised by
its first characters is read by `Reads.past` from those that follow them.

Strings can be followed by anything, since they end with a quote (`reads_string`). A number ends
where no digit, point or exponent follows (`NumberEnds`); both kinds of numbers are printed from
their parts (`NumberParts`) and read by `reads_number`.
-/

namespace AppManifest.Json

variable {α β : Type} {follow follow' : List Char → Prop}

/-- A reader reads `a` from the given characters and stops behind them, wherever they stand and
whatever follows that may follow. -/
def Reads (follow : List Char → Prop) (reader : Reader α) (chars : List Char) (a : α) : Prop :=
  ∀ (rest : List Char) (offset : Nat), follow rest →
    ∃ behind, reader ⟨chars ++ rest, offset⟩ = .ok (a, ⟨rest, behind⟩)

/-- Anything may follow. -/
def Anything (_ : List Char) : Prop := True

namespace Reads

theorem mono {reader : Reader α} {chars : List Char} {a : α} (h : Reads follow reader chars a)
    (weaker : ∀ rest, follow' rest → follow rest) : Reads follow' reader chars a :=
  fun rest offset hrest ↦ h rest offset (weaker rest hrest)

/-- What takes no characters is read where it stands. -/
theorem pure (a : α) : Reads follow (fun c ↦ .ok (a, c)) [] a :=
  fun _ offset _ ↦ ⟨offset, rfl⟩

/-- **One thing is read after the other**, if the second may follow the first. The condition is on
what stands behind both, since the first reader only looks as far as it has to. -/
theorem bind {reader : Reader α} {next : α × Cursor → Except Fault (β × Cursor)}
    {first second : List Char} {a : α} {b : β} (hfirst : Reads follow reader first a)
    (hsecond : Reads follow' (fun c ↦ next (a, c)) second b)
    (hfollow : ∀ rest, follow' rest → follow (second ++ rest)) :
    Reads follow' (fun c ↦ reader c >>= next) (first ++ second) b := by
  intro rest offset hrest
  obtain ⟨middle, hmiddle⟩ := hfirst (second ++ rest) offset (hfollow rest hrest)
  obtain ⟨behind, hbehind⟩ := hsecond rest middle hrest
  refine ⟨behind, ?_⟩
  rw [List.append_assoc]
  dsimp only
  rw [hmiddle]
  exact hbehind

/-- What was read is turned into something else. -/
theorem map {reader : Reader α} {chars : List Char} {a : α} (h : Reads follow reader chars a)
    (f : α → β) : Reads follow (fun c ↦ do
      let (a, c) ← reader c
      .ok (f a, c)) chars (f a) := by
  rw [← List.append_nil chars]
  exact h.bind (Reads.pure (f a)) fun _ hrest ↦ hrest

/-- **A reader that goes past some characters reads what comes behind them.** It is how a value that
is recognised by its first characters is read. -/
theorem past {reader inner : Reader α} {p chars : List Char} {a : α}
    (h : Reads follow inner chars a)
    (heq : ∀ rest offset, ∃ middle, reader ⟨p ++ rest, offset⟩ = inner ⟨rest, middle⟩) :
    Reads follow reader (p ++ chars) a := by
  intro rest offset hrest
  obtain ⟨middle, hmiddle⟩ := heq (chars ++ rest) offset
  obtain ⟨behind, hbehind⟩ := h rest middle hrest
  refine ⟨behind, ?_⟩
  rw [List.append_assoc, hmiddle, hbehind]

end Reads

/-! ### Words -/

/-- A word is read as it stands, and anything may follow it. -/
theorem reads_word (chars : List Char) : Reads Anything (word chars) chars () := by
  induction chars with
  | nil => exact Reads.pure ()
  | cons ch more ih =>
    refine Reads.past (p := [ch]) ih fun rest offset ↦ ⟨offset + ch.utf8Size, ?_⟩
    rw [List.singleton_append, word]
    exact if_pos rfl

/-! ### Strings -/

/-- The digits of a control character have its value, and each of them is one byte. Only such
characters are written with digits. -/
theorem hexValue4?_twoHexDigits :
    ∀ n < 32, hexValue4? ('0' :: '0' :: twoHexDigits n) = some n ∧
      byteLength ('0' :: '0' :: twoHexDigits n) = 4 := by decide

/-- Four digits of a control character are read as its number. -/
theorem reads_hexEscape {n : Nat} (h : n < 32) :
    Reads Anything hexEscape ('0' :: '0' :: twoHexDigits n) n := by
  obtain ⟨hvalue, hlength⟩ := hexValue4?_twoHexDigits n h
  intro rest offset _
  refine ⟨offset + 4, ?_⟩
  have htake : ('0' :: '0' :: twoHexDigits n ++ rest).take 4 = '0' :: '0' :: twoHexDigits n := rfl
  have hdrop : ('0' :: '0' :: twoHexDigits n ++ rest).drop 4 = rest := rfl
  rw [hexEscape]
  dsimp only
  rw [htake, hdrop, hlength, if_neg (Nat.lt_irrefl 4), hvalue]

/-- A control character is no half of a surrogate pair, so nothing is looked for behind its digits.
-/
theorem reads_unicodeEscape {n : Nat} (h : n < 32) :
    Reads Anything unicodeEscape ('0' :: '0' :: twoHexDigits n) (Char.ofNat n) := by
  intro rest offset _
  obtain ⟨behind, hbehind⟩ := reads_hexEscape h rest offset trivial
  refine ⟨behind, ?_⟩
  rw [unicodeEscape, hbehind]
  show (if 0xDC00 ≤ n ∧ n ≤ 0xDFFF then _ else _) = _
  rw [if_neg (by omega), if_pos (by omega)]

/-- A character that is written as itself. -/
def isPlain (ch : Char) : Prop := ch ≠ '"' ∧ ch ≠ '\\' ∧ 32 ≤ ch.toNat

/-- **An escaped character is that character itself, or a backslash and what `escape` reads.** The
two cases are those of the loop over a string. -/
theorem escapeChar_cases (ch : Char) :
    (escapeChar ch = [ch] ∧ isPlain ch) ∨
      ∃ letters, escapeChar ch = '\\' :: letters ∧ Reads Anything escape letters ch := by
  have letter : ∀ {letter : Char}, letter ≠ 'u' → escapeLetter? letter = some ch →
      Reads Anything escape [letter] ch := by
    intro letter hu hletter rest offset _
    refine ⟨offset + letter.utf8Size, ?_⟩
    rw [escape]
    dsimp only [List.cons_append]
    rw [if_neg hu, hletter]
    rfl
  have hval : ∀ {n : Nat}, ch.toNat = n → ch = Char.ofNat n := by
    rintro n rfl
    exact (Char.ofNat_toNat ch).symm
  by_cases hquote : ch = '"'
  · subst hquote
    exact Or.inr ⟨['"'], rfl, letter (by decide) (by decide)⟩
  by_cases hbackslash : ch = '\\'
  · subst hbackslash
    exact Or.inr ⟨['\\'], rfl, letter (by decide) (by decide)⟩
  by_cases hline : ch = '\n'
  · subst hline
    exact Or.inr ⟨['n'], rfl, letter (by decide) (by decide)⟩
  by_cases hreturn : ch = '\r'
  · subst hreturn
    exact Or.inr ⟨['r'], rfl, letter (by decide) (by decide)⟩
  by_cases htab : ch = '\t'
  · subst htab
    exact Or.inr ⟨['t'], rfl, letter (by decide) (by decide)⟩
  by_cases hbell : ch.toNat = 8
  · obtain rfl := hval hbell
    exact Or.inr ⟨['b'], rfl, letter (by decide) (by decide)⟩
  by_cases hfeed : ch.toNat = 12
  · obtain rfl := hval hfeed
    exact Or.inr ⟨['f'], rfl, letter (by decide) (by decide)⟩
  rw [escapeChar, if_neg hquote, if_neg hbackslash, if_neg hline, if_neg hreturn, if_neg htab,
    if_neg hbell, if_neg hfeed]
  by_cases hcontrol : ch.toNat < 32
  · right
    rw [if_pos hcontrol]
    refine ⟨_, rfl, fun rest offset _ ↦ ?_⟩
    obtain ⟨behind, hbehind⟩ :=
      reads_unicodeEscape hcontrol rest (offset + 'u'.utf8Size) trivial
    rw [Char.ofNat_toNat] at hbehind
    exact ⟨behind, hbehind⟩
  · left
    rw [if_neg hcontrol]
    exact ⟨rfl, hquote, hbackslash, by omega⟩

/-- Every character takes up characters of a text. -/
theorem escapeChar_ne_nil (ch : Char) : escapeChar ch ≠ [] := by
  rcases escapeChar_cases ch with ⟨heq, -⟩ | ⟨letters, heq, -⟩
  · simp [heq]
  · simp [heq]

/-- An escaped text is no shorter, so a loop with a step for each character of it has enough of
them. -/
theorem length_le_flatMap_escapeChar (chars : List Char) :
    chars.length ≤ (chars.flatMap escapeChar).length := by
  induction chars with
  | nil => exact Nat.le_refl _
  | cons ch rest ih =>
    have hpos : 0 < (escapeChar ch).length := List.length_pos_iff.2 (escapeChar_ne_nil ch)
    rw [List.flatMap_cons, List.length_append, List.length_cons]
    omega

/-- Characters are read one after the other, behind those that were read already. Each of them is
paid for by one step. -/
theorem reads_stringFrom (chars : List Char) : ∀ (fuel : Nat) (done : List Char),
    chars.length < fuel →
    Reads Anything (stringFrom fuel done) (chars.flatMap escapeChar ++ ['"'])
      (String.ofList (done.reverse ++ chars)) := by
  induction chars with
  | nil =>
    intro fuel done hfuel rest offset _
    obtain ⟨fuel, rfl⟩ : ∃ more, fuel = more + 1 := ⟨fuel - 1, by simp at hfuel; omega⟩
    refine ⟨offset + '"'.utf8Size, ?_⟩
    rw [List.append_nil]
    rfl
  | cons ch more ih =>
    intro fuel done hfuel
    obtain ⟨fuel, rfl⟩ : ∃ more, fuel = more + 1 := ⟨fuel - 1, by simp at hfuel; omega⟩
    have hmore := ih fuel (ch :: done) (by simpa using hfuel)
    have hdone : (ch :: done).reverse ++ more = done.reverse ++ ch :: more := by simp
    rw [hdone] at hmore
    rw [List.flatMap_cons, List.append_assoc]
    rcases escapeChar_cases ch with ⟨heq, hquote, hbackslash, hprintable⟩ | ⟨letters, heq, hescape⟩
    · rw [heq]
      refine hmore.past fun rest offset ↦ ⟨offset + ch.utf8Size, ?_⟩
      rw [List.singleton_append, stringFrom]
      dsimp only
      rw [if_neg hquote, if_neg hbackslash, if_neg (by omega)]
      rfl
    · have hread : Reads Anything (fun c ↦ escape c >>= fun found ↦
          stringFrom fuel (found.1 :: done) found.2) _ _ := hescape.bind hmore fun _ _ ↦ trivial
      rw [heq, List.cons_append]
      exact hread.past (p := ['\\']) fun _ _ ↦ ⟨_, rfl⟩

/-- **A string is read as it was written**, behind its opening quote, and anything may follow the
closing one. -/
theorem reads_stringBody (s : String) :
    Reads Anything stringBody (s.toList.flatMap escapeChar ++ ['"']) s := by
  intro rest offset _
  have hlength := length_le_flatMap_escapeChar s.toList
  have hfuel : s.toList.length <
      Cursor.fuel ⟨s.toList.flatMap escapeChar ++ ['"'] ++ rest, offset⟩ := by
    simp only [Cursor.fuel, List.length_append]
    omega
  obtain ⟨behind, hbehind⟩ := reads_stringFrom s.toList _ [] hfuel rest offset trivial
  refine ⟨behind, ?_⟩
  rw [List.reverse_nil, List.nil_append, String.ofList_toList] at hbehind
  exact hbehind

/-! ### Digits -/

/-- No digit follows. -/
def NoDigit (rest : List Char) : Prop := ∀ ch ∈ rest.head?, isDigit ch = false

theorem isDigit_digitChar : ∀ d < 10, isDigit d.digitChar = true ∧
    d.digitChar.toNat - '0'.toNat = d := by decide

/-- A run of digits is read as a whole, where no further digit follows it. -/
theorem digitRun_digitChars {digits : List Nat} (bounded : ∀ d ∈ digits, d < 10)
    {rest : List Char} (offset : Nat) (hrest : NoDigit rest) :
    digitRun ⟨Binary64.digitChars digits ++ rest, offset⟩ =
      (digits, ⟨rest, offset + (Binary64.digitChars digits).length⟩) := by
  have hdigits : ∀ ch ∈ Binary64.digitChars digits, isDigit ch = true := by
    intro ch hmem
    obtain ⟨d, hd, rfl⟩ := List.mem_map.1 hmem
    exact (isDigit_digitChar d (bounded d hd)).1
  have htake : rest.takeWhile isDigit = [] ∧ rest.dropWhile isDigit = rest := by
    cases rest with
    | nil => exact ⟨rfl, rfl⟩
    | cons ch more =>
      have hch : isDigit ch = false := hrest ch rfl
      simp [hch]
  have hvalues : (Binary64.digitChars digits).map (fun ch ↦ ch.toNat - '0'.toNat) = digits := by
    rw [Binary64.digitChars, List.map_map]
    exact (List.map_congr_left fun d hd ↦ (isDigit_digitChar d (bounded d hd)).2).trans
      (List.map_id digits)
  rw [digitRun]
  dsimp only
  rw [List.takeWhile_append_of_pos hdigits, List.dropWhile_append_of_pos hdigits, htake.1, htake.2,
    List.append_nil, hvalues]

/-- The digits before a point: at least one, and a leading zero stands alone. -/
structure IsWhole (digits : List Nat) : Prop where
  nonempty : digits ≠ []
  bounded : ∀ d ∈ digits, d < 10
  noLeadingZero : ∀ {more : List Nat}, digits = 0 :: more → more = []

/-- The digits in front of a point are read as they were written. -/
theorem reads_wholeDigits {digits : List Nat} (whole : IsWhole digits) (atEnd : Cause) :
    Reads NoDigit (wholeDigits atEnd) (Binary64.digitChars digits) digits := by
  intro rest offset hrest
  refine ⟨offset + (Binary64.digitChars digits).length, ?_⟩
  rw [wholeDigits, digitRun_digitChars whole.bounded offset hrest]
  dsimp only
  split
  · exact absurd rfl whole.nonempty
  · exact absurd (whole.noLeadingZero rfl) (by simp)
  · rfl

/-- Digits that are needed are read as they were written. -/
theorem reads_someDigits {digits : List Nat} (nonempty : digits ≠ [])
    (bounded : ∀ d ∈ digits, d < 10) (atEnd : Cause) :
    Reads NoDigit (someDigits atEnd) (Binary64.digitChars digits) digits := by
  intro rest offset hrest
  refine ⟨offset + (Binary64.digitChars digits).length, ?_⟩
  rw [someDigits, digitRun_digitChars bounded offset hrest]
  dsimp only
  rw [if_neg (by simpa using nonempty)]

/-! ### Numbers -/

/-- A number ends here: no digit, point or exponent follows. -/
def NumberEnds (rest : List Char) : Prop :=
  ∀ ch ∈ rest.head?, isDigit ch = false ∧ ch ≠ '.' ∧ ch ≠ 'e' ∧ ch ≠ 'E'

/-- Neither a digit nor a point follows. -/
def NoFraction (rest : List Char) : Prop := ∀ ch ∈ rest.head?, isDigit ch = false ∧ ch ≠ '.'

/-- The parts that a number is written from, but for its sign. -/
structure NumberParts where
  whole : List Nat
  fraction : Option (List Nat)
  power : Option Int

namespace NumberParts

/-- A point and the digits behind it. -/
def fractionChars : Option (List Nat) → List Char
  | none => []
  | some digits => '.' :: Binary64.digitChars digits

/-- An exponent, which has a sign always. -/
def powerChars : Option Int → List Char
  | none => []
  | some e => 'e' :: Binary64.exponentChars e

/-- The text of a number. -/
def chars (parts : NumberParts) : List Char :=
  Binary64.digitChars parts.whole ++ (fractionChars parts.fraction ++ powerChars parts.power)

/-- Parts that can be read: digits on both sides of a point, and no exponent beyond the limit. -/
structure WellFormed (parts : NumberParts) : Prop where
  whole : IsWhole parts.whole
  fraction : ∀ digits ∈ parts.fraction, digits ≠ [] ∧ ∀ d ∈ digits, d < 10
  power : ∀ e ∈ parts.power, e.natAbs ≤ exponentLimit

/-- What the parts of a number are read as. -/
def tree? (negative : Bool) (parts : NumberParts) : Option Json :=
  match parts.fraction, parts.power with
  | none, none => wholeNumber? negative parts.whole
  | _, _ => (Binary64.ofDecimal? negative (Decimal.ofParts parts.whole (parts.fraction.getD [])
      (parts.power.getD 0))).map Json.float

end NumberParts

open NumberParts

/-- The digits of a number, as they are printed. The lemmas of the library on `Nat.toDigits` apply
through it. -/
theorem digitChars_digitsOf (n : Nat) :
    Binary64.digitChars (Decimal.digitsOf n) = Nat.toDigits 10 n := by
  induction n using Nat.strongRecOn with
  | ind n ih =>
    rw [Decimal.digitsOf_eq, Nat.toDigits_eq_if (by decide)]
    split
    · rfl
    · rw [Binary64.digitChars, List.map_append, ← Binary64.digitChars, ih (n / 10) (by omega)]
      rfl

/-- The digits of a number can stand in front of a point: only zero has a leading zero. -/
theorem isWhole_digitsOf (n : Nat) : IsWhole (Decimal.digitsOf n) where
  nonempty := Decimal.digitsOf_ne_nil n
  bounded _ := Decimal.lt_of_mem_digitsOf
  noLeadingZero := Decimal.digitsOf_eq_cons_zero

/-- A point and its digits are read as they were written, or their absence is. -/
theorem reads_fractionDigits (atEnd : Cause) {fraction : Option (List Nat)}
    (h : ∀ digits ∈ fraction, digits ≠ [] ∧ ∀ d ∈ digits, d < 10) :
    Reads NoFraction (fractionDigits atEnd) (fractionChars fraction) fraction := by
  cases fraction with
  | none =>
    intro rest offset hrest
    refine ⟨offset, ?_⟩
    have hpoint : Cursor.startsWith ⟨rest, offset⟩ ['.'] = false := by
      cases rest with
      | nil => rfl
      | cons ch more => simpa [Cursor.startsWith] using (hrest ch rfl).2
    rw [fractionDigits, fractionChars, List.nil_append, hpoint]
    rfl
  | some digits =>
    obtain ⟨nonempty, bounded⟩ := h digits rfl
    have hdigits : Reads NoFraction (someDigits atEnd) (Binary64.digitChars digits) digits :=
      (reads_someDigits nonempty bounded atEnd).mono fun _ hrest ch hch ↦ (hrest ch hch).1
    exact (hdigits.map some).past (p := ['.']) fun _ _ ↦ ⟨_, rfl⟩

theorem natOf_take_le (digits : List Nat) (count : Nat) :
    Decimal.natOf (digits.take count) ≤ Decimal.natOf digits := by
  conv_rhs => rw [← List.take_append_drop count digits, Decimal.natOf_append]
  exact Nat.le_add_right_of_le (Nat.le_mul_of_pos_right _ (by positivity))

/-- An exponent up to the limit is counted as a whole: no number of its first digits is above the
limit. -/
theorem excessAt?_eq_none {digits : List Nat} (h : Decimal.natOf digits ≤ exponentLimit) :
    excessAt? digits = none := by
  rw [excessAt?, List.find?_eq_none]
  intro count _
  have hle := natOf_take_le digits count
  simpa using Nat.le_trans hle h

/-- The digits of an exponent are read with the sign that is always written in front of them. -/
theorem reads_exponentDigits (atEnd : Cause) (e : Int) :
    Reads NoDigit (exponentDigits atEnd) ('e' :: Binary64.exponentChars e)
      (some (decide (e < 0), Decimal.digitsOf e.natAbs)) := by
  have whole := isWhole_digitsOf e.natAbs
  have hdigits := reads_someDigits whole.nonempty whole.bounded atEnd
  rw [Binary64.exponentChars, ← digitChars_digitsOf]
  by_cases hneg : e < 0
  · rw [if_pos hneg, decide_eq_true hneg]
    have hread := hdigits.map fun digits ↦ some (true, digits)
    exact hread.past (p := ['e', '-']) fun _ _ ↦ ⟨_, rfl⟩
  · rw [if_neg hneg, decide_eq_false hneg]
    have hread := hdigits.map fun digits ↦ some (false, digits)
    exact hread.past (p := ['e', '+']) fun _ _ ↦ ⟨_, rfl⟩

/-- An exponent up to the limit is read as it was written. That it counts does not depend on the
digits in front of it then. -/
theorem reads_exponent (isZero : Bool) {power : Option Int}
    (h : ∀ e ∈ power, e.natAbs ≤ exponentLimit) :
    Reads NumberEnds (exponent isZero) (powerChars power) power := by
  intro rest offset hrest
  cases power with
  | none =>
    refine ⟨offset, ?_⟩
    have hmark : Cursor.startsWith ⟨rest, offset⟩ ['e', 'E'] = false := by
      cases rest with
      | nil => rfl
      | cons ch more => simpa [Cursor.startsWith] using (hrest ch rfl).2.2
    rw [exponent, powerChars, List.nil_append, exponentDigits, hmark]
    rfl
  | some e =>
    obtain ⟨behind, hbehind⟩ := reads_exponentDigits .endInValue e rest offset
      fun ch hch ↦ (hrest ch hch).1
    have hnat : Decimal.natOf (Decimal.digitsOf e.natAbs) = e.natAbs := Decimal.natOf_digitsOf _
    have hexcess : excessAt? (Decimal.digitsOf e.natAbs) = none :=
      excessAt?_eq_none (by rw [hnat]; exact h e rfl)
    refine ⟨behind, ?_⟩
    rw [exponent, powerChars, hbehind]
    simp only [bind, Except.bind, hexcess, hnat, decide_eq_true_eq]
    split
    · next hneg => rw [show (-(e.natAbs : Int)) = e by omega]
    · next hneg => rw [show (e.natAbs : Int) = e by omega]

/-- **A number is read from its parts**, behind its sign. The tree that it becomes is given by
`tree?`, so the lemma serves integers and floats. -/
theorem reads_number {negative : Bool} {parts : NumberParts} (h : parts.WellFormed) {value : Json}
    (hvalue : parts.tree? negative = some value) :
    Reads NumberEnds (number negative) parts.chars value := by
  obtain ⟨whole, fraction, power⟩ := parts
  obtain ⟨hwhole, hfraction, hpower⟩ := h
  unfold number
  refine (reads_wholeDigits hwhole .endInValue).bind ?_ ?_
  · refine (reads_fractionDigits .endInValue hfraction).bind ?_ ?_
    · rw [← List.append_nil (powerChars _)]
      refine (reads_exponent _ hpower).bind ?_ fun _ hrest ↦ hrest
      -- the parts are put together here as they are by `tree?`
      cases fraction <;> cases power <;>
      · simp only [tree?] at hvalue
        simp only [hvalue]
        exact Reads.pure value
    · intro rest hrest ch hch
      cases power with
      | none => exact ⟨(hrest ch hch).1, (hrest ch hch).2.1⟩
      | some e =>
        obtain rfl : 'e' = ch := Option.some.inj hch
        exact ⟨rfl, by decide⟩
  · intro rest hrest ch hch
    cases fraction with
    | some digits =>
      obtain rfl : '.' = ch := Option.some.inj hch
      rfl
    | none =>
      cases power with
      | none => exact (hrest ch hch).1
      | some e =>
        obtain rfl : 'e' = ch := Option.some.inj hch
        rfl

end AppManifest.Json
