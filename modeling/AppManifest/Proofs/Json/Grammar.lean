import AppManifest.Proofs.Json.Inversion
import AppManifest.Proofs.Json.Tokens
/-!
# The grammar of JSON tokens

What a JSON text may be is said by relations between a text, what stands at its front, and the rest
behind it. A reader is *exact* for such a relation if it accepts what the relation says and nothing
else (`Exact`); readers one after the other are exact for the relations one after the other
(`Exact.bind`).

The relations know nothing of readers. Strings are characters as they are or escaped
(`StringText`), and halves of a surrogate pair stand together only (`CodeText`). Numbers are digits
with a point and an exponent (`NumberText`), as many as there are, and they are texts only if they
are not too large.
-/

namespace AppManifest.Json

variable {α β : Type}

/-- A reader accepts what a relation between texts says: what is read at the front of the first and
what is left of it is related, and the other way round. -/
def Exact (reader : Reader α) (R : List Char → α → List Char → Prop) : Prop :=
  ∀ c a rest, (∃ offset, reader c = .ok (a, ⟨rest, offset⟩)) ↔ R c.rest a rest

namespace Exact

variable {R R' : List Char → α → List Char → Prop}

/-- Exactness depends on the relation only up to equivalence, so the relation that the laws below
give can be put into the form of the grammar. -/
theorem congr {reader : Reader α} (h : Exact reader R)
    (same : ∀ text a rest, R text a rest ↔ R' text a rest) : Exact reader R' :=
  fun c a rest ↦ (h c a rest).trans (same c.rest a rest)

/-- A reader that reads nothing gives its value and leaves the text as it is. -/
theorem pure (a : α) :
    Exact (fun c ↦ .ok (a, c)) fun text found rest ↦ found = a ∧ rest = text := by
  rintro ⟨text, offset⟩ found rest
  constructor
  · rintro ⟨behind, h⟩
    obtain ⟨rfl, heq⟩ := Prod.mk.inj (Except.ok.inj h)
    exact ⟨rfl, (Cursor.mk.inj heq).1.symm⟩
  · rintro ⟨rfl, rfl⟩
    exact ⟨offset, rfl⟩

/-- **Readers one after the other are exact for the relations one after the other.** What the second
has to read may depend on what the first has found. -/
theorem bind {reader : Reader α} {next : α × Cursor → Except Fault (β × Cursor)}
    {S : α → List Char → β → List Char → Prop} (h : Exact reader R)
    (hnext : ∀ a, Exact (fun c ↦ next (a, c)) (S a)) :
    Exact (fun c ↦ reader c >>= next) fun text b rest ↦
      ∃ a middle, R text a middle ∧ S a middle b rest := by
  intro c b rest
  simp only [bind_eq_ok]
  constructor
  · rintro ⟨offset, ⟨a, behind⟩, hread, hrest⟩
    exact ⟨a, behind.rest, (h c a _).1 ⟨_, hread⟩, (hnext a behind b rest).1 ⟨offset, hrest⟩⟩
  · rintro ⟨a, middle, hread, hrest⟩
    obtain ⟨between, hread⟩ := (h c a middle).2 hread
    obtain ⟨offset, hrest⟩ := (hnext a ⟨middle, between⟩ b rest).2 hrest
    exact ⟨offset, _, hread, hrest⟩

/-- What was read is turned into something else, and the text that was read stays the same. -/
theorem map {reader : Reader α} (h : Exact reader R) (f : α → β) :
    Exact (fun c ↦ reader c >>= fun found ↦ .ok (f found.1, found.2)) fun text b rest ↦
      ∃ a, R text a rest ∧ f a = b := by
  refine (h.bind fun a ↦ Exact.pure (f a)).congr fun text b rest ↦ ?_
  constructor
  · rintro ⟨a, middle, hread, rfl, rfl⟩
    exact ⟨a, hread, rfl⟩
  · rintro ⟨a, hread, rfl⟩
    exact ⟨a, rest, hread, rfl, rfl⟩

/-- A reader that always fails is exact for no text at all. It is the law for the branches of a
reader that report a fault. -/
theorem fault {cause : Cursor → Fault} :
    Exact (fun c ↦ (.error (cause c) : Except Fault (α × Cursor))) fun _ _ _ ↦ False :=
  fun _ _ _ ↦ by simp

/-- A branch is read exactly if both of its sides are, each under its own condition. A condition on
the cursor is not of this form; readers with one are split by hand. -/
theorem ite {p : Prop} [Decidable p] {yes no : Reader α} (hyes : p → Exact yes R)
    (hno : ¬ p → Exact no R') : Exact (fun c ↦ if p then yes c else no c) fun text a rest ↦
      (p ∧ R text a rest) ∨ (¬ p ∧ R' text a rest) := by
  intro c a rest
  by_cases h : p
  · simpa [h] using hyes h c a rest
  · simpa [h] using hno h c a rest

end Exact

/-! ### Words -/

theorem exact_word (chars : List Char) :
    Exact (word chars) fun text _ rest ↦ text = chars ++ rest := by
  induction chars with
  | nil =>
    refine (Exact.pure ()).congr fun text _ rest ↦ ?_
    simp [eq_comm]
  | cons ch more ih =>
    rintro ⟨_ | ⟨first, text⟩, offset⟩ ⟨⟩ rest
    · simp [word, Cursor.faultAt]
    · rw [word]
      dsimp only
      by_cases h : first = ch
      · rw [if_pos h, ih]
        simp [Cursor.skip, h]
      · rw [if_neg h]
        simp [h]

/-! ### Strings -/

/-- The code of a character behind `\u`: four digits, or twice four digits for the halves of a
surrogate pair. -/
inductive CodeText : List Char → Char → List Char → Prop where
  | single {digits rest : List Char} {n : Nat} (value : hexValue4? digits = some n)
      (range : n < 0xD800 ∨ 0xDFFF < n) : CodeText (digits ++ rest) (Char.ofNat n) rest
  | pair {first second rest : List Char} {high low : Nat} (value : hexValue4? first = some high)
      (range : 0xD800 ≤ high ∧ high ≤ 0xDBFF) (value' : hexValue4? second = some low)
      (range' : 0xDC00 ≤ low ∧ low ≤ 0xDFFF) :
      CodeText (first ++ '\\' :: 'u' :: (second ++ rest))
        (Char.ofNat (0x10000 + (high - 0xD800) * 0x400 + (low - 0xDC00))) rest

/-- An escape behind its backslash. -/
inductive EscapeText : List Char → Char → List Char → Prop where
  | letter {letter ch : Char} {rest : List Char} (h : escapeLetter? letter = some ch) :
      EscapeText (letter :: rest) ch rest
  | code {text rest : List Char} {ch : Char} (h : CodeText text ch rest) :
      EscapeText ('u' :: text) ch rest

/-- The characters of a string behind its opening quote, up to the closing one. -/
inductive StringText : List Char → List Char → List Char → Prop where
  | close {rest : List Char} : StringText ('"' :: rest) [] rest
  | plain {text chars rest : List Char} {ch : Char} (h : isPlain ch)
      (more : StringText text chars rest) : StringText (ch :: text) (ch :: chars) rest
  | escape {text middle chars rest : List Char} {ch : Char} (h : EscapeText text ch middle)
      (more : StringText middle chars rest) : StringText ('\\' :: text) (ch :: chars) rest

/-- Only four characters have a value as hexadecimal digits, so `hexEscape` takes as many as the
grammar. -/
theorem length_of_hexValue4? {digits : List Char} {n : Nat} (h : hexValue4? digits = some n) :
    digits.length = 4 := by
  unfold hexValue4? at h
  split at h
  · rfl
  · exact absurd h (by simp)

/-- A text has at least as many bytes as characters. The reader compares bytes, the grammar counts
characters. -/
theorem length_le_byteLength (chars : List Char) : chars.length ≤ byteLength chars := by
  induction chars with
  | nil => exact Nat.le_refl 0
  | cons ch more ih =>
    have hpos := ch.utf8Size_pos
    show more.length + 1 ≤ ch.utf8Size + byteLength more
    omega

/-- Four hexadecimal digits are read as their value. -/
theorem exact_hexEscape : Exact hexEscape fun text n rest ↦
    ∃ digits, text = digits ++ rest ∧ hexValue4? digits = some n := by
  rintro ⟨text, offset⟩ n rest
  rw [hexEscape]
  dsimp only
  constructor
  · rintro ⟨behind, h⟩
    split at h
    · exact absurd h (by simp)
    split at h
    · next value hvalue =>
      obtain ⟨rfl, heq⟩ := Prod.mk.inj (Except.ok.inj h)
      exact ⟨text.take 4, by rw [← (Cursor.mk.inj heq).1, List.take_append_drop], hvalue⟩
    · exact absurd h (by simp)
  · rintro ⟨digits, rfl, hvalue⟩
    have hlength := length_of_hexValue4? hvalue
    have hbytes := length_le_byteLength digits
    rw [← hlength, List.take_left, List.drop_left, if_neg (by omega), hvalue]
    exact ⟨_, rfl⟩

/-- The marks in front of the second half of a surrogate pair are read one character at a time. -/
theorem exact_pairMark (ch : Char) : Exact (pairMark ch) fun text _ rest ↦ text = ch :: rest := by
  rintro ⟨_ | ⟨first, text⟩, offset⟩ ⟨⟩ rest
  · simp [pairMark, Cursor.faultBehind]
  · rw [pairMark]
    dsimp only
    by_cases h : first = ch
    · rw [if_pos h]
      simp [Cursor.skip, h]
    · rw [if_neg h]
      simp [h]

/-- A code behind `u` is read as the character that it stands for. A code that is one half of a
surrogate pair needs the other half behind it, and the grammar says the same in two rules. -/
theorem exact_unicodeEscape : Exact unicodeEscape CodeText := by
  unfold unicodeEscape
  refine (exact_hexEscape.bind fun high ↦ .ite (fun _ ↦ .fault) fun _ ↦
    .ite (fun _ ↦ .pure _) fun _ ↦ (exact_pairMark '\\').bind fun _ ↦ (exact_pairMark 'u').bind
      fun _ ↦ exact_hexEscape.bind fun low ↦ .ite (fun _ ↦ .fault) fun _ ↦ .pure _).congr
    fun text ch rest ↦ ?_
  constructor
  · rintro ⟨high, middle, ⟨digits, rfl, hhigh⟩, ⟨-, ⟨⟩⟩ | ⟨hlow, h⟩⟩
    rcases h with ⟨hsingle, rfl, rfl⟩ | ⟨hpair, ⟨⟩, _, rfl, ⟨⟩, _, rfl, low, _, hsecond, h⟩
    · have hrange : high < 0xD800 ∨ 0xDFFF < high := by omega
      exact .single hhigh hrange
    · obtain ⟨second, rfl, hlow'⟩ := hsecond
      rcases h with ⟨-, ⟨⟩⟩ | ⟨hrange, hch, hrest⟩
      rw [hch, ← hrest]
      exact .pair hhigh (by omega) hlow' (by omega)
  · intro h
    cases h with
    | @single digits rest n value range =>
      exact ⟨n, rest, ⟨digits, rfl, value⟩, Or.inr ⟨by omega, Or.inl ⟨by omega, rfl, rfl⟩⟩⟩
    | @pair first second rest high low value range value' range' =>
      refine ⟨high, _, ⟨first, rfl, value⟩, Or.inr ⟨by omega, Or.inr ⟨by omega, ?_⟩⟩⟩
      exact ⟨(), _, rfl, (), _, rfl, low, rest, ⟨second, rfl, value'⟩, Or.inr ⟨by omega, rfl, rfl⟩⟩

/-- What stands behind a backslash is read as one character: a letter that abbreviates it, or a
code. -/
theorem exact_escape : Exact escape EscapeText := by
  rintro ⟨_ | ⟨letter, text⟩, offset⟩ ch rest
  · rw [escape]
    exact iff_of_false (by simp [Cursor.faultBehind]) (by rintro ⟨⟩)
  · rw [escape]
    dsimp only
    by_cases hu : letter = 'u'
    · subst hu
      rw [if_pos rfl, exact_unicodeEscape]
      constructor
      · exact .code
      · rintro (h | h)
        · exact absurd (show none = some ch from h) (by simp)
        · exact h
    · rw [if_neg hu]
      rcases hletter : escapeLetter? letter with - | value
      · refine iff_of_false (by simp) ?_
        rintro (h | h)
        · exact absurd (hletter.symm.trans h) (by simp)
        · exact hu rfl
      · constructor
        · rintro ⟨behind, h⟩
          obtain ⟨rfl, heq⟩ := Prod.mk.inj (Except.ok.inj h)
          obtain rfl := (Cursor.mk.inj heq).1
          exact .letter hletter
        · rintro (h | h)
          · obtain rfl := Option.some.inj (hletter.symm.trans h)
            exact ⟨_, rfl⟩
          · exact absurd rfl hu

/-- A string is read up to its closing quote, if there are steps enough: one for each character and
one for the quote. The characters read so far are carried in reverse, so the statement has them in
front. -/
theorem exact_stringFrom (fuel : Nat) (done : List Char) : Exact (stringFrom fuel done)
    fun text s rest ↦ ∃ chars, StringText text chars rest ∧ chars.length < fuel ∧
      String.ofList (done.reverse ++ chars) = s := by
  -- on the fuel: each step reads one character, and the last one the quote
  induction fuel generalizing done with
  | zero =>
    intro c s rest
    exact iff_of_false (by simp [stringFrom, Cursor.faultBehind])
      fun ⟨_, _, h, _⟩ ↦ Nat.not_lt_zero _ h
  | succ fuel ih =>
    rintro ⟨_ | ⟨ch, text⟩, offset⟩ s rest
    · rw [stringFrom]
      exact iff_of_false (by simp [Cursor.faultBehind]) (by rintro ⟨_, ⟨⟩, -⟩)
    rw [stringFrom]
    dsimp only
    by_cases hquote : ch = '"'
    · rw [if_pos hquote]
      subst hquote
      constructor
      · rintro ⟨behind, h⟩
        obtain ⟨rfl, heq⟩ := Prod.mk.inj (Except.ok.inj h)
        obtain rfl := (Cursor.mk.inj heq).1
        exact ⟨[], .close, Nat.succ_pos fuel, by rw [List.append_nil]⟩
      · rintro ⟨chars, hchars, -, rfl⟩
        cases hchars with
        | close => exact ⟨offset + '"'.utf8Size, by rw [List.append_nil]; rfl⟩
        | plain h => exact absurd rfl h.1
    by_cases hbackslash : ch = '\\'
    · rw [if_neg hquote, if_pos hbackslash]
      subst hbackslash
      refine ((exact_escape.bind fun value ↦ ih (value :: done)) ⟨text, _⟩ s rest).trans ?_
      constructor
      · rintro ⟨value, middle, hescape, chars, hchars, hlength, rfl⟩
        exact ⟨value :: chars, .escape hescape hchars, Nat.succ_lt_succ hlength, by simp⟩
      · rintro ⟨chars, hchars, hlength, rfl⟩
        cases hchars with
        | plain h => exact absurd rfl h.2.1
        | escape hescape hmore =>
          exact ⟨_, _, hescape, _, hmore, Nat.lt_of_succ_lt_succ hlength, by simp⟩
    rw [if_neg hquote, if_neg hbackslash]
    by_cases hcontrol : ch.toNat < 32
    · rw [if_pos hcontrol]
      refine iff_of_false (by simp [Cursor.faultBehind]) ?_
      rintro ⟨chars, hchars, -, -⟩
      cases hchars with
      | close => exact hquote rfl
      | plain h => exact absurd h.2.2 (by omega)
      | escape => exact hbackslash rfl
    · rw [if_neg hcontrol]
      refine (ih (ch :: done) ⟨text, _⟩ s rest).trans ?_
      constructor
      · rintro ⟨chars, hchars, hlength, rfl⟩
        have hplain : isPlain ch := ⟨hquote, hbackslash, by omega⟩
        exact ⟨ch :: chars, .plain hplain hchars, Nat.succ_lt_succ hlength, by simp⟩
      · rintro ⟨chars, hchars, hlength, rfl⟩
        cases hchars with
        | close => exact absurd rfl hquote
        | plain h hmore => exact ⟨_, hmore, Nat.lt_of_succ_lt_succ hlength, by simp⟩
        | escape => exact absurd rfl hbackslash

theorem CodeText.length_le {text rest : List Char} {ch : Char} (h : CodeText text ch rest) :
    rest.length ≤ text.length := by
  rcases h with _ | _ <;> simp only [List.length_append, List.length_cons] <;> omega

theorem EscapeText.length_lt {text rest : List Char} {ch : Char} (h : EscapeText text ch rest) :
    rest.length < text.length := by
  rcases h with _ | h
  · exact Nat.lt_succ_self _
  · exact Nat.lt_succ_of_le h.length_le

/-- Every character of a string takes a character of its text, and so does the closing quote. Hence
the steps that `stringBody` is given, one for each character of the text, are enough. -/
theorem StringText.length_lt {text chars rest : List Char} (h : StringText text chars rest) :
    chars.length + rest.length < text.length := by
  induction h with
  | close => simp
  | plain h more ih =>
    simp only [List.length_cons]
    omega
  | escape h more ih =>
    have hlength := h.length_lt
    simp only [List.length_cons]
    omega

/-- **A string is read up to its closing quote.** The steps of `exact_stringFrom` are gone from the
statement, since there are always enough of them. -/
theorem exact_stringBody : Exact stringBody fun text s rest ↦
    ∃ chars, StringText text chars rest ∧ String.ofList chars = s := by
  intro c s rest
  refine (exact_stringFrom c.fuel [] c s rest).trans (exists_congr fun chars ↦ ?_)
  refine and_congr_right fun hchars ↦ ?_
  have hlength := hchars.length_lt
  have hfuel : chars.length < c.fuel := by
    rw [Cursor.fuel]
    omega
  rw [and_iff_right hfuel]
  rfl

/-! ### Numbers -/

/-- As many digits as there are. -/
structure DigitsText (text : List Char) (digits : List Nat) (rest : List Char) : Prop where
  text_eq : text = Binary64.digitChars digits ++ rest
  bounded : ∀ d ∈ digits, d < 10
  ends : NoDigit rest

/-- A point with digits behind it, if there is one. -/
inductive FractionText : List Char → Option (List Nat) → List Char → Prop where
  | absent {text : List Char} (h : text.head? ≠ some '.') : FractionText text none text
  | given {text rest : List Char} {digits : List Nat} (h : DigitsText text digits rest)
      (nonempty : digits ≠ []) : FractionText ('.' :: text) (some digits) rest

/-- Digits with a sign or without one: whether it is a minus, and the digits. -/
inductive SignedText : List Char → Bool × List Nat → List Char → Prop where
  | unsigned {text rest : List Char} {digits : List Nat} (h : DigitsText text digits rest)
      (nonempty : digits ≠ []) : SignedText text (false, digits) rest
  | plus {text rest : List Char} {digits : List Nat} (h : DigitsText text digits rest)
      (nonempty : digits ≠ []) : SignedText ('+' :: text) (false, digits) rest
  | minus {text rest : List Char} {digits : List Nat} (h : DigitsText text digits rest)
      (nonempty : digits ≠ []) : SignedText ('-' :: text) (true, digits) rest

/-- An exponent, if there is one. -/
inductive PowerText : List Char → Option (Bool × List Nat) → List Char → Prop where
  | absent {text : List Char} (h : ∀ ch ∈ text.head?, ch ≠ 'e' ∧ ch ≠ 'E') :
      PowerText text none text
  | given {mark : Char} {text rest : List Char} {power : Bool × List Nat}
      (hmark : mark = 'e' ∨ mark = 'E') (h : SignedText text power rest) :
      PowerText (mark :: text) (some power) rest

/-- The exponent that is counted. One that is not will make a number too large, unless the number
is zero or the exponent is negative, when it does not matter how great it is. -/
def countedPower? (isZero : Bool) : Option (Bool × List Nat) → Option (Option Int)
  | none => some none
  | some (negative, digits) =>
    let e : Int := Decimal.natOf digits
    if Decimal.natOf digits ≤ exponentLimit then some (some (if negative then -e else e))
    else if isZero then some (some 0)
    else if negative then some (some (-exponentLimit))
    else none

/-- A number behind its sign, as far as it goes, and its value. -/
inductive NumberText (negative : Bool) : List Char → Json → List Char → Prop where
  | parts {text behind middle rest : List Char} {parts : NumberParts}
      {power : Option (Bool × List Nat)} {value : Json}
      (whole : DigitsText text parts.whole behind) (isWhole : IsWhole parts.whole)
      (fraction : FractionText behind parts.fraction middle) (hpower : PowerText middle power rest)
      (counted : countedPower? ((parts.whole ++ parts.fraction.getD []).all (· == 0)) power =
        some parts.power)
      (hvalue : parts.tree? negative = some value) : NumberText negative text value rest

/-- What a run stops at does not belong to it. The grammar asks for this wherever the reader takes
as much as it can, such as digits and white space. -/
theorem eq_false_of_mem_head?_dropWhile {p : Char → Bool} {text : List Char} {ch : Char}
    (h : ch ∈ (text.dropWhile p).head?) : p ch = false := by
  have hnot := List.head?_dropWhile_not p text
  rw [Option.mem_def.1 h] at hnot
  simpa using hnot

/-- A digit is the character of its value, so the digits that were read determine the text that they
were read from. -/
theorem digitChar_of_isDigit {ch : Char} (h : isDigit ch = true) :
    ch.toNat - '0'.toNat < 10 ∧ (ch.toNat - '0'.toNat).digitChar = ch := by
  obtain ⟨hlow, hhigh⟩ : '0'.toNat ≤ ch.toNat ∧ ch.toNat ≤ '9'.toNat := by
    simpa [isDigit, Char.le_def, UInt32.le_iff_toNat_le] using h
  have hback : ∀ d < 10, (d.digitChar).toNat = d + '0'.toNat := by decide
  have hlt : ch.toNat - '0'.toNat < 10 := by
    have hnine : '9'.toNat = '0'.toNat + 9 := by decide
    omega
  refine ⟨hlt, Char.toNat_inj.1 ?_⟩
  rw [hback _ hlt]
  omega

/-- A run of digits is read as far as it goes. -/
theorem digitsText_digitRun (c : Cursor) :
    DigitsText c.rest (digitRun c).1 (digitRun c).2.rest := by
  have hrun : ∀ ch ∈ c.rest.takeWhile isDigit, isDigit ch = true := fun _ ↦ List.mem_takeWhile_imp
  refine ⟨?_, ?_, ?_⟩
  · have hchars : Binary64.digitChars (digitRun c).1 = c.rest.takeWhile isDigit := by
      rw [Binary64.digitChars, digitRun, List.map_map]
      refine (List.map_congr_left fun ch hmem ↦ ?_).trans (List.map_id _)
      exact (digitChar_of_isDigit (hrun ch hmem)).2
    rw [hchars]
    exact List.takeWhile_append_dropWhile.symm
  · intro d hmem
    obtain ⟨ch, hch, rfl⟩ := List.mem_map.1 hmem
    exact (digitChar_of_isDigit (hrun ch hch)).1
  · exact fun _ ↦ eq_false_of_mem_head?_dropWhile

/-- The digits in front of a point are read as far as they go, at least one of them and no zero in
front of others. -/
theorem exact_wholeDigits (atEnd : Cause) : Exact (wholeDigits atEnd)
    fun text digits rest ↦ DigitsText text digits rest ∧ IsWhole digits := by
  intro c digits rest
  constructor
  · rintro ⟨offset, h⟩
    have htext := digitsText_digitRun c
    rcases hrun : digitRun c with ⟨found, behind⟩
    rw [hrun] at htext
    rw [wholeDigits, hrun] at h
    dsimp only at h
    split at h
    · exact absurd h (by simp [Cursor.faultAt])
    · exact absurd h (by simp [Cursor.faultAt])
    · next hnonempty hzero =>
      obtain ⟨rfl, rfl⟩ := Prod.mk.inj (Except.ok.inj h)
      refine ⟨htext, hnonempty, htext.bounded, fun {more} heq ↦ ?_⟩
      rcases more with - | ⟨next, more⟩
      · rfl
      · exact absurd heq (hzero next more)
  · rintro ⟨htext, whole⟩
    obtain ⟨text, offset⟩ := c
    obtain rfl : text = _ := htext.text_eq
    exact reads_wholeDigits whole atEnd rest offset htext.ends

/-- Where digits are needed they are read as far as they go. The cause of the fault at the end of
the text does not matter for what is accepted. -/
theorem exact_someDigits (atEnd : Cause) : Exact (someDigits atEnd)
    fun text digits rest ↦ DigitsText text digits rest ∧ digits ≠ [] := by
  intro c digits rest
  constructor
  · rintro ⟨offset, h⟩
    have htext := digitsText_digitRun c
    rcases hrun : digitRun c with ⟨found, behind⟩
    rw [hrun] at htext
    rw [someDigits, hrun] at h
    dsimp only at h
    split at h
    · exact absurd h (by simp [Cursor.faultAt])
    · next hnonempty =>
      obtain ⟨rfl, rfl⟩ := Prod.mk.inj (Except.ok.inj h)
      exact ⟨htext, by simpa using hnonempty⟩
  · rintro ⟨htext, nonempty⟩
    obtain ⟨text, offset⟩ := c
    obtain rfl : text = _ := htext.text_eq
    exact reads_someDigits nonempty htext.bounded atEnd rest offset htext.ends

/-- A point is read together with the digits behind it; without a point nothing is read. -/
theorem exact_fractionDigits (atEnd : Cause) : Exact (fractionDigits atEnd) FractionText := by
  rintro c fraction rest
  rw [fractionDigits]
  by_cases hpoint : c.startsWith ['.'] = true
  · obtain ⟨more, hmore⟩ := startsWith_singleton_iff.1 hpoint
    have hskip : c.skip.rest = more := by rw [Cursor.skip, hmore]
    rw [if_pos hpoint, hmore]
    refine (((exact_someDigits atEnd).map some) c.skip fraction rest).trans ?_
    rw [hskip]
    constructor
    · rintro ⟨digits, ⟨htext, nonempty⟩, rfl⟩
      exact .given htext nonempty
    · intro h
      cases h with
      | absent h => exact absurd rfl h
      | given htext nonempty => exact ⟨_, ⟨htext, nonempty⟩, rfl⟩
  · rw [if_neg hpoint]
    refine ((Exact.pure none) c fraction rest).trans ?_
    have hhead : c.rest.head? ≠ some '.' := by
      intro h
      obtain ⟨more, hmore⟩ := List.head?_eq_some_iff.1 h
      exact hpoint (startsWith_singleton_iff.2 ⟨more, hmore⟩)
    constructor
    · rintro ⟨rfl, rfl⟩
      exact .absent hhead
    · intro h
      generalize c.rest = text at h hhead
      cases h with
      | absent h => exact ⟨rfl, rfl⟩
      | given h nonempty => exact absurd rfl hhead

/-- Where digits are, the first character is one. -/
theorem DigitsText.exists_eq_cons {text rest : List Char} {digits : List Nat}
    (h : DigitsText text digits rest) (nonempty : digits ≠ []) :
    ∃ d more, d < 10 ∧ text = d.digitChar :: more := by
  obtain ⟨d, digits, rfl⟩ := List.exists_cons_of_ne_nil nonempty
  exact ⟨d, _, h.bounded d List.mem_cons_self, h.text_eq⟩

/-- No digit is a sign; the reader looks for a sign in front of the digits of an exponent. -/
theorem digitChar_ne_sign : ∀ d < 10, d.digitChar ≠ '+' ∧ d.digitChar ≠ '-' := by decide

/-- No digits start with a sign, so an exponent with a sign is read by one rule of the grammar only.
-/
theorem DigitsText.not_sign {sign : Char} {text rest : List Char} {digits : List Nat}
    (h : DigitsText (sign :: text) digits rest) (nonempty : digits ≠ []) :
    sign ≠ '+' ∧ sign ≠ '-' := by
  obtain ⟨d, more, hd, heq⟩ := h.exists_eq_cons nonempty
  exact (List.cons.inj heq).1 ▸ digitChar_ne_sign d hd

/-- Digits behind the mark of an exponent are read with the sign in front of them. Only a minus is
kept, since a plus changes nothing. -/
theorem exact_signedDigits (atEnd : Cause) :
    Exact (fun c ↦ someDigits atEnd (if c.startsWith ['+', '-'] then c.skip else c) >>=
      fun found ↦ .ok ((c.startsWith ['-'], found.1), found.2)) SignedText := by
  rintro ⟨text, offset⟩ power rest
  have hsome (negative : Bool) (c : Cursor) :=
    ((exact_someDigits atEnd).map fun digits ↦ (negative, digits)) c power rest
  rcases text with - | ⟨sign, more⟩
  · refine (hsome false ⟨[], offset⟩).trans ⟨?_, ?_⟩
    · rintro ⟨digits, ⟨h, nonempty⟩, rfl⟩
      exact .unsigned h nonempty
    · rintro (⟨h, nonempty⟩ | _ | _)
      exact ⟨_, ⟨h, nonempty⟩, rfl⟩
  by_cases hplus : sign = '+'
  · subst hplus
    refine (hsome false ⟨more, _⟩).trans ⟨?_, ?_⟩
    · rintro ⟨digits, ⟨h, nonempty⟩, rfl⟩
      exact .plus h nonempty
    · rintro (⟨h, nonempty⟩ | ⟨h, nonempty⟩ | _)
      · exact absurd rfl (h.not_sign nonempty).1
      · exact ⟨_, ⟨h, nonempty⟩, rfl⟩
  by_cases hminus : sign = '-'
  · subst hminus
    refine (hsome true ⟨more, _⟩).trans ⟨?_, ?_⟩
    · rintro ⟨digits, ⟨h, nonempty⟩, rfl⟩
      exact .minus h nonempty
    · rintro (⟨h, nonempty⟩ | _ | ⟨h, nonempty⟩)
      · exact absurd rfl (h.not_sign nonempty).2
      · exact ⟨_, ⟨h, nonempty⟩, rfl⟩
  · have hstarts : Cursor.startsWith ⟨sign :: more, offset⟩ ['+', '-'] = false ∧
        Cursor.startsWith ⟨sign :: more, offset⟩ ['-'] = false := by
      simp [Cursor.startsWith, hplus, hminus]
    simp only [hstarts]
    refine (hsome false ⟨sign :: more, offset⟩).trans ⟨?_, ?_⟩
    · rintro ⟨digits, ⟨h, nonempty⟩, rfl⟩
      exact .unsigned h nonempty
    · rintro (⟨h, nonempty⟩ | _ | _)
      · exact ⟨_, ⟨h, nonempty⟩, rfl⟩
      · exact absurd rfl hplus
      · exact absurd rfl hminus

/-- A mark of an exponent is read together with its sign and its digits; without a mark nothing is
read. -/
theorem exact_exponentDigits (atEnd : Cause) : Exact (exponentDigits atEnd) PowerText := by
  rintro ⟨text, offset⟩ power rest
  rw [exponentDigits]
  by_cases hmark : ∃ mark more, text = mark :: more ∧ (mark = 'e' ∨ mark = 'E')
  · obtain ⟨mark, more, rfl, hmark⟩ := hmark
    have hstarts : Cursor.startsWith ⟨mark :: more, offset⟩ ['e', 'E'] = true := by
      simpa [Cursor.startsWith] using hmark
    rw [if_pos hstarts]
    have hread := ((exact_signedDigits atEnd).map some) ⟨more, offset + mark.utf8Size⟩ power rest
    simp only [bind_assoc] at hread
    refine hread.trans ⟨?_, ?_⟩
    · rintro ⟨found, h, rfl⟩
      exact .given hmark h
    · rintro (h | ⟨-, h⟩)
      · exact absurd hmark (not_or.2 (h mark rfl))
      · exact ⟨_, h, rfl⟩
  · have hhead : ∀ ch ∈ text.head?, ch ≠ 'e' ∧ ch ≠ 'E' := by
      intro ch hch
      obtain ⟨more, rfl⟩ := List.head?_eq_some_iff.1 hch
      exact not_or.1 fun h ↦ hmark ⟨ch, more, rfl, h⟩
    have hstarts : Cursor.startsWith ⟨text, offset⟩ ['e', 'E'] ≠ true := by
      intro h
      rcases text with - | ⟨ch, more⟩
      · exact absurd h (by simp [Cursor.startsWith])
      · exact hmark ⟨ch, more, rfl, by simpa [Cursor.startsWith] using h⟩
    rw [if_neg hstarts]
    refine ((Exact.pure none) ⟨text, offset⟩ power rest).trans ⟨?_, ?_⟩
    · rintro ⟨rfl, rfl⟩
      exact .absent hhead
    · rintro (_ | ⟨h, -⟩)
      · exact ⟨rfl, rfl⟩
      · exact absurd ⟨_, _, rfl, h⟩ hmark

/-- The digits of an exponent are in excess exactly if their number is above the limit. The reader
finds this out digit by digit, and here it is said of the number as a whole. -/
theorem excessAt?_eq_none_iff {digits : List Nat} :
    excessAt? digits = none ↔ Decimal.natOf digits ≤ exponentLimit := by
  refine ⟨fun h ↦ ?_, excessAt?_eq_none⟩
  rcases digits with - | ⟨d, more⟩
  · exact Nat.zero_le _
  · have hall := (List.find?_eq_none.1 h) (more.length + 1)
      (List.mem_map_of_mem (List.mem_range.2 (Nat.lt_succ_self _)))
    simpa [List.take_of_length_le] using hall

/-- An exponent is read as the power that counts. One beyond the limit is refused, unless the number
is zero anyway or the power is negative. -/
theorem exact_exponent (isZero : Bool) : Exact (exponent isZero) fun text power rest ↦
    ∃ written, PowerText text written rest ∧ countedPower? isZero written = some power := by
  unfold exponent
  refine ((exact_exponentDigits _).bind (S := fun written text power rest ↦
    countedPower? isZero written = some power ∧ rest = text) ?_).congr fun text power rest ↦ ?_
  · rintro (_ | ⟨negative, digits⟩)
    · exact (Exact.pure none).congr fun _ _ _ ↦ by simp [countedPower?, eq_comm]
    · intro c power rest
      dsimp only
      rw [countedPower?]
      rcases hexcess : excessAt? digits with - | count
      · rw [if_pos (excessAt?_eq_none_iff.1 hexcess)]
        exact (Exact.pure (some _) c power rest).trans (by simp [eq_comm])
      · have hlt : ¬ Decimal.natOf digits ≤ exponentLimit := by
          intro hle
          exact absurd (hexcess.symm.trans (excessAt?_eq_none hle)) (by simp)
        rw [if_neg hlt]
        dsimp only
        cases isZero with
        | true => exact (Exact.pure (some 0) c power rest).trans (by simp [eq_comm])
        | false =>
          cases negative with
          | true => exact (Exact.pure (some _) c power rest).trans (by simp [eq_comm])
          | false => simp
  · constructor
    · rintro ⟨written, _, hpower, hcounted, rfl⟩
      exact ⟨written, hpower, hcounted⟩
    · rintro ⟨written, hpower, hcounted⟩
      exact ⟨written, rest, hpower, hcounted, rfl⟩

theorem DigitsText.length_eq {text rest : List Char} {digits : List Nat}
    (h : DigitsText text digits rest) : text.length = digits.length + rest.length := by
  rw [h.text_eq, Binary64.digitChars, List.length_append, List.length_map]

theorem FractionText.length_le {text rest : List Char} {fraction : Option (List Nat)}
    (h : FractionText text fraction rest) : rest.length ≤ text.length := by
  rcases h with _ | ⟨h, -⟩
  · exact Nat.le_refl _
  · rw [List.length_cons, h.length_eq]
    omega

theorem SignedText.length_le {text rest : List Char} {power : Bool × List Nat}
    (h : SignedText text power rest) : rest.length ≤ text.length := by
  rcases h with ⟨h, -⟩ | ⟨h, -⟩ | ⟨h, -⟩ <;> simp only [List.length_cons, h.length_eq] <;> omega

theorem PowerText.length_le {text rest : List Char} {power : Option (Bool × List Nat)}
    (h : PowerText text power rest) : rest.length ≤ text.length := by
  rcases h with _ | ⟨-, h⟩
  · exact Nat.le_refl _
  · exact Nat.le_succ_of_le h.length_le

/-- A number takes at least one character of the text, as it has a digit in front of the point. -/
theorem NumberText.length_lt {negative : Bool} {text rest : List Char} {value : Json}
    (h : NumberText negative text value rest) : rest.length < text.length := by
  obtain ⟨whole, isWhole, fraction, hpower, -, -⟩ := h
  have hwhole := List.length_pos_iff.2 isWhole.nonempty
  have hfraction := fraction.length_le
  have hrest := hpower.length_le
  rw [whole.length_eq]
  omega

/-- **A number is read as far as it goes**, and it is read if it is not too large. Whether it
becomes an integer or a float is part of the relation, since the reader decides it by the form of
the text. -/
theorem exact_number (negative : Bool) : Exact (number negative) (NumberText negative) := by
  unfold number
  refine ((exact_wholeDigits _).bind fun whole ↦ (exact_fractionDigits _).bind fun fraction ↦
    (exact_exponent _).bind (S := fun power text value rest ↦
      NumberParts.tree? negative ⟨whole, fraction, power⟩ = some value ∧ rest = text) ?_).congr
    fun text value rest ↦ ?_
  · intro power c value rest
    rcases hfound : NumberParts.tree? negative ⟨whole, fraction, power⟩ with - | found
    · cases fraction <;> cases power <;> dsimp only [NumberParts.tree?] at hfound ⊢ <;>
        rw [hfound] <;> simp [Cursor.faultBehind]
    · have hread := Exact.pure found c value rest
      cases fraction <;> cases power <;> dsimp only [NumberParts.tree?] at hfound ⊢ <;>
        rw [hfound] <;> exact hread.trans (by simp [eq_comm])
  · constructor
    · rintro ⟨whole, behind, ⟨hwhole, isWhole⟩, fraction, middle, hfraction, power, _,
        ⟨written, hpower, hcounted⟩, hvalue, rfl⟩
      exact .parts hwhole isWhole hfraction hpower hcounted hvalue
    · rintro ⟨hwhole, isWhole, hfraction, hpower, hcounted, hvalue⟩
      exact ⟨_, _, ⟨hwhole, isWhole⟩, _, _, hfraction, _, _, ⟨_, hpower, hcounted⟩, hvalue, rfl⟩

end AppManifest.Json
